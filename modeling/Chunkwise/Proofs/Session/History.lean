import Chunkwise.Proofs.Session.Invariant

/-!
# A session does not remember how it was used

What a session shows once a pass has succeeded is what one fresh pass over its content gives, at its size and with the
strategy of that pass. So two ways of using a session that end with the same content, size and strategy end with the
same chunks.
-/

namespace Chunkwise.Session

variable {s t : Session} {request : Request} {b : Begun} {o p : Outcome}

/-- A pass that succeeds is installed: its chunks replace the ones before, and the place moves no further than to the
    last of them. -/
theorem handle_of_result_ok (runs : passOf s request = some b) (made : b.result = .ok o) :
    (s.handle request).1.outcome = some o ∧ (s.handle request).1.chunks = o.chunks ∧
      (s.handle request).1.index = min b.session.index (o.chunks.length - 1) := by
  rw [handle_of_passOf runs, Begun.ended, made]
  exact ⟨rfl, rfl, rfl⟩

/-- Sound sessions with the same content, size and strategy of the latest outcome have the same chunks. -/
theorem Sound.chunks_eq (left : s.Sound) (right : t.Sound) (ofLeft : s.outcome = some o) (ofRight : t.outcome = some p)
    (content : s.content = t.content) (size : s.size = t.size) (strategy : o.strategy = p.strategy) :
    s.chunks = t.chunks ∧ s.analysis = t.analysis := by
  obtain ⟨freshLeft, chunksLeft, sizeLeft, analysisLeft⟩ := left.fresh o ofLeft
  obtain ⟨freshRight, chunksRight, sizeRight, analysisRight⟩ := right.fresh p ofRight
  have same : (Except.ok o : Except Fault Outcome) = .ok p := by
    rw [← freshLeft, ← freshRight, content, strategy, ← sizeLeft, ← sizeRight, size]
  obtain rfl := Except.ok.inj same
  exact ⟨chunksLeft.trans chunksRight.symm, analysisLeft.trans analysisRight.symm⟩

/-- A session's chunks, its analysis and its size are those of a fresh pass, whatever was asked of the session before.
    A kept analysis makes no difference to a pass, and going back to a content, a size and a strategy gives the same
    chunks again. -/
theorem history_independence {engine : Engine} {size : ℤ} {minSize : Option ℤ} {strategy : Argument} {content : Content}
    (opened : start engine size minSize strategy content = .ok s) :
    (∀ (history : List Request) (o : Outcome), (s.after history).outcome = some o →
      ∃ fresh, Pass.run Pass.defaultThreshold (s.after history).content (.int (s.after history).size)
          (.text o.strategy.word) none = .ok fresh ∧
        (s.after history).chunks = fresh.chunks ∧ (s.after history).analysis = some fresh.analysis ∧
        (s.after history).size = fresh.target.value) ∧
    (∀ (threshold : ℤ) (text : Text) (target named : Argument) (other : Text),
      Pass.run threshold text target named (some (Analysis.ofContent other)) =
        Pass.run threshold text target named none) ∧
    (∀ (earlier later : List Request) (o p : Outcome), (s.after earlier).outcome = some o →
      (s.after later).outcome = some p → (s.after earlier).content = (s.after later).content →
      (s.after earlier).size = (s.after later).size → o.strategy = p.strategy →
      (s.after earlier).chunks = (s.after later).chunks ∧ (s.after earlier).analysis = (s.after later).analysis) := by
  have sound : ∀ history, (s.after history).Sound := fun history => sound_after (sound_start opened) history
  refine ⟨?_, ?_, ?_⟩
  · intro history o found
    obtain ⟨fresh, chunks, sized, analysis⟩ := (sound history).fresh o found
    refine ⟨o, ?_, chunks, analysis, sized⟩
    rw [sized]
    exact fresh
  · intro threshold text target named other
    exact run_kept threshold text target named (some other)
  · intro earlier later o p ofEarlier ofLater
    exact (sound earlier).chunks_eq (sound later) ofEarlier ofLater

/-- A session opened with nothing in it, that is then given two letters. -/
theorem history_independence_two_letters :
    ∃ s o, start .working 1 (some 1) .null { text := [] } = .ok s ∧
      (s.after [.process { text := ['a', 'b'] }]).outcome = some o ∧
      ∃ fresh, Pass.run Pass.defaultThreshold (s.after [.process { text := ['a', 'b'] }]).content
          (.int (s.after [.process { text := ['a', 'b'] }]).size) (.text o.strategy.word) none = .ok fresh ∧
        (s.after [.process { text := ['a', 'b'] }]).chunks = fresh.chunks := by
  have opened : start .working 1 (some 1) .null { text := [] } = .ok (empty .working 1 (some 1) .semantic) := rfl
  have runs : passOf (empty .working 1 (some 1) .semantic) (.process { text := ['a', 'b'] }) =
      some ⟨{ cleared ['a', 'b'] (empty .working 1 (some 1) .semantic) with size := 1 }, .int 1⟩ := rfl
  have short : (['a', 'b'] : Text).length < 2 ^ 2 := by decide
  have small : (⟨1, by decide⟩ : TargetSize).value < 2 ^ 1 := by decide
  obtain ⟨o, made⟩ := Pass.runOn_total Pass.defaultThreshold .semantic short (by decide) small (by decide)
  rw [← Pass.run_eq_runOn Pass.defaultThreshold ['a', 'b'] ⟨1, by decide⟩ .semantic none] at made
  obtain ⟨installed, -, -⟩ := handle_of_result_ok runs made
  obtain ⟨fresh, run, chunks, -, -⟩ := (history_independence opened).1 [.process { text := ['a', 'b'] }] o installed
  exact ⟨_, o, opened, installed, fresh, run, chunks⟩

end Chunkwise.Session
