import Chunkwise.Proofs.Session.Passes

/-!
# What holds of every session

However a session is used, its place is that of a chunk, its chunks tile its content, and what it keeps of its latest
pass is what a fresh pass would give. A pass that succeeds puts chunks of the content in, whatever was there before,
and a pass that fails leaves them or makes the whole content one chunk.
-/

namespace Chunkwise.Session

/-! ## Fresh passes -/

/-- An outcome is the one that a pass over a content gives when nothing is known beforehand. -/
def Fresh (content : Text) (o : Outcome) : Prop :=
  Pass.run Pass.defaultThreshold content (.int o.target.value) (.text o.strategy.word) none = .ok o

/-- What a pass gives does not depend on the analysis that was kept. -/
theorem run_kept (threshold : ℤ) (content : Text) (size strategy : Argument) (kept : Option Text) :
    Pass.run threshold content size strategy (kept.map Analysis.ofContent) =
      Pass.run threshold content size strategy none := by
  simp only [Pass.run, Pass.analysisFor_eq]
  rfl

theorem fresh_of_run {content : Text} {size strategy : Argument} (kept : Option Text) {o : Outcome}
    (made : Pass.run Pass.defaultThreshold content size strategy (kept.map Analysis.ofContent) = .ok o) :
    Fresh content o ∧ o.analysis = Analysis.ofContent content := by
  obtain ⟨target, sized, rest⟩ := Fault.bind_ok.mp made
  obtain ⟨named, known, run⟩ := Fault.bind_ok.mp rest
  rw [Pass.analysisFor_eq] at run
  have gives := Pass.gives_of_runOn run
  have again := Pass.run_eq_runOn Pass.defaultThreshold content o.target o.strategy none
  constructor
  · rw [gives.target_eq, gives.strategy_eq] at again
    rw [Fresh, gives.target_eq, gives.strategy_eq, ← run, ← again]
    rfl
  · exact gives.analysis_eq

theorem Fresh.lossless {content : Text} {o : Outcome} (fresh : Fresh content o) :
    Lossless content o.target o.chunks := by
  have made : Pass.run Pass.defaultThreshold content (.int o.target.value) (.text o.strategy.word)
      (Option.map Analysis.ofContent none) = .ok o := fresh
  exact Pass.lossless_of_run made

/-! ## The invariant -/

/-- What holds of a session at any time. -/
structure Sound (s : Session) : Prop where
  placed : (s.chunks = [] ∧ s.index = 0) ∨ s.index < s.chunks.length
  tiled : s.chunks = [] ∨ Chunk.Tiles s.content 0 0 s.chunks
  known : s.analysis = none ∨ s.analysis = some (Analysis.ofContent s.content)
  fresh : ∀ o, s.outcome = some o →
    Fresh s.content o ∧ s.chunks = o.chunks ∧ s.size = o.target.value ∧ s.analysis = some o.analysis

variable {s t : Session} {o : Outcome}

theorem sound_keeps (sound : s.Sound) (keeps : Keeps s t) : t.Sound := by
  refine ⟨?_, ?_, ?_, ?_⟩
  · rcases keeps.index with le | valid
    · rw [keeps.chunks]
      rcases sound.placed with ⟨blank, first⟩ | valid
      · exact Or.inl ⟨blank, by omega⟩
      · exact Or.inr (by omega)
    · exact Or.inr valid
  · rw [keeps.chunks, keeps.content]
    exact sound.tiled
  · rw [keeps.analysis, keeps.content]
    exact sound.known
  · rw [keeps.outcome, keeps.chunks, keeps.content, keeps.size, keeps.analysis]
    exact sound.fresh

theorem sound_clears {content : Text} (clears : Clears content t) : t.Sound := by
  refine ⟨Or.inl ⟨clears.chunks, clears.index⟩, Or.inl clears.chunks, Or.inl clears.analysis, ?_⟩
  intro o found
  rw [clears.outcome] at found
  cases found

/-! ## A pass -/

theorem placed_clampIndex (s : Session) :
    (s.clampIndex.chunks = [] ∧ s.clampIndex.index = 0) ∨ s.clampIndex.index < s.clampIndex.chunks.length := by
  simp only [clampIndex]
  cases s.chunks with
  | nil => exact Or.inl ⟨rfl, by simp⟩
  | cons c rest => exact Or.inr (by simp only [List.length_cons]; omega)

theorem tiles_wholeContent (content : Text) : Chunk.Tiles content 0 0 (wholeContent content) := by
  unfold wholeContent
  split
  · rename_i blank
    rw [List.isEmpty_iff.mp blank]
    rfl
  · rename_i some
    exact Wrapping.tiles_applyAll (Chunk.tiles_single (by simpa using some) rfl)

theorem fresh_of_runPass {size : Argument}
    (known : s.analysis = none ∨ s.analysis = some (Analysis.ofContent s.content))
    (made : (s.runPass size).2 = .ok o) : Fresh s.content o ∧ o.analysis = Analysis.ofContent s.content := by
  have run := outcomeAt_of_runPass made
  unfold outcomeAt at run
  split at run
  · cases run
  · rcases known with unknown | known
    · rw [unknown] at run
      exact fresh_of_run none run
    · rw [known] at run
      exact fresh_of_run (some s.content) run

theorem sound_install (fresh : Fresh s.content o) (known : o.analysis = Analysis.ofContent s.content) :
    (s.install o).Sound := by
  refine ⟨placed_clampIndex _, Or.inr fresh.lossless.tiles, Or.inr (congrArg some known), ?_⟩
  intro p found
  obtain rfl : o = p := Option.some.inj found
  exact ⟨fresh, rfl, rfl, rfl⟩

/-- A pass that fails leaves chunks that there are, and makes the whole content one when there are none. -/
theorem sound_recordFailure (sound : s.Sound) (size : Argument) (cause : Fault) :
    (s.recordFailure size cause).clampIndex.Sound := by
  have chunks : (s.recordFailure size cause).chunks = if s.chunks.isEmpty then wholeContent s.content else s.chunks :=
    rfl
  refine ⟨placed_clampIndex _, ?_, sound.known, ?_⟩
  · show (s.recordFailure size cause).chunks = [] ∨ Chunk.Tiles s.content 0 0 (s.recordFailure size cause).chunks
    rw [chunks]
    split
    · exact Or.inr (tiles_wholeContent s.content)
    · exact sound.tiled
  · intro o found
    obtain ⟨fresh, same, sized, known⟩ := sound.fresh o found
    refine ⟨fresh, ?_, sized, known⟩
    show (s.recordFailure size cause).chunks = o.chunks
    rw [chunks]
    split
    · rename_i blank
      -- The outcome has no chunks only because the content is empty, which is no chunk on its own either.
      have none : o.chunks = [] := by rw [← same, List.isEmpty_iff.mp blank]
      rw [none, fresh.lossless.none_iff.mp none]
      rfl
    · exact same

theorem sound_clampIndex (sound : s.Sound) : s.clampIndex.Sound :=
  ⟨placed_clampIndex s, sound.tiled, sound.known, sound.fresh⟩

theorem sound_finishPass (sound : s.Sound) (size : Argument) :
    (s.finishPass size (s.runPass size).2).1.Sound := by
  have idle : Sound { s with busy := false } := ⟨sound.placed, sound.tiled, sound.known, sound.fresh⟩
  cases made : (s.runPass size).2 with
  | error cause =>
    cases writable : size.isWritable with
    | true =>
      rw [finishPass_of_writable writable]
      exact sound_recordFailure idle size cause
    | false =>
      rw [finishPass_of_not_writable writable]
      exact sound_clampIndex idle
  | ok o =>
    obtain ⟨fresh, known⟩ := fresh_of_runPass sound.known made
    exact sound_install (s := { s with busy := false }) fresh known

/-! ## A history -/

theorem sound_begins {request : Request} {b : Begun} (sound : s.Sound) (runs : passOf s request = some b) :
    b.session.Sound := by
  rcases begins_of_passOf runs with ⟨keeps, -⟩ | ⟨content, -, clears, -⟩
  · exact sound_keeps sound keeps
  · exact sound_clears clears

/-- Every request keeps a session sound. -/
theorem sound_handle (sound : s.Sound) (request : Request) : (s.handle request).1.Sound := by
  cases runs : passOf s request with
  | none =>
    rcases handle_of_passOf_none runs with keeps | ⟨content, -, clears, -⟩
    · exact sound_keeps sound keeps
    · exact sound_clears clears
  | some b =>
    rw [handle_of_passOf runs]
    exact sound_finishPass (sound_begins sound runs) b.size

theorem sound_after (sound : s.Sound) (history : List Request) : (s.after history).Sound := by
  induction history generalizing s with
  | nil => exact sound
  | cons request rest ih => exact ih (sound_handle sound request)

theorem sound_empty (engine : Engine) (size : ℤ) (minSize : Option ℤ) (strategy : Strategy) :
    (empty engine size minSize strategy).Sound :=
  sound_clears (⟨rfl, rfl, rfl, rfl, rfl⟩ : Clears [] _)

/-- A session that has been opened is the empty one, after it has started over with the content unless that is
    empty. -/
theorem start_eq {engine : Engine} {size : ℤ} {minSize : Option ℤ} {strategy : Argument} {content : Content}
    (opened : start engine size minSize strategy content = .ok s) : ∃ named, Strategy.ofArgument strategy = .ok named ∧
      s = (empty engine size minSize named).after (if content.text.isEmpty then [] else [.process content]) := by
  obtain ⟨named, known, rest⟩ := Fault.bind_ok.mp opened
  refine ⟨named, known, ?_⟩
  dsimp only at rest
  split at rest
  · rename_i blank
    cases rest
    rw [if_pos blank]
    rfl
  · rename_i some
    obtain ⟨count, answered, last⟩ := Fault.bind_ok.mp rest
    cases last
    rw [if_neg some]
    rfl

/-! ## The length of the content -/

/-- A session that starts over does so with a text that can be held, and no other request changes its content. -/
theorem held_handle (held : s.content.length < Text.lengthLimit) (request : Request) :
    (s.handle request).1.content.length < Text.lengthLimit := by
  cases runs : passOf s request with
  | none =>
    rcases handle_of_passOf_none runs with keeps | ⟨content, -, clears, -⟩
    · rwa [keeps.content]
    · rw [clears.content]
      exact content.short
  | some b =>
    rw [handle_of_passOf runs, Begun.ended, (finishPass_frame ..).1]
    rcases begins_of_passOf runs with ⟨keeps, -⟩ | ⟨content, -, clears, -⟩
    · rwa [keeps.content]
    · rw [clears.content]
      exact content.short

theorem held_after (held : s.content.length < Text.lengthLimit) (history : List Request) :
    (s.after history).content.length < Text.lengthLimit := by
  induction history generalizing s with
  | nil => exact held
  | cons request rest ih => exact ih (held_handle held request)

/-! ## A session that has been opened -/

theorem sound_start {engine : Engine} {size : ℤ} {minSize : Option ℤ} {strategy : Argument} {content : Content}
    (opened : start engine size minSize strategy content = .ok s) : s.Sound := by
  obtain ⟨named, -, rfl⟩ := start_eq opened
  exact sound_after (sound_empty ..) _

theorem held_start {engine : Engine} {size : ℤ} {minSize : Option ℤ} {strategy : Argument} {content : Content}
    (opened : start engine size minSize strategy content = .ok s) : s.content.length < Text.lengthLimit := by
  obtain ⟨named, -, rfl⟩ := start_eq opened
  have blank : (empty engine size minSize named).content.length < Text.lengthLimit :=
    (by decide : 0 < Text.lengthLimit)
  exact held_after blank _

end Chunkwise.Session
