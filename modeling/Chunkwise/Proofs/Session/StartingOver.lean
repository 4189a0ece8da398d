import Chunkwise.Proofs.Session.Answers
import Chunkwise.Proofs.Session.State

/-!
# Starting over with a text

An idle session that is given a text shows it, whether its pass succeeds or is stopped: there are chunks, and they give
the text back. A busy session runs no pass. It has then given up the text that it had and shows nothing of the new one,
until it is idle and the next request for a pass comes in.
-/

namespace Chunkwise.Session

variable {s : Session} {text : Text} {content : Content} {request : Request}

/-- There are chunks, and joined in order they give the text. -/
def Shows (text : Text) (s : Session) : Prop := s.chunks ≠ [] ∧ (s.chunks.map (·.content)).flatten = text

/-- A session that has started over with a text, before any pass over it. -/
def awaiting (text : Text) (s : Session) : Session :=
  { cleared text s with size := (cleared text s).clamp s.defaultSize }

theorem sound_awaiting (text : Text) (s : Session) : (awaiting text s).Sound :=
  sound_clears (⟨rfl, rfl, rfl, rfl, rfl⟩ : Clears text _)

theorem isWritable_awaiting (nonempty : content.text ≠ []) (s : Session) :
    (Argument.int (awaiting content.text s).size).isWritable :=
  isWritable_clamp (s := cleared content.text s) nonempty (content.short.trans_le Size.lengthLimit_le_limit) _

/-! ## Passes over a text -/

/-- However a pass ends at a size that can be written, the session shows its content. -/
theorem shows_finishPass (sound : s.Sound) (nonempty : s.content ≠ []) {size : Argument} (writable : size.isWritable) :
    Shows s.content (s.finishPass size (s.runPass size).2).1 := by
  have content : (s.finishPass size (s.runPass size).2).1.content = s.content := (finishPass_frame ..).1
  have some := filled_finishPass sound (Or.inr writable) (by rwa [content])
  have tiles := (sound_finishPass sound size).tiled.resolve_left some
  rw [content] at tiles
  exact ⟨some, by simpa using tiles.flatten⟩

/-- An idle session without an outcome runs a pass at every request for one, and so comes to show its content. -/
theorem shows_of_asks (sound : s.Sound) (nonempty : s.content ≠ []) (short : s.content.length < Size.limit)
    (idle : s.busy = false) (unmade : s.outcome = none) (asks : request.asksForPass)
    (writable : ∀ v, request = .rechunk v → v.isWritable) : Shows s.content (s.handle request).1 := by
  obtain ⟨size, runs, written⟩ : ∃ size, passOf s request = some ⟨s, size⟩ ∧ size.isWritable := by
    cases request with
    | resize size =>
      cases size with
      | int n =>
        exact ⟨.int (s.clamp n), by simp [passOf, wantedSize_int, idle, hasOutcome, unmade],
          isWritable_clamp nonempty short n⟩
      | null | bool | real | text | list | record => cases asks
    | rechunk size => exact ⟨size, by simp [passOf, idle], writable size rfl⟩
    | process | setStrategy | switchTo | next | previous | navigate | setBusy | setEngine => cases asks
  rw [handle_of_passOf runs]
  exact shows_finishPass sound nonempty written

/-! ## A session that is given a text -/

/-- Whether a pass over the text is run, the session that has started over decides. -/
theorem handle_process (nonempty : content.text ≠ []) {ended : Effect Bool}
    (ends : (awaiting content.text s).rechunk (.int (awaiting content.text s).size) = ended) :
    s.handle (.process content) = (ended.1, ended.2.map fun _ => .count ended.1.chunks.length) := by
  have is : s.process content.text = (ended.1, ended.2.map fun _ => ended.1.chunks.length) := by
    rw [← ends, process, if_neg (by simpa using nonempty)]
    rfl
  rw [handle, is, Effect.map]
  cases ended.2 <;> rfl

theorem handle_process_busy (nonempty : content.text ≠ []) (running : s.busy) :
    s.handle (.process content) = (awaiting content.text s, .ok (.count 0)) :=
  handle_process nonempty (rechunk_busy (s := awaiting content.text s) running _)

theorem handle_process_idle (nonempty : content.text ≠ []) (idle : s.busy = false) {ended : Effect Bool}
    (ends : (awaiting content.text s).finishPass (.int (awaiting content.text s).size)
      ((awaiting content.text s).runPass (.int (awaiting content.text s).size)).2 = ended) :
    s.handle (.process content) = (ended.1, ended.2.map fun _ => .count ended.1.chunks.length) :=
  handle_process nonempty ((rechunk_idle (by exact idle) _).trans ends)

theorem shows_process (nonempty : content.text ≠ []) (idle : s.busy = false) :
    Shows content.text (s.handle (.process content)).1 := by
  rw [handle_process_idle nonempty idle rfl]
  exact shows_finishPass (sound_awaiting content.text s) nonempty (isWritable_awaiting nonempty s)

/-- An idle session says how many chunks it has made of a text. -/
theorem answer_process (nonempty : content.text ≠ []) (idle : s.busy = false) :
    (s.handle (.process content)).2 = .ok (.count (s.handle (.process content)).1.chunks.length) := by
  rw [handle_process_idle nonempty idle rfl]
  cases made : ((awaiting content.text s).runPass (.int (awaiting content.text s).size)).2 with
  | error cause =>
    rw [finishPass_of_writable (isWritable_awaiting nonempty s)]
    rfl
  | ok o =>
    have taken := size_of_result_ok (b := ⟨awaiting content.text s, .int (awaiting content.text s).size⟩) made
    have bounded : (awaiting content.text s).size ≤ content.text.length := by simp [awaiting, clamp, cleared, nonempty]
    have short := content.short.trans_le Size.lengthLimit_le_limit
    have size := Argument.int.inj taken
    rcases Size.write_cases o.target.value with ⟨-, t, written⟩ | ⟨reached, -⟩
    · simp only [finishPass, written]
      rfl
    · omega

/-- A session that is given a text is as before or shows the text, if it is idle, and otherwise only if the text is the
    one that it has been waiting to show. An idle session shows the text however its pass ends, and says in how many
    chunks. A busy one gives up what it had and says that there are no chunks; as soon as it is idle, any request for a
    pass makes it show the text, if the size of the pass can be written. -/
theorem text_kept_iff (s : Session) {content : Content} (nonempty : content.text ≠ []) :
    ((s.handle (.process content)).1 = s ∨ Shows content.text (s.handle (.process content)).1 ↔
      s.busy = false ∨ awaiting content.text s = s) ∧
    (s.busy = false → Shows content.text (s.handle (.process content)).1 ∧
      (s.handle (.process content)).2 = .ok (.count (s.handle (.process content)).1.chunks.length)) ∧
    (s.busy → s.handle (.process content) = (awaiting content.text s, .ok (.count 0)) ∧
      ∀ request : Request, request.asksForPass → (∀ v, request = .rechunk v → v.isWritable) →
        Shows content.text (((awaiting content.text s).handle (.setBusy false)).1.handle request).1) := by
  refine ⟨?_, fun idle => ⟨shows_process nonempty idle, answer_process nonempty idle⟩, fun running => ?_⟩
  · cases running : s.busy with
    | false => simp [shows_process nonempty running]
    | true =>
      rw [handle_process_busy nonempty running]
      have blank : ¬ Shows content.text (awaiting content.text s) := fun shows => shows.1 rfl
      simp [blank]
  · refine ⟨handle_process_busy nonempty running, fun request asks writable => ?_⟩
    have sound := sound_handle (sound_awaiting content.text s) (.setBusy false)
    exact shows_of_asks sound nonempty (content.short.trans_le Size.lengthLimit_le_limit) rfl rfl asks writable

/-- A session whose passes are all stopped shows what it is given. -/
theorem text_kept_iff_stopped :
    ∃ s, start (.failing "boom".toList) 1 (some 1) .null { text := [] } = .ok s ∧ s.busy = false ∧
      Shows ['a', 'b'] (s.handle (.process { text := ['a', 'b'] })).1 := by
  have nonempty : ({ text := ['a', 'b'] } : Content).text ≠ [] := by decide
  obtain ⟨-, shown, -⟩ := text_kept_iff (empty (.failing "boom".toList) 1 (some 1) .semantic) nonempty
  exact ⟨_, rfl, rfl, (shown rfl).1⟩

/-- A busy session that shows one letter and is given another one shows neither. -/
theorem text_dropped_while_busy :
    ∃ s t, start .working 1 (some 1) .null { text := [] } = .ok s ∧
      t = s.after [.process { text := ['a'] }, .setBusy true] ∧ Shows ['a'] t ∧
      (t.handle (.process { text := ['b'] })).1 ≠ t ∧ ¬ Shows ['b'] (t.handle (.process { text := ['b'] })).1 ∧
      (t.handle (.process { text := ['b'] })).1.chunks = [] := by
  have first : ({ text := ['a'] } : Content).text ≠ [] := by decide
  have second : ({ text := ['b'] } : Content).text ≠ [] := by decide
  have shown : Shows ['a'] ((empty .working 1 (some 1) .semantic).after [.process { text := ['a'] }, .setBusy true]) :=
    shows_process first rfl
  have dropped := handle_process_busy second
    (s := (empty .working 1 (some 1) .semantic).after [.process { text := ['a'] }, .setBusy true]) rfl
  refine ⟨_, _, rfl, rfl, shown, ?_, ?_, ?_⟩
  · intro same
    rw [dropped] at same
    exact shown.1 (congrArg chunks same).symm
  · rw [dropped]
    exact fun shows => shows.1 rfl
  · rw [dropped]
    rfl

end Chunkwise.Session
