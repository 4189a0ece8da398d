import Chunkwise.Proofs.Session.Installs

/-!
# The state of a session

A session always stands on one of its chunks, if it has any. It has some as soon as it has a content, except after it
was told to start over while a pass was said to be running. Every request that begins idle ends idle.
-/

namespace Chunkwise.Session

variable {s : Session} {request : Request} {b : Begun}

/-! ## Chunks for every content -/

/-- A session has chunks as soon as it has a content. -/
def Filled (s : Session) : Prop := s.content ≠ [] → s.chunks ≠ []

/-- A pass leaves chunks behind if there were some before, or if its failure can be recorded. -/
theorem filled_finishPass (sound : s.Sound) {size : Argument} (shown : s.Filled ∨ size.isWritable) :
    (s.finishPass size (s.runPass size).2).1.Filled := by
  intro nonempty
  rw [(finishPass_frame ..).1] at nonempty
  cases made : (s.runPass size).2 with
  | error cause =>
    cases writable : size.isWritable with
    | true =>
      rw [finishPass_of_writable writable]
      show (if s.chunks.isEmpty then wholeContent s.content else s.chunks) ≠ []
      split
      · exact mt (tiles_wholeContent s.content).eq_nil_iff.mp nonempty
      · rename_i some
        simpa using some
    | false =>
      rw [finishPass_of_not_writable writable]
      exact shown.resolve_right (by simp [writable]) nonempty
  | ok o =>
    obtain ⟨fresh, -⟩ := fresh_of_runPass sound.known made
    exact mt fresh.lossless.none_iff.mp nonempty

/-- Starting over runs a pass at a size that can be written. -/
theorem isWritable_of_passOf_process {content : Content} (runs : passOf s (.process content) = some b) :
    b.size.isWritable := by
  simp only [passOf] at runs
  split at runs
  · cases runs
  · rename_i some
    cases runs
    exact isWritable_clamp (s := cleared content.text s) (by simpa [cleared] using mt Or.inl some)
      (content.short.trans_le Size.lengthLimit_le_limit) s.defaultSize

/-- Every request keeps a session filled, unless it starts over while a pass is running. -/
theorem filled_handle (sound : s.Sound) (filled : s.Filled)
    (calm : ∀ content, request = .process content → s.busy = false) : (s.handle request).1.Filled := by
  cases runs : passOf s request with
  | none =>
    rcases handle_of_passOf_none runs with keeps | ⟨content, is, clears, blank | running⟩
    · unfold Filled
      rw [keeps.content, keeps.chunks]
      exact filled
    · intro nonempty
      rw [clears.content] at nonempty
      exact absurd blank nonempty
    · rw [calm content is] at running
      cases running
  | some b =>
    rw [handle_of_passOf runs]
    refine filled_finishPass (sound_begins sound runs) ?_
    rcases begins_of_passOf runs with ⟨keeps, -⟩ | ⟨content, rfl, -⟩
    · left
      unfold Filled
      rw [keeps.content, keeps.chunks]
      exact filled
    · exact Or.inr (isWritable_of_passOf_process runs)

theorem filled_after (sound : s.Sound) (filled : s.Filled) {history : List Request}
    (calm : ∀ before content rest, history = before ++ .process content :: rest → (s.after before).busy = false) :
    (s.after history).Filled := by
  induction history generalizing s with
  | nil => exact filled
  | cons request rest ih =>
    have now : ∀ content, request = .process content → s.busy = false := by
      intro content is
      exact calm [] content rest (by rw [is]; rfl)
    refine ih (sound_handle sound request) (filled_handle sound filled now) ?_
    intro before content others is
    exact calm (request :: before) content others (by rw [is]; rfl)

theorem filled_start {engine : Engine} {size : ℤ} {minSize : Option ℤ} {strategy : Argument} {content : Content}
    (opened : start engine size minSize strategy content = .ok s) : s.Filled := by
  obtain ⟨named, -, rfl⟩ := start_eq opened
  refine filled_after (sound_empty ..) (fun nonempty => absurd rfl nonempty) ?_
  intro before other rest is
  cases before with
  | nil => rfl
  | cons first more =>
    split at is
    · cases is
    · simp at is

/-! ## Idle sessions -/

theorem idle_rechunk (idle : s.busy = false) (size : Argument) : (s.rechunk size).1.busy = false := by
  rw [rechunk_idle idle]
  exact (finishPass_frame ..).2.2

/-- Every request that begins idle ends idle, however it ends, but the one that says that a pass is running. -/
theorem idle_handle (idle : s.busy = false) (other : ∀ busy, request ≠ .setBusy busy) :
    (s.handle request).1.busy = false := by
  cases request with
  | process content =>
    simp only [handle, process, Effect.map]
    split
    · exact idle
    · exact idle_rechunk (by exact idle) _
  | resize size =>
    simp only [handle, resize, resizeBy, Effect.map]
    split
    · exact idle
    · exact idle
    · exact idle_rechunk idle _
  | rechunk size => exact idle_rechunk idle size
  | setStrategy strategy =>
    simp only [handle, setStrategy, Effect.map]
    split
    · exact idle
    · split
      · exact idle
      · split
        · exact idle
        · exact idle_rechunk (by exact idle) _
  | switchTo index =>
    simp only [handle, switchTo, Effect.map]
    split <;> exact idle
  | next =>
    simp only [handle, next, Effect.map]
    split <;> exact idle
  | previous =>
    simp only [handle, previous, Effect.map]
    split <;> exact idle
  | navigate index =>
    simp only [handle, navigate, Effect.map]
    split <;> exact idle
  | setBusy busy => exact absurd rfl (other busy)
  | setEngine engine => exact idle

/-! ## The state -/

theorem current_total (valid : s.index < s.chunks.length) : ∃ c, s.current = some c :=
  ⟨s.chunks[s.index], List.getElem?_eq_getElem valid⟩

/-- Where a pass finds the place of a session: where it is, or at the beginning when the session starts over. -/
theorem index_of_passOf (runs : passOf s request = some b) :
    b.session.index = s.index ∨ (∃ content, request = .process content) ∧ b.session.index = 0 := by
  rcases begins_of_passOf runs with ⟨-, index⟩ | ⟨content, is, clears, -⟩
  · exact Or.inl index
  · exact Or.inr ⟨⟨content, is⟩, clears.index⟩

/-- No outcome is installed by a request that runs no pass. -/
theorem outcome_of_passOf_none (passless : passOf s request = none) :
    (s.handle request).1.outcome = s.outcome ∨ (s.handle request).1.outcome = none := by
  rcases handle_of_passOf_none passless with keeps | ⟨content, -, clears, -⟩
  · exact Or.inl keeps.outcome
  · exact Or.inr clears.outcome

/-- The state of a session after any history of requests. Its place is that of a chunk, its chunks tile its content,
    and there are some for every content unless the session started over while it was busy. A pass that succeeds moves
    the place no further than to the last chunk, and a request that begins idle ends idle. -/
theorem state_invariant {engine : Engine} {size : ℤ} {minSize : Option ℤ} {strategy : Argument} {content : Content}
    (opened : start engine size minSize strategy content = .ok s) (history : List Request) :
    (((s.after history).chunks = [] ∧ (s.after history).index = 0 ∧ (s.after history).current = none) ∨
      (s.after history).index < (s.after history).chunks.length ∧ ∃ c, (s.after history).current = some c) ∧
    ((s.after history).chunks = [] ∨
      Chunk.Tiles (s.after history).content 0 0 (s.after history).chunks ∧
        ((s.after history).chunks.map (·.content)).flatten = (s.after history).content) ∧
    ((∀ before other rest, history = before ++ .process other :: rest → (s.after before).busy = false) →
      (s.after history).content ≠ [] → (s.after history).chunks ≠ []) ∧
    (∀ request,
      (∀ b, passOf (s.after history) request = some b →
        (b.session.index = (s.after history).index ∨ (∃ other, request = .process other) ∧ b.session.index = 0) ∧
        ∀ o, b.result = .ok o → ((s.after history).handle request).1.chunks = o.chunks ∧
          ((s.after history).handle request).1.index = min b.session.index (o.chunks.length - 1)) ∧
      (passOf (s.after history) request = none →
        ((s.after history).handle request).1.outcome = (s.after history).outcome ∨
          ((s.after history).handle request).1.outcome = none)) ∧
    (∀ request, (∀ busy, request ≠ .setBusy busy) → (s.after history).busy = false →
      ((s.after history).handle request).1.busy = false) := by
  have sound : (s.after history).Sound := sound_after (sound_start opened) history
  refine ⟨?_, ?_, ?_, ?_, ?_⟩
  · rcases sound.placed with ⟨blank, first⟩ | valid
    · exact Or.inl ⟨blank, first, by simp [current, blank]⟩
    · exact Or.inr ⟨valid, current_total valid⟩
  · rcases sound.tiled with blank | tiles
    · exact Or.inl blank
    · exact Or.inr ⟨tiles, by simpa using tiles.flatten⟩
  · intro calm
    exact filled_after (sound_start opened) (filled_start opened) calm
  · intro request
    refine ⟨?_, outcome_of_passOf_none⟩
    intro b runs
    refine ⟨index_of_passOf runs, ?_⟩
    intro o made
    exact (handle_of_result_ok runs made).2
  · intro request other idle
    exact idle_handle idle other

/-- Passes that are always stopped leave the whole content as one chunk. -/
theorem state_invariant_stopped :
    ∃ s, start (.failing []) 1 (some 1) .null { text := [] } = .ok s ∧
      (s.after [.process { text := ['a', 'b'] }, .next, .rechunk .null]).chunks ≠ [] ∧
      (s.after [.process { text := ['a', 'b'] }, .next, .rechunk .null]).busy = false := by
  have opened : start (.failing []) 1 (some 1) .null { text := [] } =
      .ok (empty (.failing []) 1 (some 1) .semantic) := rfl
  obtain ⟨-, -, filled, -, -⟩ := state_invariant opened [.process { text := ['a', 'b'] }, .next, .rechunk .null]
  refine ⟨_, opened, filled ?_ (by decide), rfl⟩
  intro before other rest is
  rcases before with _ | ⟨first, _ | ⟨second, _ | ⟨third, more⟩⟩⟩
  · rfl
  · simp at is
  · simp at is
  · simp at is

end Chunkwise.Session
