import Chunkwise.Proofs.Session.Installs

/-!
# Failed passes are rolled back

A request for a size whose pass fails records the failure and leaves everything else as it is, but that a content
without chunks becomes one chunk. The size of the failure has to be put into words for that: at a size that cannot be
written, the request is refused and the session stays as it was. A session that such requests were made of differs from
one that they were not made of in nothing but the record and that one chunk, and once a pass succeeds the two are the
same.
-/

namespace Chunkwise.Session

variable {s t : Session} {request : Request} {b : Begun} {cause : Fault}

/-! ## One failed pass -/

/-- A session after a pass at a size has failed: the failure is on record, and a content without chunks is one chunk. -/
def rolledBack (size : Argument) (cause : Fault) (s : Session) : Session :=
  { s with
    failure := some ⟨size, cause⟩
    chunks := if s.chunks = [] then wholeContent s.content else s.chunks }

theorem clampIndex_of_placed (placed : (s.chunks = [] ∧ s.index = 0) ∨ s.index < s.chunks.length) :
    s.clampIndex = s := by
  have stays : min s.index (s.chunks.length - 1) = s.index := by omega
  simp only [clampIndex, stays]

/-- A pass that fails when none was running changes the record of failures, and the chunks when there are none; at a
    size that cannot be written it changes nothing. -/
theorem finishPass_error (placed : (s.chunks = [] ∧ s.index = 0) ∨ s.index < s.chunks.length) (idle : s.busy = false)
    (size : Argument) (cause : Fault) :
    s.finishPass size (.error cause) =
      if size.isWritable then (s.rolledBack size cause, .ok false) else (s, .error .numberLength) := by
  have still : { s with busy := false } = s := by rw [← idle]
  cases writable : size.isWritable with
  | true =>
    have placedStill : ((s.rolledBack size cause).chunks = [] ∧ (s.rolledBack size cause).index = 0) ∨
        (s.rolledBack size cause).index < (s.rolledBack size cause).chunks.length := by
      simp only [rolledBack]
      split
      · rename_i none
        have first : s.index = 0 := by
          rcases placed with ⟨-, first⟩ | valid
          · exact first
          · simp [none] at valid
        rw [first]
        exact (Nat.eq_zero_or_pos _).imp (fun blank => ⟨List.length_eq_zero_iff.mp blank, rfl⟩) id
      · exact placed
    rw [finishPass_of_writable writable, still, if_pos rfl, ← clampIndex_of_placed placedStill]
    simp only [recordFailure, rolledBack, List.isEmpty_iff]
  | false => rw [finishPass_of_not_writable writable, still, clampIndex_of_placed placed, if_neg Bool.false_ne_true]

/-- A request for a size runs a pass that fails. -/
def FailsAt (s : Session) (request : Request) : Prop :=
  request.asksForSize ∧ ∃ b cause, passOf s request = some b ∧ b.result = .error cause

theorem failsAt_iff :
    s.FailsAt request ↔ request.asksForSize ∧ (passOf s request).any (·.result.toOption.isNone) := by
  unfold FailsAt
  cases passOf s request with
  | none => simp
  | some b => cases failed : b.result <;> simp [failed, Except.toOption]

instance : Decidable (s.FailsAt request) := decidable_of_iff _ failsAt_iff.symm

theorem handle_of_failsAt (sound : s.Sound) (fails : s.FailsAt request) :
    (∃ size cause, (s.handle request).1 = s.rolledBack size cause) ∨ (s.handle request).1 = s := by
  obtain ⟨asks, b, cause, runs, failed⟩ := fails
  obtain ⟨is, idle⟩ := session_of_passOf asks runs
  rw [handle_of_passOf runs, Begun.ended, failed, is, finishPass_error sound.placed idle]
  split
  · exact Or.inl ⟨b.size, cause, rfl⟩
  · exact Or.inr rfl

/-- A content that is not empty becomes one chunk as a whole. -/
theorem wholeContent_eq_single {content : Text} (nonempty : content ≠ []) : ∃ c, wholeContent content = [c] ∧
    c.index = 0 ∧ c.start = 0 ∧ c.stop = content.length ∧ c.content = content := by
  unfold wholeContent
  rw [if_neg (by simpa using nonempty)]
  exact ⟨_, rfl, rfl, rfl, rfl, rfl⟩

theorem length_wholeContent_le (content : Text) : (wholeContent content).length ≤ 1 := by
  by_cases blank : content = []
  · simp [wholeContent, blank]
  · obtain ⟨c, is, -⟩ := wholeContent_eq_single blank
    simp [is]

/-! ## Sessions that differ by failed passes -/

/-- A session differs from another one at most in its record of failures, and by having the whole content as a chunk
    where the other one has no chunks. -/
def Alike (s t : Session) : Prop :=
  ∃ failure chunks, s = { t with failure, chunks } ∧
    (chunks = t.chunks ∨ t.chunks = [] ∧ chunks = wholeContent t.content)

theorem alike_refl (s : Session) : Alike s s := ⟨s.failure, s.chunks, rfl, Or.inl rfl⟩

theorem Alike.rolledBack_left (alike : Alike s t) (size : Argument) (cause : Fault) :
    Alike (s.rolledBack size cause) t := by
  obtain ⟨failure, chunks, rfl, kept⟩ := alike
  refine ⟨_, _, rfl, ?_⟩
  dsimp only
  split
  · rename_i none
    rcases kept with same | ⟨blank, -⟩
    · exact Or.inr ⟨same ▸ none, rfl⟩
    · exact Or.inr ⟨blank, rfl⟩
  · exact kept

theorem alike_of_failsAt (sound : s.Sound) (alike : Alike s t) (fails : s.FailsAt request) :
    Alike (s.handle request).1 t := by
  rcases handle_of_failsAt sound fails with ⟨size, cause, is⟩ | same
  · rw [is]
    exact alike.rolledBack_left size cause
  · rwa [same]

theorem Alike.clampIndex (alike : Alike s t) : Alike s.clampIndex t.clampIndex := by
  obtain ⟨failure, chunks, rfl, rfl | ⟨blank, rfl⟩⟩ := alike
  · exact ⟨failure, t.chunks, rfl, Or.inl rfl⟩
  · -- The last place is the first one, in one chunk as in none.
    have last : (wholeContent t.content).length - 1 = t.chunks.length - 1 := by
      have := length_wholeContent_le t.content
      rw [blank, List.length_nil]
      omega
    refine ⟨failure, wholeContent t.content, ?_, Or.inr ⟨blank, rfl⟩⟩
    simp only [Session.clampIndex, last]

theorem Alike.outcomeAt_eq (alike : Alike s t) (size : Argument) : s.outcomeAt size = t.outcomeAt size := by
  obtain ⟨failure, chunks, rfl, -⟩ := alike
  rfl

theorem Alike.wantedSize_eq (alike : Alike s t) (size : Argument) : s.wantedSize size = t.wantedSize size := by
  obtain ⟨failure, chunks, rfl, -⟩ := alike
  rfl

theorem Alike.runPass_eq (alike : Alike s t) (size : Argument) : (s.runPass size).2 = (t.runPass size).2 := by
  have outcome := alike.outcomeAt_eq size
  obtain ⟨failure, chunks, is, -⟩ := alike
  rw [Session.runPass_eq, Session.runPass_eq, outcome, is]

/-- A pass that ends leaves alike sessions the same, unless it fails at a size that cannot be written. -/
theorem Alike.finishPass_cases (alike : Alike s t) (size : Argument) (result : Except Fault Outcome) :
    s.finishPass size result = t.finishPass size result ∨
      (∃ cause, result = .error cause) ∧ Alike (s.finishPass size result).1 (t.finishPass size result).1 := by
  cases result with
  | ok o =>
    obtain ⟨failure, chunks, rfl, -⟩ := alike
    exact Or.inl rfl
  | error cause =>
    cases writable : size.isWritable with
    | true =>
      left
      rw [finishPass_of_writable writable, finishPass_of_writable writable]
      obtain ⟨failure, chunks, rfl, rfl | ⟨blank, rfl⟩⟩ := alike
      · rfl
      · simp only [recordFailure, blank, List.isEmpty_nil, ↓reduceIte, ite_self]
    | false =>
      right
      rw [finishPass_of_not_writable writable, finishPass_of_not_writable writable]
      obtain ⟨failure, chunks, rfl, kept⟩ := alike
      have still : Alike { t with failure, chunks, busy := false } { t with busy := false } :=
        ⟨failure, chunks, rfl, kept⟩
      exact ⟨⟨cause, rfl⟩, still.clampIndex⟩

/-! ## Moves among the chunks -/

theorem fst_switchTo (i : ℤ) (s : Session) : (s.switchTo i).1 = (s.navigate i).1 := by
  unfold switchTo navigate
  split <;> rfl

/-- Among no more than one chunk there is nowhere to move to. -/
theorem stays_of_length_le_one (first : s.index = 0) (few : s.chunks.length ≤ 1) :
    s.next.1 = s ∧ s.previous.1 = s ∧ ∀ i, (s.navigate i).1 = s := by
  refine ⟨?_, ?_, ?_⟩
  · rw [next, if_neg (by omega)]
  · rw [previous, if_neg (by omega)]
  · intro i
    unfold navigate
    split
    · rename_i valid
      simp only [hasChunk, Bool.and_eq_true, decide_eq_true_eq] at valid
      have same : i.toNat = s.index := by omega
      rw [same]
    · rfl

/-- Moves do not look at the record of failures. -/
theorem alike_moves_of_failure (failure : Option Failure) (t : Session) :
    Alike { t with failure }.next.1 t.next.1 ∧ Alike { t with failure }.previous.1 t.previous.1 ∧
      ∀ i, Alike ({ t with failure }.navigate i).1 (t.navigate i).1 := by
  have moved : ∀ i : ℕ, Alike { t with failure, index := i } { t with index := i } :=
    fun i => ⟨failure, t.chunks, rfl, Or.inl rfl⟩
  refine ⟨?_, ?_, ?_⟩
  · unfold next
    by_cases further : t.index + 1 < t.chunks.length
    · rw [if_pos further, if_pos further]
      exact moved (t.index + 1)
    · rw [if_neg further, if_neg further]
      exact moved t.index
  · unfold previous
    by_cases later : 0 < t.index
    · rw [if_pos later, if_pos later]
      exact moved (t.index - 1)
    · rw [if_neg later, if_neg later]
      exact moved t.index
  · intro i
    have same : { t with failure }.hasChunk i = t.hasChunk i := rfl
    unfold navigate
    rw [same]
    by_cases valid : t.hasChunk i
    · rw [if_pos valid, if_pos valid]
      exact moved i.toNat
    · rw [if_neg valid, if_neg valid]
      exact moved t.index

/-- Moves among the chunks of alike sessions leave them alike. -/
theorem Alike.moves (placed : (t.chunks = [] ∧ t.index = 0) ∨ t.index < t.chunks.length) (alike : Alike s t) :
    Alike s.next.1 t.next.1 ∧ Alike s.previous.1 t.previous.1 ∧ ∀ i, Alike (s.navigate i).1 (t.navigate i).1 := by
  obtain ⟨failure, chunks, is, rfl | ⟨blank, rfl⟩⟩ := id alike
  · rw [is]
    exact alike_moves_of_failure failure t
  · -- One chunk leaves as little room to move as none does.
    have first : t.index = 0 := by
      rcases placed with ⟨-, first⟩ | valid
      · exact first
      · rw [blank] at valid
        exact absurd valid (Nat.not_lt_zero _)
    have leftFirst : s.index = 0 := by rw [is, first]
    have leftFew : s.chunks.length ≤ 1 := by
      rw [is]
      exact length_wholeContent_le t.content
    obtain ⟨leftNext, leftPrevious, leftNavigate⟩ := stays_of_length_le_one leftFirst leftFew
    obtain ⟨next, previous, navigate⟩ := stays_of_length_le_one first (by simp [blank])
    refine ⟨?_, ?_, ?_⟩
    · rwa [leftNext, next]
    · rwa [leftPrevious, previous]
    · intro i
      rwa [leftNavigate, navigate]

/-! ## Requests to sessions that differ by failed passes -/

theorem Alike.rechunk_cases (alike : Alike s t) (size : Argument) :
    s.rechunk size = t.rechunk size ∨
      ¬ s.Installs (.rechunk size) ∧ Alike (s.rechunk size).1 (t.rechunk size).1 := by
  have busy : s.busy = t.busy := by
    obtain ⟨failure, chunks, rfl, -⟩ := alike
    rfl
  cases running : t.busy with
  | true =>
    have passless : passOf s (.rechunk size) = none := if_pos (busy.trans running)
    rw [rechunk_busy (busy.trans running), rechunk_busy running]
    exact Or.inr ⟨not_installs_of_passless passless, alike⟩
  | false =>
    rw [rechunk_idle (busy.trans running), rechunk_idle running, ← alike.runPass_eq size]
    rcases alike.finishPass_cases size (s.runPass size).2 with same | ⟨⟨cause, failed⟩, still⟩
    · exact Or.inl same
    · refine Or.inr ⟨not_installs_of_fails fun b runs => ⟨cause, ?_⟩, still⟩
      rw [passOf, busy, running, if_neg Bool.false_ne_true, Option.some.injEq] at runs
      rw [← runs]
      exact failed

theorem Alike.setStrategy_cases (alike : Alike s t) (argument : Argument) :
    s.setStrategy argument = t.setStrategy argument ∨
      ¬ s.Installs (.setStrategy argument) ∧ Alike (s.setStrategy argument).1 (t.setStrategy argument).1 := by
  obtain ⟨failure, chunks, is, kept⟩ := id alike
  have strategy : s.strategy = t.strategy := by rw [is]
  have content : s.content = t.content := by rw [is]
  have size : Argument.int t.size = .int s.size := by rw [is]
  unfold setStrategy
  cases valid : Strategy.ofArgument argument with
  | error fault =>
    have passless : passOf s (.setStrategy argument) = none := by simp only [passOf, valid]
    exact Or.inr ⟨not_installs_of_passless passless, alike⟩
  | ok named =>
    have changed : Alike { s with strategy := named } { t with strategy := named } :=
      ⟨failure, chunks, by rw [is], kept⟩
    dsimp only
    by_cases same : named = s.strategy
    · have passless : passOf s (.setStrategy argument) = none := by simp only [passOf, valid, if_pos (Or.inl same)]
      rw [if_pos same, if_pos (same.trans strategy)]
      exact Or.inr ⟨not_installs_of_passless passless, alike⟩
    · have other : named ≠ t.strategy := fun equal => same (equal.trans strategy.symm)
      rw [if_neg same, if_neg other]
      -- The strategy is stored in both; what follows is the same pass, or no pass in either.
      by_cases blank : s.content.isEmpty
      · have passless : passOf s (.setStrategy argument) = none := by
          simp only [passOf, valid, if_pos (Or.inr (Or.inl blank))]
        rw [if_pos blank, if_pos (content ▸ blank)]
        exact Or.inr ⟨not_installs_of_passless passless, changed⟩
      · have runs : passOf s (.setStrategy argument) =
            passOf { s with strategy := named } (.rechunk (.int s.size)) := by
          simp only [passOf, valid, same, blank, Bool.false_eq_true, false_or]
        rw [if_neg blank, if_neg (by rwa [← content]), size, Installs, runs]
        exact changed.rechunk_cases (.int s.size)

theorem Alike.resize_cases (alike : Alike s t) (size : Argument) :
    s.resize size = t.resize size ∨
      ¬ s.Installs (.resize size) ∧ Alike (s.resize size).1 (t.resize size).1 := by
  have wanted := alike.wantedSize_eq size
  cases asked : t.wantedSize size with
  | error fault =>
    have passless : passOf s (.resize size) = none := by simp only [passOf, wanted, asked]
    simp only [resize, resizeBy, wanted, asked]
    exact Or.inr ⟨not_installs_of_passless passless, alike⟩
  | ok n =>
    cases n with
    | none =>
      have passless : passOf s (.resize size) = none := by simp only [passOf, wanted, asked]
      simp only [resize, resizeBy, wanted, asked]
      exact Or.inr ⟨not_installs_of_passless passless, alike⟩
    | some n =>
      rw [resize_eq (wanted.trans asked), resize_eq asked, ← alike.runPass_eq]
      rcases alike.finishPass_cases (.int n) (s.runPass (.int n)).2 with same | ⟨⟨cause, failed⟩, still⟩
      · exact Or.inl same
      · refine Or.inr ⟨not_installs_of_fails fun b runs => ⟨cause, ?_⟩, still⟩
        simp only [passOf, wanted, asked, Option.some.injEq] at runs
        rw [← runs]
        exact failed

/-- A request that installs chunks does the same to alike sessions, and any other one leaves them alike at least. -/
theorem Alike.handle_cases (placed : (t.chunks = [] ∧ t.index = 0) ∨ t.index < t.chunks.length) (alike : Alike s t)
    (request : Request) : s.handle request = t.handle request ∨
      ¬ s.Installs request ∧ Alike (s.handle request).1 (t.handle request).1 := by
  obtain ⟨forward, back, led⟩ := alike.moves placed
  obtain ⟨failure, chunks, is, kept⟩ := id alike
  cases request with
  | process content =>
    left
    rw [is]
    rfl
  | resize size =>
    rcases alike.resize_cases size with same | missed
    · exact Or.inl (by rw [handle, same, handle])
    · exact Or.inr missed
  | rechunk size =>
    rcases alike.rechunk_cases size with same | missed
    · exact Or.inl (by rw [handle, same, handle])
    · exact Or.inr missed
  | setStrategy argument =>
    rcases alike.setStrategy_cases argument with same | missed
    · exact Or.inl (by rw [handle, same, handle])
    · exact Or.inr missed
  | switchTo index =>
    refine Or.inr ⟨not_installs_of_passless rfl, ?_⟩
    simp only [handle, Effect.map, fst_switchTo]
    exact led index
  | next => exact Or.inr ⟨not_installs_of_passless rfl, forward⟩
  | previous => exact Or.inr ⟨not_installs_of_passless rfl, back⟩
  | navigate index => exact Or.inr ⟨not_installs_of_passless rfl, led index⟩
  | setBusy busy => exact Or.inr ⟨not_installs_of_passless rfl, failure, chunks, by rw [is]; rfl, kept⟩
  | setEngine engine => exact Or.inr ⟨not_installs_of_passless rfl, failure, chunks, by rw [is]; rfl, kept⟩

/-! ## Histories without failed passes -/

/-- What is left of a history of a session when some of the requests for a size that fail in it are left out. -/
inductive Without : Session → List Request → List Request → Prop
  | nil (s : Session) : Without s [] []
  | keep {s : Session} {rest kept : List Request} (request : Request) (later : Without (s.handle request).1 rest kept) :
      Without s (request :: rest) (request :: kept)
  | drop {s : Session} {request : Request} {rest kept : List Request} (fails : s.FailsAt request)
      (later : Without (s.handle request).1 rest kept) : Without s (request :: rest) kept

theorem alike_after {history kept : List Request} (without : Without s history kept) (left : s.Sound) (right : t.Sound)
    (alike : Alike s t) : Alike (s.after history) (t.after kept) := by
  induction without generalizing t with
  | nil s => exact alike
  | keep request later ih =>
    refine ih (sound_handle left request) (sound_handle right request) ?_
    rcases alike.handle_cases right.placed request with same | ⟨-, still⟩
    · rw [same]
      exact alike_refl _
    · exact still
  | drop fails later ih => exact ih (sound_handle left _) right (alike_of_failsAt left alike fails)

/-- A failed pass at a size that can be written is rolled back. When an idle session is asked for a size and the pass
    fails, the answer is no, the failure is recorded with the size of the pass and the cause, and all else is as before,
    but that the content becomes one chunk as a whole when there were no chunks. A content that is not empty bounds what
    is asked for to sizes that can be written. Once a pass succeeds, no failure is on record, and the session and its
    answer are the same as if any of the requests for a size that failed had not been made. -/
theorem failed_passes_roll_back {engine : Engine} {size : ℤ} {minSize : Option ℤ} {strategy : Argument}
    {content : Content} (opened : start engine size minSize strategy content = .ok s) (history : List Request)
    (reached : s.after history = t) :
    (t.busy = false →
      (∀ n cause, ¬ (t.clamp n = t.size ∧ t.hasOutcome) → (t.runPass (.int (t.clamp n))).2 = .error cause →
        Text.isWritable (t.clamp n) →
          t.handle (.resize (.int n)) = (t.rolledBack (.int (t.clamp n)) cause, .ok (.accepted false))) ∧
      (t.content ≠ [] → ∀ n, Text.isWritable (t.clamp n)) ∧
      ∀ given cause, (t.runPass given).2 = .error cause → given.isWritable →
        t.handle (.rechunk given) = (t.rolledBack given cause, .ok (.accepted false))) ∧
    (wholeContent [] = [] ∧ (t.content ≠ [] → ∃ c, wholeContent t.content = [c] ∧ c.index = 0 ∧ c.start = 0 ∧
      c.stop = t.content.length ∧ c.content = t.content)) ∧
    ∀ kept, Without s history kept → ∀ request, t.Installs request →
      t.handle request = (s.after kept).handle request ∧ (t.handle request).1.failure = none := by
  have sound : s.Sound := sound_start opened
  have placed := (reached ▸ sound_after sound history : t.Sound).placed
  refine ⟨?_, ⟨rfl, wholeContent_eq_single⟩, ?_⟩
  · intro idle
    refine ⟨?_, ?_, ?_⟩
    · intro n cause changes failed writable
      have wanted : t.wantedSize (.int n) = .ok (some (t.clamp n)) := by
        rw [wantedSize_int n idle, if_neg changes]
      rw [handle, resize_eq wanted, failed, finishPass_error placed idle, Argument.isWritable, if_pos writable]
      rfl
    · intro nonempty n
      have held : t.content.length < Text.lengthLimit := reached ▸ held_after (held_start opened) history
      exact isWritable_clamp nonempty (held.trans_le Size.lengthLimit_le_limit) n
    · intro given cause failed writable
      rw [handle, rechunk_idle idle, failed, finishPass_error placed idle, if_pos writable]
      rfl
  · intro kept without request installs
    have alike := alike_after without sound sound (alike_refl s)
    rw [reached] at alike
    refine ⟨?_, failure_of_installs installs⟩
    rcases alike.handle_cases (sound_after sound kept).placed request with same | ⟨missed, -⟩
    · exact same
    · exact absurd installs missed

/-- Over a text, a pass at no size at all fails and is recorded; the next one goes on as if nobody had asked for it. -/
theorem failed_passes_roll_back_null :
    ∃ s t cause, start .working 1 (some 1) .null { text := [] } = .ok s ∧
      s.after [.process { text := ['a', 'b'] }] = t ∧ t.busy = false ∧
      t.handle (.rechunk .null) = (t.rolledBack .null cause, .ok (.accepted false)) ∧
      (t.rolledBack .null cause).handle (.resize (.int 2)) = t.handle (.resize (.int 2)) ∧
      ((t.rolledBack .null cause).handle (.resize (.int 2))).1.failure = none := by
  have opened : start .working 1 (some 1) .null { text := [] } = .ok (empty .working 1 (some 1) .semantic) := rfl
  let shown := (empty .working 1 (some 1) .semantic).after [.process { text := ['a', 'b'] }]
  have idle : shown.busy = false := by decide +kernel
  obtain ⟨cause, failed⟩ : ∃ cause, (shown.runPass .null).2 = .error cause :=
    runPass_of_no_size (fun n is => by cases is) shown
  obtain ⟨rolledBack, -, -⟩ := failed_passes_roll_back opened [.process { text := ['a', 'b'] }] rfl
  have refused := (rolledBack idle).2.2 .null cause failed rfl
  obtain ⟨-, -, erased⟩ := failed_passes_roll_back opened [.process { text := ['a', 'b'] }, .rechunk .null] rfl
  have next := erased _ (.keep _ (.drop (by decide +kernel) (.nil _))) (.resize (.int 2)) (by decide +kernel)
  rw [show (empty .working 1 (some 1) .semantic).after [.process { text := ['a', 'b'] }, .rechunk .null] =
    (shown.handle (.rechunk .null)).1 from rfl, refused] at next
  exact ⟨_, shown, cause, opened, rfl, idle, refused, next.1, next.2⟩

/-- What is put on record is the size of the pass, which need not be the size that was asked for. And nothing is put on
    record when the size has one digit too many to be put into words: the request is refused. -/
theorem failure_recorded_otherwise :
    (∃ s, start (.failing "boom".toList) 1 (some 1) .null { text := [] } = .ok s ∧ s.busy = false ∧
      s.handle (.resize (.int 0)) = (s.rolledBack (.int 1) (.stopped "boom".toList), .ok (.accepted false))) ∧
    ∃ s cause, start .working 1 (some 1) .null { text := [] } = .ok s ∧ s.busy = false ∧ s.failure = none ∧
      (s.runPass (.int (-10 ^ Text.digitLimit))).2 = .error cause ∧
      s.handle (.rechunk (.int (-10 ^ Text.digitLimit))) = (s, .error .numberLength) := by
  refine ⟨⟨_, rfl, rfl, rfl⟩, ?_⟩
  · have idle : (empty .working 1 (some 1) .semantic).busy = false := rfl
    have long : ¬ Text.isWritable (-10 ^ Text.digitLimit) := by
      rw [isWritable_iff, Int.natAbs_neg, Int.natAbs_pow, show Int.natAbs 10 = 10 from rfl]
      exact lt_irrefl _
    have negative : -10 ^ Text.digitLimit ≤ (0 : ℤ) := by simp
    obtain ⟨cause, failed⟩ := runPass_of_no_size (fun n is => Argument.int.inj is ▸ negative)
      (empty .working 1 (some 1) .semantic)
    refine ⟨_, cause, rfl, idle, rfl, failed, ?_⟩
    rw [handle, rechunk_idle idle, failed, finishPass_error (Or.inl ⟨rfl, rfl⟩) idle, Argument.isWritable, if_neg long]
    rfl

end Chunkwise.Session
