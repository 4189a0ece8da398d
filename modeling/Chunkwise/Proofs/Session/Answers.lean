import Chunkwise.Proofs.Session.Installs

/-!
# What a session answers

A request for a size answers that it installed chunks, or that it did not. A pass that fails is recorded and refuses
nothing. Two faults escape all the same. Chunks are installed before their size is written down, and a size beyond the
range of written sizes is then refused. And the size of a failure is put into words before the failure is recorded, as
is a size that is asked for while a pass is running: one that cannot be written is refused, and nothing is recorded.
-/

namespace Chunkwise

/-- A request for an integer as the size, within the session's bounds, or for a pass at any size whatsoever. -/
def Request.asksForPass : Request → Bool
  | .resize (.int _) | .rechunk _ => true
  | _ => false

theorem Request.asksForSize_of_asksForPass {request : Request} (asks : request.asksForPass) : request.asksForSize := by
  cases request with
  | resize | rechunk => rfl
  | process | setStrategy | switchTo | next | previous | navigate | setBusy | setEngine => cases asks

namespace Session

variable {s : Session} {request : Request} {b : Begun} {o : Outcome}

/-! ## Requests with and without a pass -/

/-- A request puts a size into words: that of its pass, which fails, or the one asked for while a pass is running. -/
def Words (s : Session) (request : Request) (size : Argument) : Prop :=
  (∃ b cause, passOf s request = some b ∧ b.result = .error cause ∧ b.size = size) ∨ s.busy ∧ request = .resize size

/-- No size is put into words by a request that installs chunks. -/
theorem not_words_of_installs (installs : s.Installs request) (size : Argument) : ¬ s.Words request size := by
  obtain ⟨b, o, runs, made⟩ := installs
  rintro (⟨c, cause, same, failed, -⟩ | ⟨running, rfl⟩)
  · rw [runs, Option.some.injEq] at same
    rw [← same, made] at failed
    cases failed
  · have idle := (session_of_passOf rfl runs).2
    rw [idle] at running
    cases running

/-- What a request answers that installed no chunks: no if every size can be written that it puts into words, and
    otherwise that one of them has too many digits. -/
def Declines (s : Session) (request : Request) (answer : Except Fault Reply) : Prop :=
  answer = .ok (.accepted false) ∧ (∀ size, s.Words request size → size.isWritable) ∨
    answer = .error .numberLength ∧ ∃ size, s.Words request size ∧ size.isWritable = false

/-- Without a pass nothing changes. -/
theorem handle_of_passless (asks : request.asksForPass) (passless : passOf s request = none) :
    (s.handle request).1 = s ∧ s.Declines request (s.handle request).2 := by
  cases request with
  | resize size =>
    cases running : s.busy with
    | true =>
      simp only [handle, resize, resizeBy_busy running, Effect.map, true_and]
      have words : ∀ other, s.Words (.resize size) other ↔ other = size := by
        simp [Words, passless, running, eq_comm]
      cases writable : size.isWritable with
      | true => exact Or.inl ⟨by simp [Callback.answer, writable, Except.map], by simp [words, writable]⟩
      | false => exact Or.inr ⟨by simp [Callback.answer, writable, Except.map], by simp [words, writable]⟩
    | false =>
      have words : ∀ other, ¬ s.Words (.resize size) other := by simp [Words, passless, running]
      cases size with
      | int n =>
        simp only [handle, resize, resizeBy, Effect.map]
        cases wanted : s.wantedSize (.int n) with
        | error refused =>
          rw [wantedSize_int n running] at wanted
          cases wanted
        | ok size =>
          cases size with
          | none => exact ⟨rfl, Or.inl ⟨rfl, fun other said => absurd said (words other)⟩⟩
          | some m => simp [passOf, wanted] at passless
      | null | bool | real | text | list | record => cases asks
  | rechunk size =>
    simp only [passOf, ite_eq_left_iff, reduceCtorEq, imp_false, not_not] at passless
    simp only [handle, Effect.map, rechunk_busy passless, true_and]
    exact Or.inl ⟨rfl, by simp [Words, passOf, passless]⟩
  | process | setStrategy | switchTo | next | previous | navigate | setBusy | setEngine => cases asks

/-! ## Answers -/

/-- The session after a request that installed an outcome. -/
structure Installed (o : Outcome) (t : Session) : Prop where
  outcome : t.outcome = some o
  chunks : t.chunks = o.chunks
  size : t.size = o.target.value
  failure : t.failure = none

/-- A pass that succeeds installs its outcome, and is accepted if its size has a written form. -/
theorem handle_of_installs (asks : request.asksForPass) (installs : s.Installs request) :
    ∃ o, Installed o (s.handle request).1 ∧
      ((s.handle request).1.size < Size.limit ∧ (s.handle request).2 = .ok (.accepted true) ∨
        Size.limit ≤ (s.handle request).1.size ∧ (s.handle request).2 = .error .quotientRange) := by
  obtain ⟨b, o, runs, made⟩ := installs
  rw [handle_of_asksForSize (Request.asksForSize_of_asksForPass asks) runs, made]
  have installed : Installed o ((s.finishPass b.size (.ok o)).map Reply.accepted).1 := ⟨rfl, rfl, rfl, rfl⟩
  refine ⟨o, installed, ?_⟩
  rw [installed.size]
  simp only [finishPass, Effect.map]
  rcases Size.write_cases o.target.value with ⟨below, t, written⟩ | ⟨reached, refused⟩
  · exact Or.inl ⟨Int.ofNat_lt.mpr below, by rw [written]; rfl⟩
  · exact Or.inr ⟨Int.ofNat_le.mpr reached, by rw [refused]; rfl⟩

/-- The session after a request for a pass that was ignored, or whose pass has failed: the failure is recorded if its
    size can be written. -/
def Missed (s : Session) (request : Request) (t : Session) : Prop :=
  passOf s request = none ∧ t = s ∨
    ∃ b cause, passOf s request = some b ∧ b.result = .error cause ∧
      t.failure = (if b.size.isWritable then some ⟨b.size, cause⟩ else s.failure) ∧ t.outcome = s.outcome

theorem handle_of_not_installs (asks : request.asksForPass) (misses : ¬ s.Installs request) :
    Missed s request (s.handle request).1 ∧ s.Declines request (s.handle request).2 := by
  cases runs : passOf s request with
  | none =>
    obtain ⟨same, declines⟩ := handle_of_passless asks runs
    exact ⟨Or.inl ⟨runs, same⟩, declines⟩
  | some b =>
    cases made : b.result with
    | ok o => exact absurd ⟨b, o, runs, made⟩ misses
    | error cause =>
      have sized := Request.asksForSize_of_asksForPass asks
      obtain ⟨-, idle⟩ := session_of_passOf sized runs
      have words : ∀ size, s.Words request size ↔ b.size = size := by simp [Words, runs, made, idle]
      rw [handle_of_asksForSize sized runs, made]
      cases writable : b.size.isWritable with
      | true =>
        rw [finishPass_of_writable writable]
        exact ⟨Or.inr ⟨b, cause, runs, made, (if_pos writable).symm, rfl⟩, Or.inl ⟨rfl, by simp [words, writable]⟩⟩
      | false =>
        rw [finishPass_of_not_writable writable]
        exact ⟨Or.inr ⟨b, cause, runs, made, (if_neg (by simp [writable])).symm, rfl⟩,
          Or.inr ⟨rfl, by simp [words, writable]⟩⟩

/-- The size that a session takes from a request that installs chunks. -/
theorem size_of_installs (installs : s.Installs request) :
    (∀ n, request = .resize (.int n) → (s.handle request).1.size = s.clamp n) ∧
    ∀ v, request = .rechunk v → v = .int (s.handle request).1.size := by
  obtain ⟨b, o, runs, made⟩ := installs
  have taken := size_of_result_ok made
  have size : (s.handle request).1.size = o.target.value := by
    rw [handle_of_passOf runs, Begun.ended, made]
    rfl
  rw [size]
  constructor
  · rintro n rfl
    rw [size_of_passOf_resize runs] at taken
    exact (Argument.int.inj taken).symm
  · rintro v rfl
    rw [← size_of_passOf_rechunk runs, taken]

/-- A request for an integer that can be written, made of a session with a content, puts no other size into words. -/
theorem isWritable_of_words_resize {n : ℤ} {size : Argument} (nonempty : s.content ≠ [])
    (short : s.content.length < Size.limit) (writable : Text.isWritable n) (words : s.Words (.resize (.int n)) size) :
    size.isWritable := by
  rcases words with ⟨b, cause, runs, -, rfl⟩ | ⟨-, is⟩
  · rw [size_of_passOf_resize runs]
    exact isWritable_clamp nonempty short n
  · cases is
    exact writable

theorem isWritable_of_words_rechunk {v size : Argument} (writable : v.isWritable)
    (words : s.Words (.rechunk v) size) : size.isWritable := by
  rcases words with ⟨b, cause, runs, -, rfl⟩ | ⟨-, is⟩
  · rwa [size_of_passOf_rechunk runs]
  · cases is

theorem accepted_iff (asks : request.asksForPass) : (s.handle request).2 = .ok (.accepted true) ↔
    s.Installs request ∧ (s.handle request).1.size < Size.limit := by
  by_cases installs : s.Installs request
  · obtain ⟨o, -, ⟨small, is⟩ | ⟨reached, is⟩⟩ := handle_of_installs asks installs
    · simp [is, installs, small]
    · simp [is, reached]
  · obtain ⟨-, ⟨is, -⟩ | ⟨is, -⟩⟩ := handle_of_not_installs asks installs <;> simp [is, installs]

theorem declined_iff (asks : request.asksForPass) : (s.handle request).2 = .ok (.accepted false) ↔
    ¬ s.Installs request ∧ ∀ size, s.Words request size → size.isWritable := by
  by_cases installs : s.Installs request
  · obtain ⟨o, -, ⟨-, is⟩ | ⟨-, is⟩⟩ := handle_of_installs asks installs <;> simp [is, installs]
  · obtain ⟨-, ⟨is, writable⟩ | ⟨is, size, words, unwritable⟩⟩ := handle_of_not_installs asks installs
    · exact iff_of_true is ⟨installs, writable⟩
    · refine iff_of_false (by simp [is]) fun ⟨_, writable⟩ => ?_
      rw [writable size words] at unwritable
      cases unwritable

theorem refused_iff (asks : request.asksForPass) (fault : Fault) : (s.handle request).2 = .error fault ↔
    fault = .quotientRange ∧ s.Installs request ∧ Size.limit ≤ (s.handle request).1.size ∨
      fault = .numberLength ∧ ∃ size, s.Words request size ∧ size.isWritable = false := by
  by_cases installs : s.Installs request
  · have silent := not_words_of_installs installs
    obtain ⟨o, -, ⟨small, is⟩ | ⟨reached, is⟩⟩ := handle_of_installs asks installs
    · simp [is, small, silent]
    · simp [is, installs, reached, silent, @eq_comm _ fault]
  · obtain ⟨-, ⟨is, writable⟩ | ⟨is, unwritable⟩⟩ := handle_of_not_installs asks installs
    · have all : ¬ ∃ size, s.Words request size ∧ size.isWritable = false := by
        rintro ⟨size, words, unwritable⟩
        rw [writable size words] at unwritable
        cases unwritable
      simp [is, installs, all]
    · simp [is, installs, unwritable, @eq_comm _ fault]

/-- A request says yes or no when chunks are installed at a size with a written form only, and no size is put into words
    that cannot be written. -/
theorem exists_accepted (asks : request.asksForPass)
    (small : s.Installs request → (s.handle request).1.size < Size.limit)
    (writable : ∀ size, s.Words request size → size.isWritable) :
    ∃ yes, (s.handle request).2 = .ok (.accepted yes) := by
  by_cases installs : s.Installs request
  · exact ⟨true, (accepted_iff asks).mpr ⟨installs, small installs⟩⟩
  · exact ⟨false, (declined_iff asks).mpr ⟨installs, writable⟩⟩

/-- What any session, after any history, answers to a request for any integer as its size and to a request for a pass at
    any size whatsoever. It answers yes when it has installed chunks at a size that has a written form, and no when it
    has installed none and could write every size that it had to put into words; a pass that failed is then on record.
    Two faults escape: that of a size beyond the range of written sizes, for which chunks have been installed, and that
    of an integer with too many digits, which has to be mentioned while a pass is running or when a pass at it fails.
    Neither comes from an integer that can be written and the bounds of a content that is not empty, nor from a pass at
    a value that can be written and is no integer beyond that range. -/
theorem answers_exact (s : Session) {request : Request} (asks : request.asksForPass) :
    ((s.handle request).2 = .ok (.accepted true) ↔
      s.Installs request ∧ (s.handle request).1.size < Size.limit) ∧
    ((s.handle request).2 = .ok (.accepted false) ↔
      ¬ s.Installs request ∧ ∀ size, s.Words request size → size.isWritable) ∧
    (∀ fault, (s.handle request).2 = .error fault ↔
      fault = .quotientRange ∧ s.Installs request ∧ Size.limit ≤ (s.handle request).1.size ∨
        fault = .numberLength ∧ ∃ size, s.Words request size ∧ size.isWritable = false) ∧
    (s.Installs request → ∃ o, Installed o (s.handle request).1) ∧
    (¬ s.Installs request → Missed s request (s.handle request).1) ∧
    (∀ n, request = .resize (.int n) → Text.isWritable n → s.content ≠ [] → s.content.length < Size.limit →
      ∃ yes, (s.handle request).2 = .ok (.accepted yes)) ∧
    ∀ v, request = .rechunk v → v.isWritable → (∀ n, v = .int n → n < Size.limit) →
      ∃ yes, (s.handle request).2 = .ok (.accepted yes) := by
  refine ⟨accepted_iff asks, declined_iff asks, refused_iff asks, ?installed, ?missed, ?bounded, ?written⟩
  case installed =>
    intro installs
    obtain ⟨o, installed, -⟩ := handle_of_installs asks installs
    exact ⟨o, installed⟩
  case missed => exact fun misses => (handle_of_not_installs asks misses).1
  case bounded =>
    rintro n rfl writable nonempty short
    have bounded : s.clamp n ≤ s.content.length := by simp [clamp, nonempty]
    refine exists_accepted asks (fun installs => ?_) fun size => isWritable_of_words_resize nonempty short writable
    rw [(size_of_installs installs).1 n rfl]
    omega
  case written =>
    rintro v rfl writable small
    exact exists_accepted asks (fun installs => small _ ((size_of_installs installs).2 v rfl))
      fun size => isWritable_of_words_rechunk writable

/-- A pass at no size at all fails, and the failure is put on record. -/
theorem answers_exact_null :
    ∃ s, start .working 1 (some 1) .null { text := [] } = .ok s ∧
      (s.handle (.rechunk .null)).2 = .ok (.accepted false) ∧
      (s.handle (.rechunk .null)).1.failure.isSome := by
  have opened : start .working 1 (some 1) .null { text := [] } = .ok (empty .working 1 (some 1) .semantic) := rfl
  have asks : (Request.rechunk .null).asksForPass := rfl
  obtain ⟨-, no, -, -, missed, -, -⟩ := answers_exact (empty .working 1 (some 1) .semantic) asks
  have misses : ¬ (empty .working 1 (some 1) .semantic).Installs (.rechunk .null) := by decide +kernel
  have words : ∀ size, (empty .working 1 (some 1) .semantic).Words (.rechunk .null) size → size.isWritable := by
    rintro size (⟨b, cause, runs, -, rfl⟩ | ⟨running, -⟩)
    · cases runs
      rfl
    · cases running
  refine ⟨_, opened, no.mpr ⟨misses, words⟩, ?_⟩
  rcases missed misses with ⟨none, -⟩ | ⟨b, cause, runs, -, recorded, -⟩
  · cases none
  · cases runs
    rw [recorded]
    rfl

/-- A session without content takes any size. One that cannot be written down is refused when it has been installed. -/
theorem resize_refused_when_installed :
    ∃ s, start .working 1 (some 1) .null { text := [] } = .ok s ∧ s.outcome = none ∧
      (s.handle (.resize (.int (twoPow 1044)))).2 = .error .quotientRange ∧
      (s.handle (.resize (.int (twoPow 1044)))).1.outcome.isSome ∧
      (s.handle (.resize (.int (twoPow 1044)))).1.failure = none := by
  have opened : start .working 1 (some 1) .null { text := [] } = .ok (empty .working 1 (some 1) .semantic) := rfl
  have installs : (empty .working 1 (some 1) .semantic).Installs (.resize (.int (twoPow 1044))) := by decide +kernel
  obtain ⟨o, installed, answer⟩ := handle_of_installs rfl installs
  have beyond : Size.limit ≤ ((empty .working 1 (some 1) .semantic).handle (.resize (.int (twoPow 1044)))).1.size := by
    rw [(size_of_installs installs).1 _ rfl]
    decide +kernel
  have refused := (answer.resolve_left fun accepted => absurd accepted.1 (not_lt.mpr beyond)).2
  exact ⟨_, opened, rfl, refused, by rw [installed.outcome]; rfl, installed.failure⟩

end Session

end Chunkwise
