import Chunkwise.Proofs.Pass.Lossless
import Chunkwise.Session.Request

/-!
# What a request does

A request either runs a pass or runs none. `passOf` says which pass it runs: the session when the pass begins and the
size. The session after the request is then that pass ended. Requests that come in during a pass find it running and
change nothing. A request that runs no pass leaves the content and the chunks as they are, unless it starts over with a
content for which no pass can run.
-/

namespace Chunkwise

/-- What a request that comes in during a pass is answered. It is ignored, but a size that is asked for is mentioned. -/
def Callback.answer : Callback → Except Fault Bool
  | .isBusy => .ok true
  | .resize size => if size.isWritable then .ok false else .error .numberLength
  | .rechunk _ => .ok false

namespace Session

/-- A pass that begins. -/
structure Begun where
  session : Session
  size : Argument

/-- What the pass gives. -/
def Begun.result (b : Begun) : Except Fault Outcome := (b.session.runPass b.size).2

/-- The session when the pass has ended. -/
def Begun.ended (b : Begun) : Session := (b.session.finishPass b.size b.result).1

/-- The session that starts over with a content. -/
def cleared (content : Text) (s : Session) : Session :=
  { s with content, analysis := none, outcome := none, failure := none, chunks := [], index := 0 }

/-- The pass that a request runs, if it runs one. -/
def passOf (s : Session) : Request → Option Begun
  | .process content =>
    if content.text.isEmpty ∨ s.busy then none
    else
      let size := (cleared content.text s).clamp s.defaultSize
      some ⟨{ cleared content.text s with size }, .int size⟩
  | .resize size =>
    match s.wantedSize size with
    | .ok (some n) => some ⟨s, .int n⟩
    | _ => none
  | .rechunk size => if s.busy then none else some ⟨s, size⟩
  | .setStrategy strategy =>
    match Strategy.ofArgument strategy with
    | .ok strategy =>
      if strategy = s.strategy ∨ s.content.isEmpty ∨ s.busy then none
      else some ⟨{ s with strategy }, .int s.size⟩
    | .error _ => none
  | _ => none

variable {s t : Session} {request : Request} {b : Begun}

/-! ## Requests that come in during a pass -/

/-- While a pass is running, requests for a size change nothing, whatever would run their passes. -/
theorem rechunkBy_busy (running : s.busy) (pass : Argument → Session → Effect Bool) (size : Argument) :
    s.rechunkBy pass size = (s, .ok false) := if_pos running

theorem resizeBy_busy (running : s.busy) (pass : Argument → Session → Effect Bool) (size : Argument) :
    s.resizeBy pass size = (s, (Callback.resize size).answer) := by
  rw [resizeBy, wantedSize, if_pos running, Callback.answer]
  by_cases writable : size.isWritable
  · rw [if_pos writable, if_pos writable]
  · rw [if_neg writable, if_neg writable]

theorem answerCallback_busy (running : s.busy) (callback : Callback) :
    s.answerCallback callback = (s, callback.answer) := by
  cases callback with
  | isBusy => rw [answerCallback, running, Callback.answer]
  | resize size => exact resizeBy_busy running ..
  | rechunk size => exact rechunkBy_busy running ..

/-- Requests that come in during a pass leave the session as it is. -/
theorem answerCallbacks_busy (running : s.busy) (callbacks : List Callback) :
    s.answerCallbacks callbacks = (s, callbacks.mapM Callback.answer) := by
  induction callbacks with
  | nil => rfl
  | cons callback rest ih =>
    rw [answerCallbacks, answerCallback_busy running, List.mapM_cons]
    cases callback.answer with
    | error fault => rfl
    | ok answer =>
      dsimp only
      rw [ih, Effect.map]
      cases rest.mapM Callback.answer <;> rfl

theorem runPass_eq (size : Argument) (s : Session) : s.runPass size =
    ({ s with busy := true }, (s.engine.callbacks.mapM Callback.answer).bind fun _ => s.outcomeAt size) := by
  rw [runPass, answerCallbacks_busy (by rfl)]

/-- A pass in which every request that comes in can be answered gives the outcome at its size. -/
theorem outcomeAt_of_runPass {size : Argument} {o : Outcome} (made : (s.runPass size).2 = .ok o) :
    s.outcomeAt size = .ok o := by
  rw [runPass_eq] at made
  exact (Fault.bind_ok.mp made).choose_spec.2

/-! ## How a pass ends -/

theorem finishPass_of_writable {size : Argument} (writable : size.isWritable) (cause : Fault) (s : Session) :
    s.finishPass size (.error cause) =
      (({ s with busy := false }.recordFailure size cause).clampIndex, .ok false) := if_pos writable

/-- A failure at a size that cannot be written is not recorded. -/
theorem finishPass_of_not_writable {size : Argument} (unwritable : size.isWritable = false) (cause : Fault)
    (s : Session) :
    s.finishPass size (.error cause) = ({ s with busy := false }.clampIndex, .error .numberLength) :=
  if_neg (by simp [unwritable])

/-- A pass that fails keeps the outcome of an earlier one. -/
theorem outcome_finishPass_error (size : Argument) (cause : Fault) (s : Session) :
    (s.finishPass size (.error cause)).1.outcome = s.outcome := by
  cases writable : size.isWritable with
  | true =>
    rw [finishPass_of_writable writable]
    rfl
  | false =>
    rw [finishPass_of_not_writable writable]
    rfl

/-- However a pass ends, the content and the strategy stay, and none is running any more. -/
theorem finishPass_frame (size : Argument) (result : Except Fault Outcome) (s : Session) :
    (s.finishPass size result).1.content = s.content ∧ (s.finishPass size result).1.strategy = s.strategy ∧
      (s.finishPass size result).1.busy = false := by
  cases result with
  | ok o => exact ⟨rfl, rfl, rfl⟩
  | error cause =>
    cases writable : size.isWritable with
    | true =>
      rw [finishPass_of_writable writable]
      exact ⟨rfl, rfl, rfl⟩
    | false =>
      rw [finishPass_of_not_writable writable]
      exact ⟨rfl, rfl, rfl⟩

/-! ## Requests that run a pass -/

theorem wantedSize_idle {size : Argument} {n : ℤ} (wanted : s.wantedSize size = .ok (some n)) : s.busy = false := by
  by_contra running
  rw [wantedSize, if_pos (by simpa using running)] at wanted
  split at wanted <;> cases wanted

theorem rechunk_busy (running : s.busy) (size : Argument) : s.rechunk size = (s, .ok false) :=
  rechunkBy_busy running ..

/-- A pass that ends leaves no trace of having been running. -/
theorem rechunk_idle (idle : s.busy = false) (size : Argument) :
    s.rechunk size = s.finishPass size (s.runPass size).2 := by
  rw [rechunk, rechunkBy, if_neg (by simp [idle]), pass, runPass_eq]
  cases (s.engine.callbacks.mapM Callback.answer).bind fun _ => s.outcomeAt size <;> rfl

/-- Whether a request for another size runs a pass, the size that it wants decides. -/
theorem resize_eq {size : Argument} {n : ℤ} (wanted : s.wantedSize size = .ok (some n)) :
    s.resize size = s.finishPass (.int n) (s.runPass (.int n)).2 := by
  rw [← rechunk_idle (wantedSize_idle wanted), resize, resizeBy, wanted, rechunk]

theorem handle_of_passOf (begins : passOf s request = some b) : (s.handle request).1 = b.ended := by
  cases request with
  | process content =>
    simp only [passOf] at begins
    split at begins
    · cases begins
    · rename_i runs
      rw [not_or] at runs
      cases begins
      have idle : s.busy = false := by simpa using runs.2
      simp only [handle, process, Effect.map, if_neg runs.1]
      rw [rechunk_idle (by exact idle)]
      rfl
  | resize size =>
    simp only [passOf] at begins
    split at begins
    · rename_i n wanted
      cases begins
      simp only [handle, Effect.map, resize_eq wanted]
      rfl
    · cases begins
  | rechunk size =>
    simp only [passOf] at begins
    split at begins
    · cases begins
    · rename_i idle
      cases begins
      simp only [handle, Effect.map, rechunk_idle (Bool.not_eq_true _ ▸ idle)]
      rfl
  | setStrategy strategy =>
    simp only [passOf] at begins
    split at begins
    · rename_i named known
      split at begins
      · cases begins
      · rename_i runs
        rw [not_or, not_or] at runs
        cases begins
        have idle : s.busy = false := by simpa using runs.2.2
        simp only [handle, setStrategy, Effect.map, known, if_neg runs.1, if_neg runs.2.1]
        rw [rechunk_idle (by exact idle)]
        rfl
    · cases begins
  | switchTo | next | previous | navigate | setBusy | setEngine => cases begins

/-! ## Requests that run none -/

/-- A session holds the same chunks as another one, of the same content and by the same pass, and its place is not
    further on or is that of a chunk. -/
structure Keeps (s t : Session) : Prop where
  content : t.content = s.content
  chunks : t.chunks = s.chunks
  size : t.size = s.size
  analysis : t.analysis = s.analysis
  outcome : t.outcome = s.outcome
  index : t.index ≤ s.index ∨ t.index < t.chunks.length

/-- A session has started over with a content and holds nothing else. -/
structure Clears (content : Text) (t : Session) : Prop where
  content : t.content = content
  chunks : t.chunks = []
  analysis : t.analysis = none
  outcome : t.outcome = none
  index : t.index = 0

theorem keeps_refl (s : Session) : Keeps s s := ⟨rfl, rfl, rfl, rfl, rfl, Or.inl le_rfl⟩

theorem keeps_moveTo {index : ℤ} (valid : s.hasChunk index) : Keeps s { s with index := index.toNat } := by
  simp only [hasChunk, Bool.and_eq_true, decide_eq_true_eq] at valid
  exact ⟨rfl, rfl, rfl, rfl, rfl, Or.inr (by dsimp only; omega)⟩

theorem keeps_switchTo (index : ℤ) (s : Session) : Keeps s (s.switchTo index).1 := by
  unfold switchTo
  split
  · rename_i valid
    exact keeps_moveTo valid
  · exact keeps_refl s

theorem keeps_navigate (index : ℤ) (s : Session) : Keeps s (s.navigate index).1 := by
  unfold navigate
  split
  · rename_i valid
    exact keeps_moveTo valid
  · exact keeps_refl s

theorem keeps_next (s : Session) : Keeps s s.next.1 := by
  unfold next
  split
  · rename_i further
    exact ⟨rfl, rfl, rfl, rfl, rfl, Or.inr further⟩
  · exact keeps_refl s

theorem keeps_previous (s : Session) : Keeps s s.previous.1 := by
  unfold previous
  split
  · exact ⟨rfl, rfl, rfl, rfl, rfl, Or.inl (Nat.sub_le ..)⟩
  · exact keeps_refl s

theorem keeps_setStrategy {strategy : Argument} (passless : passOf s (.setStrategy strategy) = none) :
    Keeps s (s.setStrategy strategy).1 := by
  simp only [passOf] at passless
  unfold setStrategy
  split
  · exact keeps_refl s
  · rename_i named known
    rw [known] at passless
    simp only [ite_eq_left_iff, reduceCtorEq, imp_false, not_not] at passless
    split
    · exact keeps_refl s
    · rename_i other
      dsimp only
      split
      · exact ⟨rfl, rfl, rfl, rfl, rfl, Or.inl le_rfl⟩
      · rename_i some
        have running : s.busy := (passless.resolve_left other).resolve_left some
        rw [rechunk_busy (by exact running)]
        exact ⟨rfl, rfl, rfl, rfl, rfl, Or.inl le_rfl⟩

theorem clears_process {content : Content} (passless : passOf s (.process content) = none) :
    Clears content.text (s.process content.text).1 ∧ (content.text = [] ∨ s.busy) := by
  simp only [passOf, ite_eq_left_iff, reduceCtorEq, imp_false, not_not] at passless
  unfold process
  dsimp only
  by_cases blank : content.text.isEmpty
  · rw [if_pos blank]
    exact ⟨⟨rfl, rfl, rfl, rfl, rfl⟩, Or.inl (List.isEmpty_iff.mp blank)⟩
  · have running : s.busy := passless.resolve_left blank
    rw [if_neg blank, rechunk_busy (by exact running)]
    exact ⟨⟨rfl, rfl, rfl, rfl, rfl⟩, Or.inr running⟩

/-- A request that runs no pass keeps the chunks, or it starts over with a content for which no pass runs. -/
theorem handle_of_passOf_none (passless : passOf s request = none) :
    Keeps s (s.handle request).1 ∨
      ∃ content, request = .process content ∧ Clears content.text (s.handle request).1 ∧
        (content.text = [] ∨ s.busy) := by
  cases request with
  | process content => exact Or.inr ⟨content, rfl, clears_process passless⟩
  | resize size =>
    left
    simp only [handle, resize, resizeBy, Effect.map]
    split
    · exact keeps_refl s
    · exact keeps_refl s
    · rename_i n wanted
      simp [passOf, wanted] at passless
  | rechunk size =>
    left
    simp only [passOf, ite_eq_left_iff, reduceCtorEq, imp_false, not_not] at passless
    simp only [handle, Effect.map, rechunk_busy passless]
    exact keeps_refl s
  | setStrategy strategy => exact Or.inl (keeps_setStrategy passless)
  | switchTo index => exact Or.inl (keeps_switchTo index s)
  | next => exact Or.inl (keeps_next s)
  | previous => exact Or.inl (keeps_previous s)
  | navigate index => exact Or.inl (keeps_navigate index s)
  | setBusy busy => exact Or.inl ⟨rfl, rfl, rfl, rfl, rfl, Or.inl le_rfl⟩
  | setEngine engine => exact Or.inl ⟨rfl, rfl, rfl, rfl, rfl, Or.inl le_rfl⟩

/-! ## Where a pass begins -/

/-- A pass begins with the chunks and the place that the session has, or with nothing but a content to start over
    with. -/
theorem begins_of_passOf (begins : passOf s request = some b) :
    (Keeps s b.session ∧ b.session.index = s.index) ∨
      ∃ content, request = .process content ∧ Clears content.text b.session ∧ content.text ≠ [] ∧ s.busy = false := by
  cases request with
  | process content =>
    simp only [passOf] at begins
    split at begins
    · cases begins
    · rename_i runs
      rw [not_or] at runs
      cases begins
      exact Or.inr ⟨content, rfl, ⟨rfl, rfl, rfl, rfl, rfl⟩, by simpa using runs.1, by simpa using runs.2⟩
  | resize size =>
    simp only [passOf] at begins
    split at begins <;> cases begins
    exact Or.inl ⟨keeps_refl s, rfl⟩
  | rechunk size =>
    simp only [passOf] at begins
    split at begins <;> cases begins
    exact Or.inl ⟨keeps_refl s, rfl⟩
  | setStrategy strategy =>
    simp only [passOf] at begins
    split at begins
    · split at begins <;> cases begins
      exact Or.inl ⟨⟨rfl, rfl, rfl, rfl, rfl, Or.inl le_rfl⟩, rfl⟩
    · cases begins
  | switchTo | next | previous | navigate | setBusy | setEngine => cases begins

end Session

end Chunkwise
