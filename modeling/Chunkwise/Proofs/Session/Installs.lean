import Chunkwise.Proofs.Session.History

/-!
# Requests that install chunks

A request installs chunks when it runs a pass and the pass succeeds. Then the session has the outcome of that pass and
no failure. Without new chunks a session keeps the outcome that it has, unless it starts over. A request for a size runs
its pass on the session as it is.
-/

namespace Chunkwise

/-- A request asks for a size, or for a pass at one. -/
def Request.asksForSize : Request → Bool
  | .resize _ | .rechunk _ => true
  | _ => false

namespace Session

variable {s : Session} {request : Request} {b : Begun} {o : Outcome}

/-- A request runs a pass that succeeds, so that its chunks are installed. -/
def Installs (s : Session) (request : Request) : Prop := ∃ b o, passOf s request = some b ∧ b.result = .ok o

theorem installs_iff : s.Installs request ↔ ((passOf s request).bind (·.result.toOption)).isSome := by
  unfold Installs
  cases passOf s request with
  | none => simp
  | some b => cases made : b.result <;> simp [made, Except.toOption]

instance : Decidable (s.Installs request) := decidable_of_iff _ installs_iff.symm

/-- A request installs nothing when the pass that it runs fails, or when it runs none. -/
theorem not_installs_of_fails (fails : ∀ b, passOf s request = some b → ∃ cause, b.result = .error cause) :
    ¬ s.Installs request := by
  rintro ⟨b, o, runs, made⟩
  obtain ⟨cause, failed⟩ := fails b runs
  rw [failed] at made
  cases made

theorem not_installs_of_passless (passless : passOf s request = none) : ¬ s.Installs request := by
  refine not_installs_of_fails fun b runs => ?_
  rw [passless] at runs
  cases runs

theorem failure_of_installs (installs : s.Installs request) : (s.handle request).1.failure = none := by
  obtain ⟨b, o, runs, made⟩ := installs
  rw [handle_of_passOf runs, Begun.ended, made]
  rfl

/-- Without new chunks a session keeps its outcome, unless it starts over. -/
theorem outcome_of_not_installs (missed : ¬ s.Installs request) :
    (s.handle request).1.outcome = s.outcome ∨
      (∃ content, request = .process content) ∧ (s.handle request).1.outcome = none := by
  cases runs : passOf s request with
  | none =>
    rcases handle_of_passOf_none runs with keeps | ⟨content, is, clears, -⟩
    · exact Or.inl keeps.outcome
    · exact Or.inr ⟨⟨content, is⟩, clears.outcome⟩
  | some b =>
    cases made : b.result with
    | ok o => exact absurd ⟨b, o, runs, made⟩ missed
    | error cause =>
      have kept : (s.handle request).1.outcome = b.session.outcome := by
        rw [handle_of_passOf runs, Begun.ended, made, outcome_finishPass_error]
      rw [kept]
      rcases begins_of_passOf runs with ⟨keeps, -⟩ | ⟨content, is, clears, -⟩
      · exact Or.inl keeps.outcome
      · exact Or.inr ⟨⟨content, is⟩, clears.outcome⟩

/-- A session that is idle never refuses an integer as the size. -/
theorem wantedSize_int (n : ℤ) (idle : s.busy = false) :
    s.wantedSize (.int n) = .ok (if s.clamp n = s.size ∧ s.hasOutcome then none else some (s.clamp n)) := by
  simp [wantedSize, idle, clampArgument, Argument.toInt, Except.map]

/-- A content that is not empty bounds every size that is asked for to one that can be written. -/
theorem isWritable_clamp (nonempty : s.content ≠ []) (short : s.content.length < Size.limit) (n : ℤ) :
    Text.isWritable (s.clamp n) := by
  have bounded : s.clamp n ≤ s.content.length := by simp [clamp, nonempty]
  have natural : 0 ≤ s.clamp n := by
    simp only [clamp, List.isEmpty_iff, nonempty, ↓reduceIte]
    omega
  exact Size.isWritable_of_lt_limit natural (by omega)

theorem session_of_passOf (asks : request.asksForSize) (runs : passOf s request = some b) :
    b.session = s ∧ s.busy = false := by
  cases request with
  | resize size =>
    simp only [passOf] at runs
    split at runs
    · rename_i n wanted
      cases runs
      exact ⟨rfl, wantedSize_idle wanted⟩
    · cases runs
  | rechunk size =>
    simp only [passOf] at runs
    split at runs
    · cases runs
    · rename_i idle
      cases runs
      exact ⟨rfl, by simpa using idle⟩
  | process | setStrategy | switchTo | next | previous | navigate | setBusy | setEngine => cases asks

theorem size_of_passOf_resize {n : ℤ} (runs : passOf s (.resize (.int n)) = some b) : b.size = .int (s.clamp n) := by
  have idle := (session_of_passOf rfl runs).2
  simp only [passOf, wantedSize_int n idle] at runs
  split at runs
  · rename_i m wanted
    cases runs
    split at wanted <;> cases wanted
    rfl
  · cases runs

theorem size_of_passOf_rechunk {v : Argument} (runs : passOf s (.rechunk v) = some b) : b.size = v := by
  simp only [passOf] at runs
  split at runs <;> cases runs
  rfl

/-- A pass that succeeds has an integer as its size, and that is the size that the session takes. -/
theorem size_of_result_ok (made : b.result = .ok o) : b.size = .int o.target.value := by
  have run := outcomeAt_of_runPass made
  unfold outcomeAt at run
  split at run
  · cases run
  · obtain ⟨target, sized, rest⟩ := Fault.bind_ok.mp run
    obtain ⟨named, -, run⟩ := Fault.bind_ok.mp rest
    rw [(Pass.gives_of_runOn run).target_eq]
    unfold TargetSize.ofArgument at sized
    split at sized
    · rename_i n is
      split at sized
      · cases sized
        simp only [is, Argument.int.injEq]
        omega
      · cases sized
    · cases sized

/-- A pass at anything but a positive integer fails. -/
theorem runPass_of_no_size {size : Argument} (improper : ∀ n, size = .int n → n ≤ 0) (s : Session) :
    ∃ cause, (s.runPass size).2 = .error cause := by
  cases made : (s.runPass size).2 with
  | error cause => exact ⟨cause, rfl⟩
  | ok o =>
    have taken : size = .int o.target.value := size_of_result_ok (b := ⟨s, size⟩) made
    have := improper _ taken
    have := o.target.positive
    omega

/-- A request for a size that runs a pass is answered as the pass ends. -/
theorem handle_of_asksForSize (asks : request.asksForSize) (runs : passOf s request = some b) :
    s.handle request = (s.finishPass b.size b.result).map .accepted := by
  cases request with
  | resize size =>
    simp only [passOf] at runs
    split at runs
    · rename_i n wanted
      cases runs
      simp only [handle, resize_eq wanted]
      rfl
    · cases runs
  | rechunk size =>
    simp only [passOf] at runs
    split at runs
    · cases runs
    · rename_i idle
      cases runs
      simp only [handle, rechunk_idle (Bool.not_eq_true _ ▸ idle)]
      rfl
  | process | setStrategy | switchTo | next | previous | navigate | setBusy | setEngine => cases asks

theorem after_append (s : Session) (earlier later : List Request) :
    s.after (earlier ++ later) = (s.after earlier).after later := List.foldl_append

end Session

end Chunkwise
