import Chunkwise.Proofs.Session.Installs

/-!
# The strategy of a session

A request for a strategy stores it before its pass runs, and nothing takes it back. So the strategy of a session is
the one that its chunks were made with exactly as long as every such request either changes nothing or installs
chunks. Once one has failed, asking again for the same strategy runs no pass.
-/

namespace Chunkwise.Session

variable {s : Session} {request : Request} {b : Begun} {o : Outcome}

/-- The strategy of a session is the one that its latest outcome was made with, if it has one. -/
def InStep (s : Session) : Prop := ∀ o, s.outcome = some o → o.strategy = s.strategy

/-! ## Which strategy a session has -/

theorem strategy_rechunk (size : Argument) (s : Session) : (s.rechunk size).1.strategy = s.strategy := by
  cases running : s.busy with
  | true => rw [rechunk_busy running]
  | false =>
    rw [rechunk_idle running]
    exact (finishPass_frame ..).2.1

/-- No request changes the strategy but the one that asks for it. -/
theorem strategy_handle (other : ∀ argument, request ≠ .setStrategy argument) :
    (s.handle request).1.strategy = s.strategy := by
  cases request with
  | process content =>
    simp only [handle, process, Effect.map]
    split
    · rfl
    · exact strategy_rechunk ..
  | resize size =>
    simp only [handle, resize, resizeBy, Effect.map]
    split
    · rfl
    · rfl
    · exact strategy_rechunk ..
  | rechunk size => exact strategy_rechunk size s
  | setStrategy argument => exact absurd rfl (other argument)
  | switchTo index =>
    simp only [handle, switchTo, Effect.map]
    split <;> rfl
  | next =>
    simp only [handle, next, Effect.map]
    split <;> rfl
  | previous =>
    simp only [handle, previous, Effect.map]
    split <;> rfl
  | navigate index =>
    simp only [handle, navigate, Effect.map]
    split <;> rfl
  | setBusy busy => rfl
  | setEngine engine => rfl

theorem strategy_after {history : List Request} (others : ∀ r ∈ history, ∀ argument, r ≠ .setStrategy argument) :
    (s.after history).strategy = s.strategy := by
  induction history generalizing s with
  | nil => rfl
  | cons request rest ih =>
    obtain ⟨here, later⟩ := List.forall_mem_cons.mp others
    exact (ih later).trans (strategy_handle here)

/-- A request for a strategy stores it, whether its pass succeeds, fails or does not run at all. -/
theorem strategy_setStrategy {argument : Argument} {named : Strategy}
    (valid : Strategy.ofArgument argument = .ok named) : (s.handle (.setStrategy argument)).1.strategy = named := by
  simp only [handle, setStrategy, Effect.map, valid]
  split
  · rename_i same
    exact same.symm
  · split
    · rfl
    · exact strategy_rechunk ..

/-! ## Which strategy an outcome has -/

theorem strategy_of_runPass {size : Argument} (made : (s.runPass size).2 = .ok o) : o.strategy = s.strategy := by
  have run := outcomeAt_of_runPass made
  unfold outcomeAt at run
  split at run
  · cases run
  · obtain ⟨target, -, rest⟩ := Fault.bind_ok.mp run
    obtain ⟨named, known, run⟩ := Fault.bind_ok.mp rest
    simp only [Strategy.ofArgument, Strategy.ofWord?_word, Except.ok.injEq] at known
    rw [known]
    exact (Pass.gives_of_runOn run).strategy_eq

/-- An outcome that is installed was made with the strategy that the session has from then on. -/
theorem inStep_of_result_ok (runs : passOf s request = some b) (made : b.result = .ok o) :
    (s.handle request).1.InStep := by
  intro p found
  rw [(handle_of_result_ok runs made).1, Option.some.injEq] at found
  subst found
  rw [handle_of_passOf runs, Begun.ended, (finishPass_frame ..).2.1]
  exact strategy_of_runPass made

/-! ## In step -/

theorem inStep_handle (inStep : s.InStep) (other : ∀ argument, request ≠ .setStrategy argument) :
    (s.handle request).1.InStep := by
  by_cases installs : s.Installs request
  · obtain ⟨b, o, runs, made⟩ := installs
    exact inStep_of_result_ok runs made
  · intro o found
    rw [strategy_handle other]
    rcases outcome_of_not_installs installs with same | ⟨-, none⟩
    · exact inStep o (same ▸ found)
    · rw [none] at found
      cases found

theorem inStep_setStrategy {argument : Argument} (inStep : s.InStep)
    (installs : ∀ named, Strategy.ofArgument argument = .ok named → s.hasOutcome →
      named = s.strategy ∨ s.Installs (.setStrategy argument)) :
    (s.handle (.setStrategy argument)).1.InStep := by
  by_cases installed : s.Installs (.setStrategy argument)
  · obtain ⟨b, o, runs, made⟩ := installed
    exact inStep_of_result_ok runs made
  · rcases outcome_of_not_installs installed with same | ⟨⟨content, is⟩, -⟩
    · cases valid : Strategy.ofArgument argument with
      | error fault =>
        simp only [handle, setStrategy, Effect.map, valid]
        exact inStep
      | ok named =>
        intro o found
        rw [same] at found
        have kept := (installs named valid (Option.isSome_iff_exists.mpr ⟨o, found⟩)).resolve_right installed
        rw [strategy_setStrategy valid, kept]
        exact inStep o found
    · cases is

/-- A request for another strategy that finds an outcome and installs no chunks puts the session out of step. -/
theorem installs_of_inStep {argument : Argument} {named : Strategy} (valid : Strategy.ofArgument argument = .ok named)
    (inStep : s.InStep) (some : s.hasOutcome) (still : (s.handle (.setStrategy argument)).1.InStep) :
    named = s.strategy ∨ s.Installs (.setStrategy argument) := by
  obtain ⟨o, found⟩ := Option.isSome_iff_exists.mp some
  by_cases installed : s.Installs (.setStrategy argument)
  · exact Or.inr installed
  · rcases outcome_of_not_installs installed with same | ⟨⟨content, is⟩, -⟩
    · left
      rw [← strategy_setStrategy valid, ← still o (same.trans found), inStep o found]
    · cases is

/-- A session stays in step throughout a history exactly when every request for another strategy that finds an outcome
    installs chunks. -/
theorem inStep_after_iff (inStep : s.InStep) (history : List Request) :
    (∀ earlier later, history = earlier ++ later → (s.after earlier).InStep) ↔
      ∀ earlier argument later named, history = earlier ++ .setStrategy argument :: later →
        Strategy.ofArgument argument = .ok named → (s.after earlier).hasOutcome →
        named = (s.after earlier).strategy ∨ (s.after earlier).Installs (.setStrategy argument) := by
  constructor
  · intro throughout earlier argument later named is valid some
    have next := throughout (earlier ++ [.setStrategy argument]) later (by simp [is])
    rw [after_append] at next
    exact installs_of_inStep valid (throughout earlier _ is) some next
  · intro installs earlier
    -- From the end of the history so far: the session was in step, and its last request keeps it so.
    induction earlier using List.reverseRecOn with
    | nil => exact fun _ _ => inStep
    | append_singleton earlier request ih =>
      intro later is
      rw [List.append_assoc, List.singleton_append] at is
      have before := ih (request :: later) is
      rw [after_append]
      show ((s.after earlier).handle request).1.InStep
      by_cases asks : ∃ argument, request = .setStrategy argument
      · obtain ⟨argument, rfl⟩ := asks
        exact inStep_setStrategy before fun named => installs earlier argument later named is
      · exact inStep_handle before fun argument is => asks ⟨argument, is⟩

theorem inStep_start {engine : Engine} {size : ℤ} {minSize : Option ℤ} {strategy : Argument} {content : Content}
    (opened : start engine size minSize strategy content = .ok s) : s.InStep := by
  obtain ⟨named, -, rfl⟩ := start_eq opened
  have blank : (empty engine size minSize named).InStep := by
    intro o found
    cases found
  split
  · exact blank
  · exact inStep_handle blank fun argument is => by cases is

/-- A request for the strategy that the session has changes nothing and runs no pass. -/
theorem handle_setStrategy_same {argument : Argument} (valid : Strategy.ofArgument argument = .ok s.strategy) :
    s.handle (.setStrategy argument) = (s, .ok (.accepted false)) ∧ passOf s (.setStrategy argument) = none := by
  constructor
  · simp only [handle, setStrategy, Effect.map, valid, ↓reduceIte]
    rfl
  · simp only [passOf, valid, true_or, ↓reduceIte]

/-- A strategy is switched as a whole exactly when chunks are installed with it. The strategy of a session is that of
    its latest outcome throughout a history if and only if every request for another strategy, made of a session with an
    outcome, installs chunks. Any request for a strategy stores it: when it installs chunks they are made with that
    strategy, and when it does not, the outcome stays, and asking again runs no pass whatever is done in between. -/
theorem strategy_switch_iff {engine : Engine} {size : ℤ} {minSize : Option ℤ} {strategy : Argument} {content : Content}
    (opened : start engine size minSize strategy content = .ok s) (history : List Request) :
    ((∀ earlier later, history = earlier ++ later → ∀ o, (s.after earlier).outcome = some o →
        o.strategy = (s.after earlier).strategy) ↔
      ∀ earlier argument later named, history = earlier ++ .setStrategy argument :: later →
        Strategy.ofArgument argument = .ok named → (s.after earlier).hasOutcome →
        named = (s.after earlier).strategy ∨ (s.after earlier).Installs (.setStrategy argument)) ∧
    ∀ argument named, Strategy.ofArgument argument = .ok named →
      ((¬ (s.after history).Installs (.setStrategy argument) →
          ((s.after history).handle (.setStrategy argument)).1.strategy = (s.after history).strategy) ↔
        named = (s.after history).strategy ∨ (s.after history).Installs (.setStrategy argument)) ∧
      ((s.after history).Installs (.setStrategy argument) →
        ∃ o, ((s.after history).handle (.setStrategy argument)).1.outcome = some o ∧ o.strategy = named ∧
          ((s.after history).handle (.setStrategy argument)).1.chunks = o.chunks) ∧
      (¬ (s.after history).Installs (.setStrategy argument) →
        ((s.after history).handle (.setStrategy argument)).1.outcome = (s.after history).outcome) ∧
      ∀ others : List Request, (∀ r ∈ others, ∀ other, r ≠ .setStrategy other) →
        (((s.after history).handle (.setStrategy argument)).1.after others).handle (.setStrategy argument) =
          (((s.after history).handle (.setStrategy argument)).1.after others, .ok (.accepted false)) ∧
        passOf (((s.after history).handle (.setStrategy argument)).1.after others) (.setStrategy argument) = none := by
  refine ⟨inStep_after_iff (inStep_start opened) history, ?_⟩
  intro argument named valid
  refine ⟨?_, ?_, ?_, ?_⟩
  · rw [strategy_setStrategy valid]
    constructor
    · intro atomic
      by_cases installed : (s.after history).Installs (.setStrategy argument)
      · exact Or.inr installed
      · exact Or.inl (atomic installed)
    · rintro (same | installed) missed
      · exact same
      · exact absurd installed missed
  · rintro ⟨b, o, runs, made⟩
    obtain ⟨outcome, chunks, -⟩ := handle_of_result_ok runs made
    refine ⟨o, outcome, ?_, chunks⟩
    rw [inStep_of_result_ok runs made o outcome, strategy_setStrategy valid]
  · intro missed
    rcases outcome_of_not_installs missed with same | ⟨⟨content, is⟩, -⟩
    · exact same
    · cases is
  · intro others calm
    apply handle_setStrategy_same
    rw [strategy_after calm, strategy_setStrategy valid]
    exact valid

/-- The one request for chunks by size finds two letters in a chunk by meaning, and installs its own. -/
theorem strategy_switch_two_letters :
    ∃ s o, start .working 1 (some 1) .null { text := [] } = .ok s ∧
      ((s.after [.process { text := ['a', 'b'] }]).handle (.setStrategy (.text "size-based".toList))).1.outcome =
        some o ∧ o.strategy = .sizeBased := by
  have opened : start .working 1 (some 1) .null { text := [] } = .ok (empty .working 1 (some 1) .semantic) := rfl
  obtain ⟨-, switches⟩ := strategy_switch_iff opened [.process { text := ['a', 'b'] }]
  obtain ⟨-, installed, -⟩ := switches (.text "size-based".toList) .sizeBased rfl
  obtain ⟨o, outcome, made, -⟩ := installed (by decide +kernel)
  exact ⟨_, o, opened, outcome, made⟩

/-- A session of chunks by meaning whose pass for chunks by size has failed. The pass could succeed from then on, but
    the session has taken the strategy and will not run it. -/
theorem strategy_outlives_failed_pass :
    ∃ s t, start .working 1 (some 1) .null { text := [] } = .ok s ∧
      t = s.after [.process { text := ['a', 'b'] }, .setEngine (.failing "boom".toList),
        .setStrategy (.text "size-based".toList), .setEngine .working] ∧
      t.outcome.map (·.strategy) = some .semantic ∧ t.strategy = .sizeBased ∧
      t.handle (.setStrategy (.text "size-based".toList)) = (t, .ok (.accepted false)) := by
  have switched : ((empty .working 1 (some 1) .semantic).after [.process { text := ['a', 'b'] },
      .setEngine (.failing "boom".toList), .setStrategy (.text "size-based".toList),
      .setEngine .working]).strategy = .sizeBased := by decide +kernel
  refine ⟨_, _, rfl, rfl, by decide +kernel, switched, (handle_setStrategy_same ?_).1⟩
  rw [switched]
  rfl

end Chunkwise.Session
