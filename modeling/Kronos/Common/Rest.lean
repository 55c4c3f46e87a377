import Kronos.Common.Reaches

/-!
# Runs that come to rest

Every run of a system ends when a measure with values in a well-founded order
goes down with each step. It ends in a state at rest.
-/

set_option autoImplicit false

variable {State Action : Type}

/-- No admitted step can be taken. -/
def AtRest (step : State → Action → Option State) (admits : State → Action → Prop)
    (state : State) : Prop :=
  ∀ action, admits state action → step state action = none

/-- A run of admitted steps that never ends. -/
structure Endless (step : State → Action → Option State) (admits : State → Action → Prop)
    (start : State) (run : Nat → State) : Prop where
  first : run 0 = start
  steps : ∀ time, ∃ action, admits (run time) action ∧
    step (run time) action = some (run (time + 1))

/-- Every run from the state ends, and one ends at rest. -/
structure ComesToRest (step : State → Action → Option State) (admits : State → Action → Prop)
    (start : State) : Prop where
  ends : ∀ run, ¬ Endless step admits start run
  rests : ∃ final, Reaches step admits start final ∧ AtRest step admits final

variable {step : State → Action → Option State} {admits : State → Action → Prop}

theorem Endless.tail {start : State} {run : Nat → State} (endless : Endless step admits start run) :
    Endless step admits (run 1) fun time => run (time + 1) :=
  ⟨rfl, fun time => endless.steps (time + 1)⟩

/-- A step leads to a state from which all runs end, whatever step it is. -/
theorem ComesToRest.of_steps {start : State}
    (later : ∀ action next, admits start action → step start action = some next →
      ComesToRest step admits next) : ComesToRest step admits start := by
  constructor
  · intro run endless
    obtain ⟨action, admitted, stepped⟩ := endless.steps 0
    rw [endless.first] at admitted stepped
    exact (later action _ admitted stepped).ends _ endless.tail
  · by_cases rest : AtRest step admits start
    · exact ⟨start, .refl, rest⟩
    · simp only [AtRest, not_forall] at rest
      obtain ⟨action, admitted, moves⟩ := rest
      obtain ⟨next, stepped⟩ := Option.ne_none_iff_exists'.mp moves
      obtain ⟨final, reached, atRest⟩ := (later action next admitted stepped).rests
      exact ⟨final, (Reaches.tail action .refl admitted stepped).trans reached, atRest⟩

theorem comesToRest_of_measure {α : Type} {less : α → α → Prop} (founded : WellFounded less)
    (measure : State → α) (inv : State → Prop)
    (kept : ∀ state action next, inv state → admits state action →
      step state action = some next → inv next)
    (decreases : ∀ state action next, inv state → admits state action →
      step state action = some next → less (measure next) (measure state))
    {start : State} (holds : inv start) : ComesToRest step admits start := by
  induction bound : measure start using founded.induction generalizing start with
  | _ value ih =>
      apply ComesToRest.of_steps
      intro action next admitted stepped
      have smaller := decreases start action next holds admitted stepped
      rw [bound] at smaller
      exact ih _ smaller (kept start action next holds admitted stepped) rfl
