import Mathlib.Logic.Relation
import Mathlib.Tactic

/-!
# Runs of a labelled transition relation

`Reaches` collects the states of a system together with the labels on the way, the oldest first.
An invariant may speak about both. `Steps` forgets the labels and relates a state to the later
ones.
-/

namespace Transition

variable {State Label : Type*} {init init' : Label → State → Prop}
  {step step' : State → Label → State → Prop}

/-- The states reached after the labels of a run. The initial label stands for the start itself. -/
inductive Reaches (init : Label → State → Prop) (step : State → Label → State → Prop) :
    List Label → State → Prop
  | start {a : Label} {x : State} : init a x → Reaches init step [a] x
  | step {as : List Label} {a : Label} {x y : State} :
      Reaches init step as x → step x a y → Reaches init step (as ++ [a]) y

/-- What holds at the start and is kept by every step holds in every run. -/
theorem Reaches.invariant {I : List Label → State → Prop} (hinit : ∀ a x, init a x → I [a] x)
    (hstep : ∀ as a x y, Reaches init step as x → I as x → step x a y → I (as ++ [a]) y)
    {as : List Label} {x : State} (h : Reaches init step as x) : I as x := by
  induction h with
  | start hx => exact hinit _ _ hx
  | step hreach hxy ih => exact hstep _ _ _ _ hreach ih hxy

/-- A run of a system is a run of every system that allows its steps. -/
theorem Reaches.mono (hinit : ∀ a x, init a x → init' a x)
    (hstep : ∀ x a y, step x a y → step' x a y) {as : List Label} {x : State}
    (h : Reaches init step as x) : Reaches init' step' as x := by
  induction h with
  | start hx => exact .start (hinit _ _ hx)
  | step _ hxy ih => exact .step ih (hstep _ _ _ hxy)

/-- A run can go on from where it has come. -/
theorem Reaches.trans {as bs : List Label} {x y : State} (h : Reaches init step as x)
    (hbs : Reaches (step x) step bs y) : Reaches init step (as ++ bs) y := by
  induction hbs with
  | start hstep => exact h.step hstep
  | step _ hstep ih =>
    rw [← List.append_assoc]
    exact ih.step hstep

theorem Reaches.exists_init {as : List Label} {x : State} (h : Reaches init step as x) :
    ∃ a y, init a y := by
  induction h with
  | start hx => exact ⟨_, _, hx⟩
  | step _ _ ih => exact ih

/-- If there is a bound on the length of all runs and a run is only stuck in a final state, then
every run goes on to a final state. -/
theorem Reaches.exists_final {final : State → Prop} {n : ℕ}
    (hbound : ∀ as x, Reaches init step as x → as.length ≤ n)
    (hnext : ∀ as x, Reaches init step as x → ¬ final x → ∃ a y, step x a y)
    {as : List Label} {x : State} (h : Reaches init step as x) :
    ∃ bs y, Reaches init step (as ++ bs) y ∧ final y := by
  induction hleft : n - as.length using Nat.strong_induction_on generalizing as x with
  | h k ih =>
    by_cases hfinal : final x
    · exact ⟨[], x, by rwa [List.append_nil], hfinal⟩
    · obtain ⟨a, y, hstep⟩ := hnext as x h hfinal
      have hlonger := hbound _ _ (h.step hstep)
      rw [List.length_append, List.length_singleton] at hlonger
      obtain ⟨bs, z, hz, hfinal⟩ := ih (n - (as ++ [a]).length)
        (by rw [List.length_append, List.length_singleton]; omega) (h.step hstep) rfl
      exact ⟨a :: bs, z, by rwa [List.append_cons], hfinal⟩

/-- Some steps lead from one state to the other. -/
def Steps (step : State → Label → State → Prop) : State → State → Prop :=
  Relation.ReflTransGen fun x y => ∃ a, step x a y

/-- What every step keeps is kept by any number of steps. -/
theorem Steps.keeps {P : State → Prop} (hstep : ∀ x a y, P x → step x a y → P y) {x y : State}
    (h : Steps step x y) (hx : P x) : P y := by
  induction h with
  | refl => exact hx
  | tail _ hxy ih =>
    obtain ⟨a, ha⟩ := hxy
    exact hstep _ a _ ih ha

/-- On the way from a state outside `P` to one inside, some step enters `P`. -/
theorem Steps.exists_enters {P : State → Prop} {x y : State} (h : Steps step x y) (hx : ¬ P x)
    (hy : P y) : ∃ u a v, Steps step x u ∧ ¬ P u ∧ step u a v ∧ P v := by
  induction h with
  | refl => exact absurd hy hx
  | @tail u v hxu huv ih =>
    by_cases hu : P u
    · exact ih hu
    · obtain ⟨a, ha⟩ := huv
      exact ⟨u, a, v, hxu, hu, ha, hy⟩

end Transition
