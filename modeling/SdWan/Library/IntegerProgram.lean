import Mathlib.Algebra.BigOperators.Fin
import Mathlib.Algebra.BigOperators.Intervals
import Mathlib.Algebra.Order.BigOperators.Group.Finset
import Mathlib.Data.Rat.Floor
import Mathlib.Tactic

/-!
# Integer programs with rational rows

A program has `numVariables` variables that range over the natural numbers, rows bounded from
below and possibly from above, and a linear objective to be minimised. Coefficients are entered
one at a time; entering a list of terms with distinct variables gives the sum of these terms.

A solver maps a program to an outcome or to nothing. It is `Sound` when its outcomes are feasible
and report their own objective, and `ExactAt` a program when it also answers whenever an answer
exists and no feasible point is cheaper.
-/

open Finset

namespace IntegerProgram

/-! ## Linear forms entered term by term -/

def eval (n : ℕ) (coefficient x : ℕ → ℚ) : ℚ := ∑ v ∈ range n, coefficient v * x v

def enter (coefficient : ℕ → ℚ) (term : ℕ × ℚ) : ℕ → ℚ :=
  Function.update coefficient term.1 term.2

def enterAll (coefficient : ℕ → ℚ) (terms : List (ℕ × ℚ)) : ℕ → ℚ :=
  terms.foldl enter coefficient

@[simp] theorem eval_zero (n : ℕ) (x : ℕ → ℚ) : eval n (fun _ => 0) x = 0 := by
  simp [eval]

/-- Entering a term at a variable without one adds that term. -/
theorem eval_enter {n : ℕ} {coefficient : ℕ → ℚ} (x : ℕ → ℚ) {term : ℕ × ℚ}
    (hv : term.1 < n) (h0 : coefficient term.1 = 0) :
    eval n (enter coefficient term) x = eval n coefficient x + term.2 * x term.1 := by
  have hmem : term.1 ∈ range n := mem_range.mpr hv
  have hrest : ∑ v ∈ (range n).erase term.1, enter coefficient term v * x v =
      ∑ v ∈ (range n).erase term.1, coefficient v * x v := by
    apply sum_congr rfl
    intro v hv'
    rw [enter, Function.update_of_ne (ne_of_mem_erase hv')]
  unfold eval
  rw [← add_sum_erase _ _ hmem, ← add_sum_erase _ _ hmem, hrest, enter, Function.update_self, h0]
  ring

theorem eval_enterAll {n : ℕ} (x : ℕ → ℚ) (terms : List (ℕ × ℚ)) (coefficient : ℕ → ℚ)
    (hnodup : (terms.map Prod.fst).Nodup) (hlt : ∀ t ∈ terms, t.1 < n)
    (h0 : ∀ t ∈ terms, coefficient t.1 = 0) :
    eval n (enterAll coefficient terms) x =
      eval n coefficient x + (terms.map fun t => t.2 * x t.1).sum := by
  induction terms generalizing coefficient with
  | nil => simp [enterAll]
  | cons t ts ih =>
    rw [List.map_cons, List.nodup_cons] at hnodup
    have hrest : ∀ u ∈ ts, enter coefficient t u.1 = 0 := by
      intro u hu
      have hne : u.1 ≠ t.1 := fun he => hnodup.1 (he ▸ List.mem_map_of_mem hu)
      rw [enter, Function.update_of_ne hne]
      exact h0 u (List.mem_cons_of_mem _ hu)
    change eval n (enterAll (enter coefficient t) ts) x = _
    rw [ih _ hnodup.2 (fun u hu => hlt u (List.mem_cons_of_mem _ hu)) hrest,
      eval_enter x (hlt t List.mem_cons_self) (h0 t List.mem_cons_self),
      List.map_cons, List.sum_cons, add_assoc]

theorem eval_enterAll_zero {n : ℕ} (x : ℕ → ℚ) (terms : List (ℕ × ℚ))
    (hnodup : (terms.map Prod.fst).Nodup) (hlt : ∀ t ∈ terms, t.1 < n) :
    eval n (enterAll (fun _ => 0) terms) x = (terms.map fun t => t.2 * x t.1).sum := by
  rw [eval_enterAll x terms _ hnodup hlt (fun _ _ => rfl), eval_zero, zero_add]

/-! ## Rows and programs -/

/-- The row `lb ≤ ∑ coefficient v * x v ≤ ub`; without `ub` it has no upper bound. -/
structure Row where
  lb : ℚ
  ub : Option ℚ
  coefficient : ℕ → ℚ

def Row.Holds (n : ℕ) (row : Row) (x : ℕ → ℚ) : Prop :=
  row.lb ≤ eval n row.coefficient x ∧ ∀ u ∈ row.ub, eval n row.coefficient x ≤ u

structure Program where
  numVariables : ℕ
  rows : List Row
  objective : ℕ → ℚ

namespace Program

variable (P : Program)

def cost (x : ℕ → ℚ) : ℚ := eval P.numVariables P.objective x

structure Feasible (x : ℕ → ℚ) : Prop where
  natural : ∀ v < P.numVariables, x v = (⌊x v⌋₊ : ℚ)
  rows : ∀ row ∈ P.rows, row.Holds P.numVariables x

structure Optimal (x : ℕ → ℚ) : Prop where
  feasible : P.Feasible x
  least : ∀ y, P.Feasible y → P.cost x ≤ P.cost y

instance (x : ℕ → ℚ) : Decidable (P.Feasible x) :=
  decidable_of_iff ((∀ v < P.numVariables, x v = (⌊x v⌋₊ : ℚ)) ∧
      ∀ row ∈ P.rows, row.lb ≤ eval P.numVariables row.coefficient x ∧
        ∀ u ∈ row.ub, eval P.numVariables row.coefficient x ≤ u)
    ⟨fun h => ⟨h.1, h.2⟩, fun h => ⟨h.1, h.2⟩⟩

variable {P} {P' : Program}

/-- When the feasible points of two programs correspond at equal cost, so do the optimal ones. -/
theorem Optimal.exists_of_correspondence
    (hforth : ∀ x, P.Feasible x → ∃ y, P'.Feasible y ∧ P'.cost y = P.cost x)
    (hback : ∀ y, P'.Feasible y → ∃ x, P.Feasible x ∧ P.cost x = P'.cost y)
    {x : ℕ → ℚ} (hx : P.Optimal x) : ∃ y, P'.Optimal y ∧ P'.cost y = P.cost x := by
  obtain ⟨y, hy, hcost⟩ := hforth x hx.feasible
  refine ⟨y, ⟨hy, fun y' hy' => ?_⟩, hcost⟩
  obtain ⟨x', hx', hcost'⟩ := hback y' hy'
  rw [hcost, ← hcost']
  exact hx.least x' hx'

end Program

/-! ## Solvers -/

structure Outcome where
  value : ℕ → ℚ
  objectiveValue : ℚ

abbrev Solver := Program → Option Outcome

/-- Every outcome is a feasible point. -/
def AnswersFeasibly (solve : Solver) : Prop := ∀ P r, solve P = some r → P.Feasible r.value

/-- Every outcome is a feasible point with its own objective. -/
def Sound (solve : Solver) : Prop :=
  ∀ P r, solve P = some r → P.Feasible r.value ∧ r.objectiveValue = P.cost r.value

theorem Sound.answersFeasibly {solve : Solver} (h : Sound solve) : AnswersFeasibly solve :=
  fun P r hr => (h P r hr).1

structure ExactAt (solve : Solver) (P : Program) : Prop where
  optimal : ∀ r, solve P = some r → P.Optimal r.value ∧ r.objectiveValue = P.cost r.value
  complete : ∀ x, P.Feasible x → (solve P).isSome

/-- The solver that offers the first feasible point of a list. -/
def offer (xs : List (ℕ → ℚ)) : Solver := fun P =>
  (xs.find? fun x => decide (P.Feasible x)).map fun x => ⟨x, P.cost x⟩

theorem sound_offer (xs : List (ℕ → ℚ)) : Sound (offer xs) := by
  intro P r h
  obtain ⟨x, hx, rfl⟩ := Option.map_eq_some_iff.mp h
  have hfeasible := List.find?_some hx
  exact ⟨of_decide_eq_true hfeasible, rfl⟩

theorem exactAt_offer {P : Program} {xs : List (ℕ → ℚ)} {x : ℕ → ℚ}
    (hfirst : xs.find? (fun x => decide (P.Feasible x)) = some x) (h : P.Optimal x) :
    ExactAt (offer xs) P where
  optimal r hr := by
    rw [offer, hfirst] at hr
    cases hr
    exact ⟨h, rfl⟩
  complete y _ := by rw [offer, hfirst]; rfl

end IntegerProgram
