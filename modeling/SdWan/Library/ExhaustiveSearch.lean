import SdWan.Library.IntegerProgram
import SdWan.Library.Tuples

/-!
# Solving by exhaustive search

The solver that tries every point with values up to a bound. It answers the programs that have a
solution, as long as no solution lies beyond the bound.
-/

open Finset Tuples

namespace IntegerProgram

/-- The solver finds a solution of the program if there is one. -/
def Answers (solve : Solver) (P : Program) : Prop := ∀ x, P.Feasible x → (solve P).isSome

def listed (t : List ℕ) (v : ℕ) : ℚ := (t.getD v 0 : ℕ)

def search (bound : ℕ) : Solver := fun P =>
  offer ((tuples (List.range (bound + 1)) P.numVariables).map listed) P

variable {P : Program} {x y : ℕ → ℚ}

theorem sound_search (bound : ℕ) : Sound (search bound) := fun P r h => sound_offer _ P r h

theorem eval_congr {n : ℕ} (coefficient : ℕ → ℚ) (h : ∀ v < n, y v = x v) :
    eval n coefficient y = eval n coefficient x := by
  apply sum_congr rfl
  intro v hv
  rw [h v (mem_range.mp hv)]

/-- What a point is at the variables decides whether it is a solution. -/
theorem Program.Feasible.congr (hx : P.Feasible x) (h : ∀ v < P.numVariables, y v = x v) :
    P.Feasible y := by
  constructor
  · intro v hv
    rw [h v hv]
    exact hx.natural v hv
  · intro row hrow
    rw [Row.Holds, eval_congr row.coefficient h]
    exact hx.rows row hrow

theorem answers_search {bound : ℕ}
    (hbound : ∀ x, P.Feasible x → ∀ v < P.numVariables, x v ≤ bound) :
    Answers (search bound) P := by
  intro x hx
  have hlisted : ∀ v < P.numVariables,
      listed ((List.range P.numVariables).map fun v => ⌊x v⌋₊) v = x v := by
    intro v hv
    rw [listed, List.getD_eq_getElem?_getD, List.getElem?_map, List.getElem?_range hv]
    exact (hx.natural v hv).symm
  have hmem : (List.range P.numVariables).map (fun v => ⌊x v⌋₊) ∈
      tuples (List.range (bound + 1)) P.numVariables := by
    rw [mem_tuples, List.length_map, List.length_range, List.forall_mem_map]
    refine ⟨rfl, fun v hv => ?_⟩
    have hle := Nat.floor_mono (hbound x hx v (List.mem_range.mp hv))
    rw [Nat.floor_natCast] at hle
    exact List.mem_range.mpr (Nat.lt_succ_of_le hle)
  rw [search, offer, Option.isSome_map, List.find?_isSome]
  exact ⟨_, List.mem_map_of_mem hmem, decide_eq_true (hx.congr hlisted)⟩

end IntegerProgram
