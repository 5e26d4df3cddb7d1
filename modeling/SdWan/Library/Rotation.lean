import Mathlib.Data.Int.CardIntervalMod
import Mathlib.Tactic

/-!
# Dealing items to slots in turn

`dealt n c k q` is the number of items slot `q` gets when `k` items are dealt to `n` slots one
after the other, the first of them to slot `c`. When several rounds each begin with slot `0`, every
uneven round favours the first slot over the last, so the loads stay within one of each other
exactly when at most one round is uneven.
-/

namespace Rotation

def dealt (n c k q : ℕ) : ℕ := Nat.count (fun i => (c + i) % n = q) k

@[simp] theorem dealt_zero (n c q : ℕ) : dealt n c 0 q = 0 := Nat.count_zero _

theorem dealt_add (n c k k' q : ℕ) :
    dealt n c (k + k') q = dealt n c k q + dealt n ((c + k) % n) k' q := by
  rw [dealt, Nat.count_add]
  congr 1
  have hshift : (fun i => (c + (k + i)) % n = q) = fun i => ((c + k) % n + i) % n = q := by
    funext i
    rw [Nat.mod_add_mod, Nat.add_assoc]
  simp only [dealt, hshift]

theorem dealt_one {n c : ℕ} (hc : c < n) (q : ℕ) : dealt n c 1 q = if c = q then 1 else 0 := by
  rw [dealt, Nat.count_succ, Nat.count_zero, Nat.zero_add, Nat.add_zero, Nat.mod_eq_of_lt hc]

theorem dealt_first {n q : ℕ} (hq : q < n) (k : ℕ) :
    dealt n 0 k q = k / n + if q < k % n then 1 else 0 := by
  have hclass : (fun i => (0 + i) % n = q) = fun i => i ≡ q [MOD n] := by
    funext i
    rw [Nat.zero_add, Nat.ModEq, Nat.mod_eq_of_lt hq]
  have hcount := Nat.count_modEq_card k (q.zero_le.trans_lt hq) q
  rw [Nat.mod_eq_of_lt hq] at hcount
  simp only [dealt, hclass, hcount]

/-- The loads of any two of the first `n` slots differ by at most one. -/
def Balanced (n : ℕ) (load : ℕ → ℕ) : Prop := ∀ q < n, ∀ q' < n, load q ≤ load q' + 1

/-- The load of a slot after rounds of the given sizes, each beginning with slot `0`. -/
def load (n : ℕ) (rounds : List ℕ) (q : ℕ) : ℕ := (rounds.map fun k => dealt n 0 k q).sum

theorem load_eq {n q : ℕ} (hq : q < n) (rounds : List ℕ) :
    load n rounds q =
      (rounds.map fun k => k / n).sum + rounds.countP fun k => decide (q < k % n) := by
  induction rounds with
  | nil => rfl
  | cons k rounds ih =>
    rw [load, List.map_cons, List.sum_cons, ← load, ih, dealt_first hq, List.map_cons,
      List.sum_cons, List.countP_cons]
    simp only [decide_eq_true_eq]
    omega

/-- The rounds whose size is no multiple of the number of slots. -/
def unevenRounds (n : ℕ) (rounds : List ℕ) : ℕ := rounds.countP fun k => decide (¬ n ∣ k)

theorem balanced_load_iff {n : ℕ} (hn : 0 < n) (rounds : List ℕ) :
    Balanced n (load n rounds) ↔ unevenRounds n rounds ≤ 1 := by
  have hmore : ∀ q, (rounds.countP fun k => decide (q < k % n)) ≤ unevenRounds n rounds := by
    intro q
    apply List.countP_mono_left
    intro k _ hk
    rw [decide_eq_true_iff] at hk ⊢
    exact fun hdvd => by rw [Nat.mod_eq_zero_of_dvd hdvd] at hk; omega
  constructor
  · intro h
    have hends := h 0 hn (n - 1) (by omega)
    rw [load_eq hn, load_eq (by omega)] at hends
    have hfirst : unevenRounds n rounds = rounds.countP fun k => decide (0 < k % n) := by
      apply List.countP_congr
      intro k _
      rw [decide_eq_true_iff, decide_eq_true_iff, Nat.dvd_iff_mod_eq_zero, Nat.pos_iff_ne_zero]
    have hlast : (rounds.countP fun k => decide (n - 1 < k % n)) = 0 := by
      rw [List.countP_eq_zero]
      intro k _
      have := Nat.mod_lt k hn
      rw [decide_eq_true_iff]
      omega
    omega
  · intro h q hq q' hq'
    have hle := hmore q
    rw [load_eq hq, load_eq hq']
    omega

/-! ## A round that begins anywhere -/

theorem dealt_mod (n c k q : ℕ) : dealt n (c % n) k q = dealt n c k q := by
  simp only [dealt, Nat.mod_add_mod]

theorem balanced_dealt (n c k : ℕ) : Balanced n (dealt n c k) := by
  intro q hq q' hq'
  have hsplit := dealt_add n 0 c k q
  have hsplit' := dealt_add n 0 c k q'
  rw [Nat.zero_add, dealt_mod, dealt_first hq, dealt_first hq] at hsplit
  rw [Nat.zero_add, dealt_mod, dealt_first hq', dealt_first hq'] at hsplit'
  split_ifs at hsplit hsplit' <;> omega

/-- The earlier slots get more. -/
theorem load_le_load {n q q' : ℕ} (hle : q ≤ q') (hq' : q' < n) (rounds : List ℕ) :
    load n rounds q' ≤ load n rounds q := by
  rw [load_eq hq', load_eq (hle.trans_lt hq')]
  apply Nat.add_le_add_left
  apply List.countP_mono_left
  intro k _ hk
  rw [decide_eq_true_iff] at hk ⊢
  exact hle.trans_lt hk

/-- Every uneven round puts them ahead by one item at most. -/
theorem load_le_add_unevenRounds {n q q' : ℕ} (hq : q < n) (hq' : q' < n) (rounds : List ℕ) :
    load n rounds q ≤ load n rounds q' + unevenRounds n rounds := by
  have hmore : (rounds.countP fun k => decide (q < k % n)) ≤ unevenRounds n rounds := by
    apply List.countP_mono_left
    intro k _ hk
    rw [decide_eq_true_iff] at hk ⊢
    exact fun hdvd => by rw [Nat.mod_eq_zero_of_dvd hdvd] at hk; omega
  rw [load_eq hq, load_eq hq']
  omega

end Rotation
