import Mathlib.Algebra.BigOperators.Fin
import Mathlib.Algebra.Order.BigOperators.Group.Finset
import Mathlib.Data.ENat.Basic
import Mathlib.Data.Rat.Defs
import Mathlib.Tactic

/-!
# Assigning pending packets to links

The purpose of the optimising strategies, without their rows. An assignment `x` says how many
pending packets of each application go over each link. It is admissible when it sends every
pending packet, respects the capacity of every link, and keeps the averages of bit rate, delay and
error percentage over the packets of each application within the requirements of the application.

Averages are compared through the carried totals, which also make sense for an application without
packets. Admissible assignments extend from some of the links to all of them, those of several
rounds add up, and they stay what they are when applications and links get other names.
-/

open Finset

namespace SdWan

/-- `capacity` is `⊤` for a link without a limit. -/
structure AssignmentProblem (A L : Type*) where
  pending : A → ℕ
  requiredBitRate : A → ℚ
  requiredDelay : A → ℚ
  requiredErrorRate : A → ℚ
  capacity : L → ℕ∞
  bitRate : L → ℚ
  delay : L → ℚ
  errorPercentage : L → ℚ
  cost : L → ℕ

namespace AssignmentProblem

section

variable {A L : Type*} [Fintype A] [Fintype L] (P : AssignmentProblem A L)

/-- The total of `f` over the packets of one application, `y l` of them on link `l`. -/
def carried (y : L → ℕ) (f : L → ℚ) : ℚ := ∑ l, (y l : ℚ) * f l

def average (x : A → L → ℕ) (a : A) (f : L → ℚ) : ℚ := carried (x a) f / P.pending a

def totalCost (x : A → L → ℕ) : ℕ := ∑ a, ∑ l, x a l * P.cost l

structure Admissible (x : A → L → ℕ) : Prop where
  allSent : ∀ a, ∑ l, x a l = P.pending a
  withinCapacity : ∀ l, ((∑ a, x a l : ℕ) : ℕ∞) ≤ P.capacity l
  bandwidth : ∀ a, 0 < P.pending a → P.requiredBitRate a ≤ P.average x a P.bitRate
  delay : ∀ a, 0 < P.pending a → P.average x a P.delay ≤ P.requiredDelay a
  error : ∀ a, 0 < P.pending a → P.average x a P.errorPercentage ≤ P.requiredErrorRate a

/-- An admissible assignment of least total cost. -/
structure Cheapest (x : A → L → ℕ) : Prop where
  admissible : P.Admissible x
  least : ∀ y, P.Admissible y → P.totalCost x ≤ P.totalCost y

omit [Fintype A] in
theorem le_average_iff {x : A → L → ℕ} {a : A} (h : 0 < P.pending a) (f : L → ℚ) (r : ℚ) :
    r ≤ P.average x a f ↔ r * P.pending a ≤ carried (x a) f :=
  le_div_iff₀ (by exact_mod_cast h)

omit [Fintype A] in
theorem average_le_iff {x : A → L → ℕ} {a : A} (h : 0 < P.pending a) (f : L → ℚ) (r : ℚ) :
    P.average x a f ≤ r ↔ carried (x a) f ≤ r * P.pending a :=
  div_le_iff₀ (by exact_mod_cast h)

theorem carried_eq_zero {y : L → ℕ} (h : ∑ l, y l = 0) (f : L → ℚ) : carried y f = 0 := by
  apply sum_eq_zero
  intro l hl
  rw [sum_eq_zero_iff.mp h l hl, Nat.cast_zero, zero_mul]

theorem carried_nonneg (y : L → ℕ) {f : L → ℚ} (hf : ∀ l, 0 ≤ f l) : 0 ≤ carried y f :=
  sum_nonneg fun l _ => mul_nonneg (Nat.cast_nonneg _) (hf l)

theorem carried_mono (y : L → ℕ) {f g : L → ℚ} (hfg : ∀ l, f l ≤ g l) :
    carried y f ≤ carried y g :=
  sum_le_sum fun l _ => mul_le_mul_of_nonneg_left (hfg l) (Nat.cast_nonneg _)

theorem carried_add (y z : L → ℕ) (f : L → ℚ) :
    carried (fun l => y l + z l) f = carried y f + carried z f := by
  simp only [carried, Nat.cast_add, add_mul, sum_add_distrib]

variable {P}

theorem Admissible.eq_zero {x : A → L → ℕ} (hx : P.Admissible x) {a : A} (ha : P.pending a = 0)
    (l : L) : x a l = 0 :=
  sum_eq_zero_iff.mp ((hx.allSent a).trans ha) l (mem_univ l)

/-- The requirements in the form of totals, also for an application without packets. -/
theorem Admissible.bandwidth_total {x : A → L → ℕ} (hx : P.Admissible x) (a : A) :
    P.requiredBitRate a * P.pending a ≤ carried (x a) P.bitRate := by
  rcases Nat.eq_zero_or_pos (P.pending a) with h | h
  · rw [carried_eq_zero ((hx.allSent a).trans h), h, Nat.cast_zero, mul_zero]
  · exact (P.le_average_iff h _ _).mp (hx.bandwidth a h)

theorem Admissible.delay_total {x : A → L → ℕ} (hx : P.Admissible x) (a : A) :
    carried (x a) P.delay ≤ P.requiredDelay a * P.pending a := by
  rcases Nat.eq_zero_or_pos (P.pending a) with h | h
  · rw [carried_eq_zero ((hx.allSent a).trans h), h, Nat.cast_zero, mul_zero]
  · exact (P.average_le_iff h _ _).mp (hx.delay a h)

theorem Admissible.error_total {x : A → L → ℕ} (hx : P.Admissible x) (a : A) :
    carried (x a) P.errorPercentage ≤ P.requiredErrorRate a * P.pending a := by
  rcases Nat.eq_zero_or_pos (P.pending a) with h | h
  · rw [carried_eq_zero ((hx.allSent a).trans h), h, Nat.cast_zero, mul_zero]
  · exact (P.average_le_iff h _ _).mp (hx.error a h)

/-- The bound on an average also holds where there are no packets to average over. -/
theorem Admissible.average_le {x : A → L → ℕ} (hx : P.Admissible x) (a : A) {f : L → ℚ} {u : ℚ}
    (hu : 0 ≤ u) (h : 0 < P.pending a → P.average x a f ≤ u) : P.average x a f ≤ u := by
  rcases Nat.eq_zero_or_pos (P.pending a) with h0 | hpos
  · rw [average, carried_eq_zero ((hx.allSent a).trans h0), zero_div]
    exact hu
  · exact h hpos

/-- Two optimal assignments cost the same. -/
theorem Cheapest.totalCost_eq {x y : A → L → ℕ} (hx : P.Cheapest x) (hy : P.Cheapest y) :
    P.totalCost x = P.totalCost y :=
  Nat.le_antisymm (hx.least y hy.admissible) (hy.least x hx.admissible)

end

/-! ## From some of the links to all of them -/

section

variable {A L L' : Type*} [Fintype A] [Fintype L] [Fintype L'] [DecidableEq L]

/-- The problem on the links selected by `e`. -/
def onLinks (P : AssignmentProblem A L) (e : L' ↪ L) : AssignmentProblem A L' where
  pending := P.pending
  requiredBitRate := P.requiredBitRate
  requiredDelay := P.requiredDelay
  requiredErrorRate := P.requiredErrorRate
  capacity := fun l => P.capacity (e l)
  bitRate := fun l => P.bitRate (e l)
  delay := fun l => P.delay (e l)
  errorPercentage := fun l => P.errorPercentage (e l)
  cost := fun l => P.cost (e l)

/-- Nothing goes over a link that is not selected. -/
def extend (e : L' ↪ L) (x : A → L' → ℕ) (a : A) (l : L) : ℕ :=
  ∑ l', if e l' = l then x a l' else 0

omit [Fintype A] [Fintype L] in
theorem extend_apply (e : L' ↪ L) (x : A → L' → ℕ) (a : A) (l' : L') :
    extend e x a (e l') = x a l' := by
  rw [extend, sum_eq_single l', if_pos rfl]
  · intro k _ hk
    exact if_neg fun he => hk (e.injective he)
  · exact fun h => absurd (mem_univ l') h

omit [Fintype A] [Fintype L] in
theorem extend_of_notMem (e : L' ↪ L) (x : A → L' → ℕ) (a : A) {l : L} (h : ∀ l', e l' ≠ l) :
    extend e x a l = 0 :=
  sum_eq_zero fun l' _ => if_neg (h l')

omit [Fintype A] in
/-- A weighted sum over all links only sees the selected ones. -/
theorem sum_extend {M : Type*} [AddCommMonoid M] (e : L' ↪ L) (x : A → L' → ℕ) (a : A)
    (w : L → ℕ → M) (hw : ∀ l, w l 0 = 0) :
    ∑ l, w l (extend e x a l) = ∑ l', w (e l') (x a l') := by
  have hsplit : ∑ l, w l (extend e x a l) = ∑ l ∈ univ.map e, w l (extend e x a l) := by
    symm
    apply sum_subset (subset_univ _)
    intro l _ hl
    rw [extend_of_notMem e x a (fun l' he => hl (mem_map.mpr ⟨l', mem_univ _, he⟩)), hw]
  rw [hsplit, sum_map]
  exact sum_congr rfl fun l' _ => by rw [extend_apply]

omit [Fintype A] in
theorem carried_extend (e : L' ↪ L) (x : A → L' → ℕ) (a : A) (f : L → ℚ) :
    carried (extend e x a) f = carried (x a) (fun l' => f (e l')) :=
  sum_extend e x a (fun l n => (n : ℚ) * f l) (by simp)

theorem totalCost_extend (P : AssignmentProblem A L) (e : L' ↪ L) (x : A → L' → ℕ) :
    P.totalCost (extend e x) = (P.onLinks e).totalCost x :=
  sum_congr rfl fun a _ => sum_extend e x a (fun l n => n * P.cost l) (by simp)

/-- An admissible assignment on some links is one on all links. -/
theorem Admissible.extend {P : AssignmentProblem A L} {e : L' ↪ L} {x : A → L' → ℕ}
    (hx : (P.onLinks e).Admissible x) : P.Admissible (AssignmentProblem.extend e x) where
  allSent a := (sum_extend e x a (fun _ n => n) (by simp)).trans (hx.allSent a)
  withinCapacity l := by
    by_cases h : ∃ l', e l' = l
    · obtain ⟨l', rfl⟩ := h
      simp only [extend_apply]
      exact hx.withinCapacity l'
    · have hzero : ∑ a, AssignmentProblem.extend e x a l = 0 :=
        sum_eq_zero fun a _ => extend_of_notMem e x a (fun l' he => h ⟨l', he⟩)
      rw [hzero, Nat.cast_zero]
      exact zero_le
  bandwidth a ha := by
    rw [average, carried_extend]
    exact hx.bandwidth a ha
  delay a ha := by
    rw [average, carried_extend]
    exact hx.delay a ha
  error a ha := by
    rw [average, carried_extend]
    exact hx.error a ha

/-- On all links the optimum is at most that on some of them. -/
theorem Cheapest.le_onLinks {P : AssignmentProblem A L} {e : L' ↪ L} {x : A → L → ℕ}
    {y : A → L' → ℕ} (hx : P.Cheapest x) (hy : (P.onLinks e).Admissible y) :
    P.totalCost x ≤ (P.onLinks e).totalCost y := by
  rw [← totalCost_extend]
  exact hx.least _ hy.extend

end

/-! ## From some of the applications to all of them -/

section

variable {A A' L : Type*} [Fintype A] [Fintype A'] [Fintype L] [DecidableEq A]
  {P : AssignmentProblem A L} {e : A' ↪ A}

/-- The problem of the applications selected by `e`. -/
def onApplications (P : AssignmentProblem A L) (e : A' ↪ A) : AssignmentProblem A' L where
  pending := fun a => P.pending (e a)
  requiredBitRate := fun a => P.requiredBitRate (e a)
  requiredDelay := fun a => P.requiredDelay (e a)
  requiredErrorRate := fun a => P.requiredErrorRate (e a)
  capacity := P.capacity
  bitRate := P.bitRate
  delay := P.delay
  errorPercentage := P.errorPercentage
  cost := P.cost

/-- No packets of an application that is not selected. -/
def extendApplications (e : A' ↪ A) (y : A' → L → ℕ) (a : A) (l : L) : ℕ :=
  extend e (fun l a' => y a' l) l a

omit [Fintype A] [Fintype L] in
theorem extendApplications_apply (e : A' ↪ A) (y : A' → L → ℕ) (a' : A') :
    extendApplications e y (e a') = y a' :=
  funext fun l => extend_apply e (fun l a' => y a' l) l a'

omit [Fintype A] [Fintype L] in
theorem extendApplications_of_notMem (e : A' ↪ A) (y : A' → L → ℕ) {a : A}
    (h : ∀ a', e a' ≠ a) : extendApplications e y a = fun _ => 0 :=
  funext fun l => extend_of_notMem e (fun l a' => y a' l) l h

omit [Fintype L] in
theorem sum_extendApplications (e : A' ↪ A) (y : A' → L → ℕ) (l : L) :
    ∑ a, extendApplications e y a l = ∑ a', y a' l :=
  sum_extend e (fun l a' => y a' l) l (fun _ n => n) fun _ => rfl

theorem totalCost_extendApplications (y : A' → L → ℕ) :
    P.totalCost (extendApplications e y) = (P.onApplications e).totalCost y := by
  calc ∑ a, ∑ l, extendApplications e y a l * P.cost l
      = ∑ l, ∑ a, extendApplications e y a l * P.cost l := sum_comm
    _ = ∑ l, ∑ a', y a' l * P.cost l := sum_congr rfl fun l _ =>
        sum_extend e (fun l a' => y a' l) l (fun _ n => n * P.cost l) fun _ => Nat.zero_mul _
    _ = ∑ a', ∑ l, y a' l * P.cost l := sum_comm

omit [Fintype A] [Fintype L] in
theorem extendApplications_restrict {x : A → L → ℕ}
    (h : ∀ a, (∀ a', e a' ≠ a) → ∀ l, x a l = 0) :
    extendApplications e (fun a' => x (e a')) = x := by
  funext a
  by_cases ha : ∃ a', e a' = a
  · obtain ⟨a', rfl⟩ := ha
    rw [extendApplications_apply]
  · have hnone : ∀ a', e a' ≠ a := fun a' he => ha ⟨a', he⟩
    rw [extendApplications_of_notMem e _ hnone]
    exact funext fun l => (h a hnone l).symm

omit [DecidableEq A] in
/-- An admissible assignment is one of some of the applications. -/
theorem Admissible.restrict {x : A → L → ℕ} (hx : P.Admissible x) :
    (P.onApplications e).Admissible (fun a' => x (e a')) where
  allSent a' := hx.allSent (e a')
  withinCapacity l := by
    have hle : ∑ a', x (e a') l ≤ ∑ a, x a l := by
      rw [← sum_map univ e fun a => x a l]
      exact sum_le_sum_of_subset (subset_univ _)
    exact (Nat.cast_le.mpr hle).trans (hx.withinCapacity l)
  bandwidth a' ha := hx.bandwidth (e a') ha
  delay a' ha := hx.delay (e a') ha
  error a' ha := hx.error (e a') ha

/-- When the other applications have nothing to send, it is one of all of them. -/
theorem Admissible.extendApplications (hidle : ∀ a, (∀ a', e a' ≠ a) → P.pending a = 0)
    {y : A' → L → ℕ} (hy : (P.onApplications e).Admissible y) :
    P.Admissible (AssignmentProblem.extendApplications e y) := by
  have hselected : ∀ a, 0 < P.pending a → ∃ a', e a' = a := by
    intro a ha
    by_contra hnone
    rw [hidle a fun a' he => hnone ⟨a', he⟩] at ha
    exact Nat.lt_irrefl 0 ha
  constructor
  · intro a
    by_cases ha : ∃ a', e a' = a
    · obtain ⟨a', rfl⟩ := ha
      rw [extendApplications_apply]
      exact hy.allSent a'
    · have hnone : ∀ a', e a' ≠ a := fun a' he => ha ⟨a', he⟩
      rw [extendApplications_of_notMem e y hnone, hidle a hnone, sum_const_zero]
  · intro l
    rw [sum_extendApplications]
    exact hy.withinCapacity l
  · intro a ha
    obtain ⟨a', rfl⟩ := hselected a ha
    rw [average, extendApplications_apply]
    exact hy.bandwidth a' ha
  · intro a ha
    obtain ⟨a', rfl⟩ := hselected a ha
    rw [average, extendApplications_apply]
    exact hy.delay a' ha
  · intro a ha
    obtain ⟨a', rfl⟩ := hselected a ha
    rw [average, extendApplications_apply]
    exact hy.error a' ha

theorem Admissible.totalCost_restrict (hidle : ∀ a, (∀ a', e a' ≠ a) → P.pending a = 0)
    {x : A → L → ℕ} (hx : P.Admissible x) :
    (P.onApplications e).totalCost (fun a' => x (e a')) = P.totalCost x := by
  rw [← totalCost_extendApplications, extendApplications_restrict]
  exact fun a ha l => hx.eq_zero (hidle a ha) l

end

/-! ## One link for each application -/

section

variable {A L : Type*} [Fintype L] [DecidableEq L] (P : AssignmentProblem A L)

/-- All packets of an application over the link that it chooses. -/
def alongChoice (choice : A → L) (a : A) (l : L) : ℕ := if choice a = l then P.pending a else 0

/-- The link that an application chooses meets its requirements alone. -/
structure Suits (choice : A → L) : Prop where
  bitRate : ∀ a, P.requiredBitRate a ≤ P.bitRate (choice a)
  delay : ∀ a, P.delay (choice a) ≤ P.requiredDelay a
  errorPercentage : ∀ a, P.errorPercentage (choice a) ≤ P.requiredErrorRate a

variable {P} {choice : A → L}

theorem average_alongChoice {a : A} (ha : 0 < P.pending a) (f : L → ℚ) :
    P.average (P.alongChoice choice) a f = f (choice a) := by
  have hpos : (0 : ℚ) < P.pending a := Nat.cast_pos.mpr ha
  have hcarried : carried (P.alongChoice choice a) f = P.pending a * f (choice a) := by
    rw [carried, sum_eq_single (choice a)]
    · rw [alongChoice, if_pos rfl]
    · intro l _ hl
      rw [alongChoice, if_neg hl.symm, Nat.cast_zero, zero_mul]
    · exact fun hnone => absurd (mem_univ _) hnone
  rw [average, hcarried, mul_div_cancel_left₀ _ hpos.ne']

/-- The choices are admissible if every link has the capacity for those that choose it. -/
theorem Suits.admissible [Fintype A] (h : P.Suits choice)
    (hcapacity : ∀ l, ((∑ a, P.alongChoice choice a l : ℕ) : ℕ∞) ≤ P.capacity l) :
    P.Admissible (P.alongChoice choice) where
  allSent a := (sum_eq_single (choice a)
    (fun _ _ hl => if_neg hl.symm) fun hnone => absurd (mem_univ _) hnone).trans (if_pos rfl)
  withinCapacity := hcapacity
  bandwidth a ha := by
    rw [average_alongChoice ha]
    exact h.bitRate a
  delay a ha := by
    rw [average_alongChoice ha]
    exact h.delay a
  error a ha := by
    rw [average_alongChoice ha]
    exact h.errorPercentage a

omit [DecidableEq L] in
/-- What is pending fits into the links together. -/
theorem Admissible.sum_pending_le [Fintype A] {x : A → L → ℕ} (hx : P.Admissible x) {c : L → ℕ}
    (hc : ∀ l, P.capacity l = c l) : ∑ a, P.pending a ≤ ∑ l, c l := by
  calc ∑ a, P.pending a = ∑ a, ∑ l, x a l := sum_congr rfl fun a _ => (hx.allSent a).symm
    _ = ∑ l, ∑ a, x a l := sum_comm
    _ ≤ ∑ l, c l := sum_le_sum fun l _ => by
      have hle := hx.withinCapacity l
      rw [hc l] at hle
      exact_mod_cast hle

end

/-! ## Several rounds -/

section

variable {A L : Type*} [Fintype A] [Fintype L] (P : AssignmentProblem A L)

/-- The requirements in the form of totals, for `sent a` packets of each application. -/
structure Meets (sent : A → ℕ) (y : A → L → ℕ) : Prop where
  allSent : ∀ a, ∑ l, y a l = sent a
  bandwidth : ∀ a, P.requiredBitRate a * sent a ≤ carried (y a) P.bitRate
  delay : ∀ a, carried (y a) P.delay ≤ P.requiredDelay a * sent a
  error : ∀ a, carried (y a) P.errorPercentage ≤ P.requiredErrorRate a * sent a

variable {P}

omit [Fintype A] in
theorem Meets.zero : P.Meets (fun _ => 0) (fun _ _ => 0) where
  allSent a := sum_const_zero
  bandwidth a := by simp [carried]
  delay a := by simp [carried]
  error a := by simp [carried]

omit [Fintype A] in
/-- Assignments of several rounds add up. -/
theorem Meets.add {sent sent' : A → ℕ} {y y' : A → L → ℕ} (h : P.Meets sent y)
    (h' : P.Meets sent' y') :
    P.Meets (fun a => sent a + sent' a) (fun a l => y a l + y' a l) where
  allSent a := by rw [sum_add_distrib, h.allSent, h'.allSent]
  bandwidth a := by
    rw [carried_add, Nat.cast_add, mul_add]
    exact add_le_add (h.bandwidth a) (h'.bandwidth a)
  delay a := by
    rw [carried_add, Nat.cast_add, mul_add]
    exact add_le_add (h.delay a) (h'.delay a)
  error a := by
    rw [carried_add, Nat.cast_add, mul_add]
    exact add_le_add (h.error a) (h'.error a)

omit [Fintype A] in
/-- The assignments of any number of rounds add up. -/
theorem Meets.sum {R : Type*} {rounds : List R} {sent : R → A → ℕ} {y : R → A → L → ℕ}
    (h : ∀ r ∈ rounds, P.Meets (sent r) (y r)) :
    P.Meets (fun a => (rounds.map fun r => sent r a).sum)
      (fun a l => (rounds.map fun r => y r a l).sum) := by
  induction rounds with
  | nil => exact .zero
  | cons r rounds ih =>
    rw [List.forall_mem_cons] at h
    simpa only [List.map_cons, List.sum_cons] using h.1.add (ih h.2)

theorem totalCost_add (P : AssignmentProblem A L) (y y' : A → L → ℕ) :
    P.totalCost (fun a l => y a l + y' a l) = P.totalCost y + P.totalCost y' := by
  simp only [totalCost, add_mul, sum_add_distrib]

/-- Without capacities, what meets the totals of all pending packets is admissible. -/
theorem Meets.admissible {y : A → L → ℕ} (h : P.Meets P.pending y) (hcap : ∀ l, P.capacity l = ⊤) :
    P.Admissible y where
  allSent := h.allSent
  withinCapacity l := by
    rw [hcap]
    exact le_top
  bandwidth a ha := (P.le_average_iff ha _ _).mpr (h.bandwidth a)
  delay a ha := (P.average_le_iff ha _ _).mpr (h.delay a)
  error a ha := (P.average_le_iff ha _ _).mpr (h.error a)

end

/-! ## Other names for the applications and the links -/

section

variable {A A' L L' : Type*} [Fintype L] [Fintype L'] {P : AssignmentProblem A L}
  {Q : AssignmentProblem A' L'} {eA : A' ≃ A} {eL : L' ≃ L}

/-- Under other names for the applications and the links, `Q` requires what `P` requires, and its
links are those of `P`, with delays that are not larger. -/
structure Relaxes (P : AssignmentProblem A L) (Q : AssignmentProblem A' L') (eA : A' ≃ A)
    (eL : L' ≃ L) : Prop where
  requiredBitRate : ∀ a, Q.requiredBitRate a = P.requiredBitRate (eA a)
  requiredDelay : ∀ a, Q.requiredDelay a = P.requiredDelay (eA a)
  requiredErrorRate : ∀ a, Q.requiredErrorRate a = P.requiredErrorRate (eA a)
  bitRate : ∀ l, Q.bitRate l = P.bitRate (eL l)
  delay : ∀ l, Q.delay l ≤ P.delay (eL l)
  errorPercentage : ∀ l, Q.errorPercentage l = P.errorPercentage (eL l)
  cost : ∀ l, Q.cost l = P.cost (eL l)

theorem carried_comp (eL : L' ≃ L) (y : L → ℕ) (f : L → ℚ) :
    carried (fun l => y (eL l)) (fun l => f (eL l)) = carried y f :=
  Equiv.sum_comp eL fun l => (y l : ℚ) * f l

/-- What is admissible for `P` meets the requirements of `Q`. -/
theorem Relaxes.meets [Fintype A] (h : Relaxes P Q eA eL) {x : A → L → ℕ}
    (hx : P.Admissible x) :
    Q.Meets (fun a => P.pending (eA a)) (fun a l => x (eA a) (eL l)) where
  allSent a := (Equiv.sum_comp eL (x (eA a))).trans (hx.allSent (eA a))
  bandwidth a := by
    rw [h.requiredBitRate, funext h.bitRate, carried_comp]
    exact hx.bandwidth_total (eA a)
  delay a := by
    have hmono := carried_mono (fun l => x (eA a) (eL l)) h.delay
    rw [carried_comp] at hmono
    rw [h.requiredDelay]
    exact hmono.trans (hx.delay_total (eA a))
  error a := by
    rw [h.requiredErrorRate, funext h.errorPercentage, carried_comp]
    exact hx.error_total (eA a)

theorem Relaxes.totalCost_eq [Fintype A] [Fintype A'] (h : Relaxes P Q eA eL) (x : A → L → ℕ) :
    Q.totalCost (fun a l => x (eA a) (eL l)) = P.totalCost x := by
  simp only [totalCost, h.cost]
  rw [Equiv.sum_comp eA fun a => ∑ l, x a (eL l) * P.cost (eL l)]
  exact sum_congr rfl fun a _ => Equiv.sum_comp eL fun l => x a l * P.cost l

/-- What is admissible for `P` is admissible for `Q`, if the packets are the same and the links of
`Q` carry as many of them. -/
theorem Relaxes.admissible [Fintype A] [Fintype A'] (h : Relaxes P Q eA eL)
    (hpending : ∀ a, Q.pending a = P.pending (eA a))
    (hcapacity : ∀ l, P.capacity (eL l) ≤ Q.capacity l) {x : A → L → ℕ} (hx : P.Admissible x) :
    Q.Admissible fun a l => x (eA a) (eL l) := by
  have hmeets := h.meets hx
  rw [← funext hpending] at hmeets
  constructor
  · exact hmeets.allSent
  · intro l
    rw [Equiv.sum_comp eA fun a => x a (eL l)]
    exact (hx.withinCapacity (eL l)).trans (hcapacity l)
  · exact fun a ha => (Q.le_average_iff ha _ _).mpr (hmeets.bandwidth a)
  · exact fun a ha => (Q.average_le_iff ha _ _).mpr (hmeets.delay a)
  · exact fun a ha => (Q.average_le_iff ha _ _).mpr (hmeets.error a)

/-- What the admissible assignments cost. -/
def costs [Fintype A] (P : AssignmentProblem A L) : Set ℕ :=
  {c | ∃ x, P.Admissible x ∧ P.totalCost x = c}

theorem Cheapest.isLeast [Fintype A] {x : A → L → ℕ} (hx : P.Cheapest x) :
    IsLeast P.costs (P.totalCost x) := by
  refine ⟨⟨x, hx.admissible, rfl⟩, ?_⟩
  rintro c ⟨y, hy, rfl⟩
  exact hx.least y hy

theorem Relaxes.costs_subset [Fintype A] [Fintype A'] (h : Relaxes P Q eA eL)
    (hpending : ∀ a, Q.pending a = P.pending (eA a))
    (hcapacity : ∀ l, P.capacity (eL l) ≤ Q.capacity l) : P.costs ⊆ Q.costs := by
  rintro c ⟨x, hx, rfl⟩
  exact ⟨_, h.admissible hpending hcapacity hx, h.totalCost_eq x⟩

end

end AssignmentProblem

end SdWan
