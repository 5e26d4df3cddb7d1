import Mathlib.Algebra.Order.Field.Basic
import SdWan.Library.EventQueue

/-!
# Queues between fills and polls

A queue is filled at the event `c`, and every poll `e` takes one item and schedules the next poll
`interval` later. `InTime` states that the polls before the next fill suffice for the backlog, also
when a poll and the fill fall on the same time and the serial numbers decide. A fill of at most
`capacity` items restores it when `capacity` intervals fit between two fills.

`Clears` bounds the polls from the other side: the backlog, with all items that may still join it,
is polled away by a deadline.
-/

namespace EventQueue

variable {K H : Type*} [Field K] [LinearOrder K] [IsStrictOrderedRing K]

structure InTime (interval : K) (backlog : ℕ) (c e : Event K H) : Prop where
  close : e.ts < c.ts + interval
  first : e.uid < c.uid → e.ts < c.ts
  inTime : ∀ n, backlog = n + 1 → e.ts + n * interval < c.ts

namespace InTime

variable {interval period t : K} {backlog backlog' capacity uid : ℕ} {c e : Event K H} {handler : H}

omit [IsStrictOrderedRing K] in
/-- A poll that runs before the fill has an earlier time. -/
theorem ts_lt (h : InTime interval backlog c e) (hbefore : e.Before c) (hne : e.uid ≠ c.uid) :
    e.ts < c.ts := by
  rcases hbefore with hlt | ⟨-, hle⟩
  · exact hlt
  · exact h.first (by omega)

theorem ts_lt_of_pos (h : InTime interval backlog c e) (hinterval : 0 ≤ interval)
    (hpos : 0 < backlog) : e.ts < c.ts := by
  have hlast := h.inTime (backlog - 1) (by omega)
  have hwait : 0 ≤ ((backlog - 1 : ℕ) : K) * interval := mul_nonneg (Nat.cast_nonneg _) hinterval
  linarith

/-- A fill that runs before the next poll finds the queue empty. -/
theorem eq_zero (h : InTime interval backlog c e) (hinterval : 0 ≤ interval)
    (hbefore : c.Before e) : backlog = 0 := by
  by_contra hne
  have hlt := h.ts_lt_of_pos hinterval (by omega)
  rcases hbefore with hgt | ⟨heq, -⟩
  · exact absurd hlt hgt.le.not_gt
  · exact absurd heq hlt.ne'

theorem poll (h : InTime interval backlog c e) (hlt : e.ts < c.ts) (huid : c.uid < uid) :
    InTime interval (backlog - 1) c ⟨e.ts + interval, uid, handler⟩ where
  close := by simpa using hlt
  first hle := absurd hle (by simpa using huid.le)
  inTime n hn := by
    have hlast := h.inTime (n + 1) (by omega)
    push_cast at hlast
    change e.ts + interval + n * interval < c.ts
    linarith

theorem of_le (h : InTime interval backlog c e) (hinterval : 0 ≤ interval)
    (hle : backlog' ≤ backlog) : InTime interval backlog' c e where
  close := h.close
  first := h.first
  inTime n hn := by
    have hlast := h.inTime (backlog - 1) (by omega)
    have hmono : (n : K) * interval ≤ ((backlog - 1 : ℕ) : K) * interval :=
      mul_le_mul_of_nonneg_right (Nat.cast_le.mpr (by omega)) hinterval
    linarith

/-- A fill at time `t`, when the next poll is less than one interval away. -/
theorem fill (hclose : e.ts < t + interval) (hinterval : 0 < interval) (hcapacity : 0 < capacity)
    (hfit : capacity * interval ≤ period) (hle : backlog ≤ capacity) :
    InTime interval backlog ⟨t + period, uid, handler⟩ e where
  close := by
    have hperiod : 0 ≤ period := (mul_nonneg (Nat.cast_nonneg _) hinterval.le).trans hfit
    change e.ts < t + period + interval
    linarith
  first _ := by
    have hone : interval ≤ capacity * interval :=
      le_mul_of_one_le_left hinterval.le (Nat.one_le_cast.mpr hcapacity)
    change e.ts < t + period
    linarith
  inTime n hn := by
    have hlast : ((n : K) + 1) * interval ≤ capacity * interval := by
      apply mul_le_mul_of_nonneg_right _ hinterval.le
      exact_mod_cast show n + 1 ≤ capacity by omega
    change e.ts + n * interval < t + period
    linarith

end InTime

/-! ## Deadlines -/

/-- A backlog is polled away by the deadline, even if all of the items left join it. -/
def Clears (interval deadline : K) (backlog left : ℕ) (e : Event K H) : Prop :=
  0 < backlog → e.ts + (backlog + left : ℕ) * interval ≤ deadline

namespace Clears

variable {interval deadline : K} {backlog backlog' left left' n uid : ℕ} {e : Event K H}
  {handler : H}

omit [IsStrictOrderedRing K] in
theorem poll (h : Clears interval deadline backlog left e) :
    Clears interval deadline (backlog - 1) left ⟨e.ts + interval, uid, handler⟩ := by
  intro hpos
  have hnow := h (by omega)
  have hone : backlog + left = (backlog - 1 + left) + 1 := by omega
  rw [hone, Nat.cast_add_one, add_mul, one_mul] at hnow
  calc e.ts + interval + (backlog - 1 + left : ℕ) * interval
      = e.ts + ((backlog - 1 + left : ℕ) * interval + interval) := by ring
    _ ≤ deadline := hnow

theorem of_le (h : Clears interval deadline backlog left e) (hinterval : 0 ≤ interval)
    (hle : backlog' ≤ backlog) : Clears interval deadline backlog' left e := by
  intro hpos
  have hnow := h (by omega)
  have hmono : ((backlog' + left : ℕ) : K) * interval ≤ (backlog + left : ℕ) * interval :=
    mul_le_mul_of_nonneg_right (Nat.cast_le.mpr (by omega)) hinterval
  linarith

/-- Some of the items left join the backlog. -/
theorem fill (h : Clears interval deadline backlog left e) (hinterval : 0 ≤ interval)
    (hmoved : n + left' ≤ left) (hfirst : 0 < n → e.ts + left * interval ≤ deadline) :
    Clears interval deadline (backlog + n) left' e := by
  intro hpos
  by_cases hbacklog : 0 < backlog
  · have hnow := h hbacklog
    have hmono : ((backlog + n + left' : ℕ) : K) * interval ≤ (backlog + left : ℕ) * interval :=
      mul_le_mul_of_nonneg_right (Nat.cast_le.mpr (by omega)) hinterval
    linarith
  · have hnow := hfirst (by omega)
    have hmono : ((backlog + n + left' : ℕ) : K) * interval ≤ (left : ℕ) * interval :=
      mul_le_mul_of_nonneg_right (Nat.cast_le.mpr (by omega)) hinterval
    linarith

/-- The next poll is not after the deadline. -/
theorem ts_le (h : Clears interval deadline backlog left e) (hinterval : 0 ≤ interval)
    (hpos : 0 < backlog) : e.ts ≤ deadline :=
  (le_add_of_nonneg_right (mul_nonneg (Nat.cast_nonneg _) hinterval)).trans (h hpos)

end Clears

end EventQueue
