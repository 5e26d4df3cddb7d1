import Mathlib.Algebra.Order.Floor.Semiring
import SdWan.Library.EventQueue

/-!
# Events that repeat until a horizon

Every handler repeats its event after an interval of its own. `turns` counts how often an event can
still run when it is repeated up to the horizon only. An event that runs lowers the turns of the
queue, whether it is repeated or not.
-/

namespace EventQueue

variable {K H : Type*} [Field K] [LinearOrder K] [IsStrictOrderedRing K] [FloorSemiring K]
  (interval : H → K) (horizon : K)

/-- The turns of one event, at least one. -/
def turns (e : Event K H) : ℕ :=
  ⌊(horizon + interval e.handler - e.ts) / interval e.handler⌋₊ + 1

def totalTurns (q : EventQueue K H) : ℕ := (q.events.map (turns interval horizon)).sum

section

variable {q : EventQueue K H} {e : Event K H}

/-- A repeated event has one turn less. -/
theorem turns_again (hinterval : 0 < interval e.handler) (hts : e.ts ≤ horizon) (uid : ℕ) :
    turns interval horizon ⟨e.ts + interval e.handler, uid, e.handler⟩ + 1 =
      turns interval horizon e := by
  have hleft : 0 ≤ (horizon - e.ts) / interval e.handler :=
    div_nonneg (sub_nonneg.mpr hts) hinterval.le
  have hnow : (horizon + interval e.handler - e.ts) / interval e.handler =
      (horizon - e.ts) / interval e.handler + 1 := by
    rw [add_sub_right_comm, add_div, div_self hinterval.ne']
  have hagain : (horizon + interval e.handler - (e.ts + interval e.handler)) /
      interval e.handler = (horizon - e.ts) / interval e.handler := by
    rw [add_sub_add_right_eq_sub]
  simp only [turns]
  rw [hnow, hagain, Nat.floor_add_one hleft]

omit [IsStrictOrderedRing K] in
theorem totalTurns_schedule (ts : K) (handler : H) :
    (q.schedule ts handler).totalTurns interval horizon =
      q.totalTurns interval horizon + turns interval horizon ⟨ts, q.nextUid, handler⟩ := by
  simp [totalTurns, schedule]

omit [IsStrictOrderedRing K] in
theorem totalTurns_remove_add_le (he : e ∈ q.events) :
    (q.remove e).totalTurns interval horizon + turns interval horizon e ≤
      q.totalTurns interval horizon := by
  have hle : ∀ events : List (Event K H),
      ((events.filter fun e' => decide (e'.uid ≠ e.uid)).map (turns interval horizon)).sum ≤
        (events.map (turns interval horizon)).sum := fun events =>
    (List.filter_sublist.map _).sum_le_sum fun _ _ => Nat.zero_le _
  obtain ⟨before, after, hsplit⟩ := List.append_of_mem he
  have hbefore := hle before
  have hafter := hle after
  simp only [totalTurns, remove, hsplit]
  rw [List.filter_append, List.filter_cons_of_neg (by simp)]
  simp only [List.map_append, List.map_cons, List.sum_append, List.sum_cons]
  omega

omit [IsStrictOrderedRing K] in
/-- An event that runs and is not repeated. -/
theorem totalTurns_remove_lt (he : e ∈ q.events) :
    (q.remove e).totalTurns interval horizon < q.totalTurns interval horizon := by
  have hle := totalTurns_remove_add_le interval horizon he
  have hpos : 0 < turns interval horizon e := Nat.succ_pos _
  omega

/-- An event that runs before the horizon and is repeated. -/
theorem totalTurns_repeat_lt (he : e ∈ q.events) (hinterval : 0 < interval e.handler)
    (hts : e.ts ≤ horizon) :
    ((q.remove e).schedule (e.ts + interval e.handler) e.handler).totalTurns interval horizon <
      q.totalTurns interval horizon := by
  have hle := totalTurns_remove_add_le interval horizon he
  have hagain := turns_again interval horizon hinterval hts (q.remove e).nextUid
  rw [totalTurns_schedule]
  omega

end

/-- The queue with all times later by `t`. -/
def delay (t : K) (q : EventQueue K H) : EventQueue K H :=
  { q with events := q.events.map fun e => { e with ts := t + e.ts } }

omit [IsStrictOrderedRing K] in
theorem totalTurns_delay (t : K) (q : EventQueue K H) :
    (q.delay t).totalTurns interval (t + horizon) = q.totalTurns interval horizon := by
  rw [totalTurns, totalTurns, delay, List.map_map]
  congr 1
  apply List.map_congr_left
  intro e _
  simp only [Function.comp_apply, turns]
  rw [add_assoc, add_sub_add_left_eq_sub]

end EventQueue
