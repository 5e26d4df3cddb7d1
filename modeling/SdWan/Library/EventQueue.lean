import Mathlib.Data.List.MinMax
import Mathlib.Data.Prod.Lex
import Mathlib.Tactic

/-!
# Queues of timed events

Every scheduled event has a time and a serial number. The next event is the one of least time,
and among those of the same time the one scheduled first. `Scheduled` states that serial numbers
identify the pending events, which the operations keep.
-/

structure EventQueue.Event (T H : Type*) where
  ts : T
  uid : ℕ
  handler : H
  deriving DecidableEq

structure EventQueue (T H : Type*) where
  events : List (EventQueue.Event T H) := []
  nextUid : ℕ := 0

namespace EventQueue

variable {T H : Type*}

def schedule (q : EventQueue T H) (ts : T) (handler : H) : EventQueue T H where
  events := q.events ++ [⟨ts, q.nextUid, handler⟩]
  nextUid := q.nextUid + 1

/-- The queue once an event has been taken out to run. -/
def remove (q : EventQueue T H) (e : Event T H) : EventQueue T H :=
  { q with events := q.events.filter fun e' => decide (e'.uid ≠ e.uid) }

/-- `e` comes before `e'`. -/
def Event.Before [LT T] (e e' : Event T H) : Prop := e.ts < e'.ts ∨ e.ts = e'.ts ∧ e.uid ≤ e'.uid

structure IsNext [LT T] (q : EventQueue T H) (e : Event T H) : Prop where
  mem : e ∈ q.events
  first : ∀ e' ∈ q.events, e.Before e'

theorem IsNext.ts_le [Preorder T] {q : EventQueue T H} {e e' : Event T H} (h : q.IsNext e)
    (he' : e' ∈ q.events) : e.ts ≤ e'.ts := by
  rcases h.first e' he' with hlt | ⟨heq, -⟩
  · exact hlt.le
  · exact heq.le

/-- The next event, if one is pending. -/
def next? [LinearOrder T] (q : EventQueue T H) : Option (Event T H) :=
  q.events.argmin fun e => toLex (e.ts, e.uid)

theorem isNext_of_next? [LinearOrder T] {q : EventQueue T H} {e : Event T H}
    (h : q.next? = some e) : q.IsNext e where
  mem := List.argmin_mem h
  first e' he' := by
    have hle := List.le_of_mem_argmin he' h
    rcases Prod.Lex.toLex_le_toLex.mp hle with hlt | ⟨heq, huid⟩
    · exact .inl hlt
    · exact .inr ⟨heq, huid⟩

/-- Some event is next while any is pending. -/
theorem exists_isNext [LinearOrder T] {q : EventQueue T H} {e : Event T H} (he : e ∈ q.events) :
    ∃ e', q.IsNext e' := by
  cases hnext : q.next? with
  | none =>
    rw [next?, List.argmin_eq_none] at hnext
    rw [hnext] at he
    cases he
  | some e' => exact ⟨e', isNext_of_next? hnext⟩

structure Scheduled (q : EventQueue T H) : Prop where
  uid_lt : ∀ e ∈ q.events, e.uid < q.nextUid
  uid_injective : ∀ e ∈ q.events, ∀ e' ∈ q.events, e.uid = e'.uid → e = e'

@[simp] theorem mem_schedule {q : EventQueue T H} {ts : T} {handler : H} {e : Event T H} :
    e ∈ (q.schedule ts handler).events ↔ e ∈ q.events ∨ e = ⟨ts, q.nextUid, handler⟩ := by
  simp [schedule]

@[simp] theorem mem_remove {q : EventQueue T H} {e e' : Event T H} :
    e' ∈ (q.remove e).events ↔ e' ∈ q.events ∧ e'.uid ≠ e.uid := by
  simp [remove]

theorem scheduled_empty : Scheduled ({} : EventQueue T H) where
  uid_lt e he := by cases he
  uid_injective e he := by cases he

theorem Scheduled.schedule {q : EventQueue T H} (h : q.Scheduled) (ts : T) (handler : H) :
    (q.schedule ts handler).Scheduled where
  uid_lt e he := by
    rcases mem_schedule.mp he with he | rfl
    · exact Nat.lt_succ_of_lt (h.uid_lt e he)
    · exact Nat.lt_succ_self _
  uid_injective e he e' he' heq := by
    rcases mem_schedule.mp he with he | rfl <;> rcases mem_schedule.mp he' with he' | rfl
    · exact h.uid_injective e he e' he' heq
    · exact absurd heq (h.uid_lt e he).ne
    · exact absurd heq (h.uid_lt e' he').ne'
    · rfl

theorem Scheduled.remove {q : EventQueue T H} (h : q.Scheduled) (e : Event T H) :
    (q.remove e).Scheduled where
  uid_lt e' he' := h.uid_lt e' (mem_remove.mp he').1
  uid_injective e' he' e'' he'' :=
    h.uid_injective e' (mem_remove.mp he').1 e'' (mem_remove.mp he'').1

/-- An event that is not the removed one stays. -/
theorem Scheduled.mem_remove_of_ne {q : EventQueue T H} (h : q.Scheduled) {e e' : Event T H}
    (he : e ∈ q.events) (he' : e' ∈ q.events) (hne : e' ≠ e) : e' ∈ (q.remove e).events :=
  mem_remove.mpr ⟨he', fun heq => hne (h.uid_injective e' he' e he heq)⟩

end EventQueue
