import SdWan.Library.EventQueue

/-!
# Periodic events

Every handler has a period: its event may schedule itself again, one period later. Then the events
of a handler have run at `start`, `start + period`, `start + 2 • period` and so on, the pending one
is the next of these, and time never goes back. `OnGrid` states this for the events that have run;
`OnGrid.fires` is the step.
-/

namespace EventQueue

variable {T H : Type*} [DecidableEq H]

/-- The times at which the events of a handler have run, the oldest first. -/
def ticks (h : H) (fired : List (T × H)) : List T :=
  (fired.filter fun f => decide (f.2 = h)).map Prod.fst

theorem ticks_append (h : H) (fired fired' : List (T × H)) :
    ticks h (fired ++ fired') = ticks h fired ++ ticks h fired' := by
  rw [ticks, List.filter_append, List.map_append]
  rfl

@[simp] theorem ticks_singleton (h h' : H) (t : T) :
    ticks h [(t, h')] = if h' = h then [t] else [] := by
  by_cases heq : h' = h <;> simp [ticks, heq]

variable [AddCommGroup T] [LinearOrder T]

/-- The events that have run, and the pending ones, are on the grid of their handlers. -/
structure OnGrid (start : T) (period : H → T) (fired : List (T × H)) (q : EventQueue T H) :
    Prop where
  scheduled : q.Scheduled
  sorted : (fired.map Prod.fst).Pairwise (· ≤ ·)
  later : ∀ f ∈ fired, ∀ e ∈ q.events, f.1 ≤ e.ts
  once : ∀ e ∈ q.events, ∀ e' ∈ q.events, e.handler = e'.handler → e = e'
  ticks_eq : ∀ h, ticks h fired =
    (List.range (ticks h fired).length).map fun k => start + k • period h
  pending : ∀ e ∈ q.events, e.ts = start + (ticks e.handler fired).length • period e.handler

variable {start : T} {period : H → T} {fired : List (T × H)} {q : EventQueue T H}

theorem OnGrid.remove (h : OnGrid start period fired q) {e : Event T H} (he : e ∈ q.events) :
    OnGrid start period fired (q.remove e) ∧
      ∀ e' ∈ (q.remove e).events, e'.handler ≠ e.handler := by
  refine ⟨⟨h.scheduled.remove e, h.sorted, ?_, ?_, h.ticks_eq, ?_⟩, ?_⟩
  · exact fun f hf e' he' => h.later f hf e' (mem_remove.mp he').1
  · exact fun e₁ h₁ e₂ h₂ => h.once e₁ (mem_remove.mp h₁).1 e₂ (mem_remove.mp h₂).1
  · exact fun e' he' => h.pending e' (mem_remove.mp he').1
  · intro e' he' heq
    obtain ⟨hmem, huid⟩ := mem_remove.mp he'
    exact huid (congrArg _ (h.once e' hmem e he heq))

/-- An event has run at its time `t`, and none of its handler is pending. -/
theorem OnGrid.run (h : OnGrid start period fired q) {t : T} {handler : H}
    (hnone : ∀ e ∈ q.events, e.handler ≠ handler) (hfirst : ∀ e ∈ q.events, t ≤ e.ts)
    (hlast : ∀ f ∈ fired, f.1 ≤ t)
    (ht : t = start + (ticks handler fired).length • period handler) :
    OnGrid start period (fired ++ [(t, handler)]) q := by
  refine ⟨h.scheduled, ?_, ?_, h.once, fun handler' => ?_, fun e he => ?_⟩
  · rw [List.map_append, List.pairwise_append]
    refine ⟨h.sorted, List.pairwise_singleton _ _, fun a ha b hb => ?_⟩
    obtain ⟨f, hf, rfl⟩ := List.mem_map.mp ha
    rw [List.mem_singleton.mp hb]
    exact hlast f hf
  · intro f hf e he
    rcases List.mem_append.mp hf with hf | hf
    · exact h.later f hf e he
    · rw [List.mem_singleton.mp hf]
      exact hfirst e he
  · rw [ticks_append, ticks_singleton]
    by_cases heq : handler = handler'
    · subst heq
      rw [if_pos rfl, List.length_append, List.length_singleton, List.range_succ, List.map_append,
        ← h.ticks_eq, List.map_singleton, ht]
    · rw [if_neg heq, List.append_nil]
      exact h.ticks_eq handler'
  · rw [ticks_append, ticks_singleton, if_neg (Ne.symm (hnone e he)), List.append_nil]
    exact h.pending e he

variable [IsOrderedAddMonoid T]

/-- The event that has just run schedules itself again, one period later. -/
theorem OnGrid.schedule {t : T} {handler : H}
    (h : OnGrid start period (fired ++ [(t, handler)]) q)
    (hnone : ∀ e ∈ q.events, e.handler ≠ handler) (hlast : ∀ f ∈ fired, f.1 ≤ t)
    (hperiod : 0 ≤ period handler)
    (ht : t = start + (ticks handler fired).length • period handler) :
    OnGrid start period (fired ++ [(t, handler)])
      (q.schedule (t + period handler) handler) := by
  refine ⟨h.scheduled.schedule _ _, h.sorted, ?_, ?_, h.ticks_eq, ?_⟩
  · intro f hf e he
    rcases mem_schedule.mp he with he | rfl
    · exact h.later f hf e he
    · have hle : f.1 ≤ t := by
        rcases List.mem_append.mp hf with hf | hf
        · exact hlast f hf
        · rw [List.mem_singleton.mp hf]
      exact hle.trans (le_add_of_nonneg_right hperiod)
  · intro e he e' he' heq
    rcases mem_schedule.mp he with he | rfl
    · rcases mem_schedule.mp he' with he' | rfl
      · exact h.once e he e' he' heq
      · exact absurd heq (hnone e he)
    · rcases mem_schedule.mp he' with he' | rfl
      · exact absurd heq.symm (hnone e' he')
      · rfl
  · intro e he
    rcases mem_schedule.mp he with he | rfl
    · exact h.pending e he
    · rw [ticks_append, ticks_singleton, if_pos rfl, List.length_append, List.length_singleton,
        succ_nsmul, ← add_assoc, ← ht]

/-- What running the next event may do to the queue. -/
inductive Fires (period : H → T) (q : EventQueue T H) (e : Event T H) : EventQueue T H → Prop
  | ends : Fires period q e (q.remove e)
  | again : Fires period q e ((q.remove e).schedule (e.ts + period e.handler) e.handler)

/-- Running the next event keeps the grid. -/
theorem OnGrid.fires (h : OnGrid start period fired q) {e : Event T H} (hnext : q.IsNext e)
    (hperiod : 0 ≤ period e.handler) {q' : EventQueue T H} (hfires : Fires period q e q') :
    OnGrid start period (fired ++ [(e.ts, e.handler)]) q' := by
  obtain ⟨hremoved, hnone⟩ := h.remove hnext.mem
  have hfired := hremoved.run hnone (fun e' he' => hnext.ts_le (mem_remove.mp he').1)
    (fun f hf => h.later f hf e hnext.mem) (h.pending e hnext.mem)
  cases hfires with
  | ends => exact hfired
  | again =>
    exact hfired.schedule hnone (fun f hf => h.later f hf e hnext.mem) hperiod
      (h.pending e hnext.mem)

omit [DecidableEq H]

/-! ## Points that keep their distance -/

/-- Points at least `gap` apart in an interval of length `u - t` are few. -/
theorem length_nsmul_le_of_spaced {gap t u : T} {xs : List T}
    (hspaced : xs.Pairwise fun a b => a + gap ≤ b) (hlower : ∀ x ∈ xs, t ≤ x)
    (hupper : ∀ x ∈ xs, x ≤ u) (hgap : 0 ≤ gap) (htu : t ≤ u) :
    t + xs.length • gap ≤ u + gap := by
  induction xs generalizing t with
  | nil =>
    rw [List.length_nil, zero_nsmul, add_zero]
    exact htu.trans (le_add_of_nonneg_right hgap)
  | cons x xs ih =>
    rw [List.forall_mem_cons] at hlower hupper
    obtain ⟨hfirst, hrest⟩ := List.pairwise_cons.mp hspaced
    cases xs with
    | nil =>
      rw [List.length_singleton, one_nsmul]
      exact add_le_add_left htu gap
    | cons y ys =>
      have hlower' : ∀ z ∈ y :: ys, t + gap ≤ z := fun z hz =>
        (add_le_add_left hlower.1 gap).trans (hfirst z hz)
      have htu' : t + gap ≤ u :=
        (hlower' y List.mem_cons_self).trans (hupper.2 y List.mem_cons_self)
      have hle := ih hrest hlower' hupper.2 htu'
      rw [List.length_cons, succ_nsmul']
      rwa [add_assoc] at hle

/-- The points of a grid keep its period as their distance. -/
theorem spaced_grid (start : T) {period : T} (hperiod : 0 ≤ period) (n : ℕ) :
    ((List.range n).map fun k => start + k • period).Pairwise fun a b => a + period ≤ b := by
  rw [List.pairwise_map]
  refine List.pairwise_lt_range.imp fun {a b} hab => ?_
  rw [add_assoc, ← succ_nsmul]
  exact add_le_add_right (nsmul_le_nsmul_left hperiod hab) start

end EventQueue
