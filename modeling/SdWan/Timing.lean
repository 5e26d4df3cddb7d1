import SdWan.Refinement
import SdWan.Termination
import SdWan.Library.PeriodicEvents

/-!
# When the events run

In the order of the simulator, every loop is periodic: the computations are one second apart and the
polls of an interface one transmission time, whatever the sockets answer. So no interface hands out
packets faster than its rate, and a packet in a queue leaves at the poll that its position says.
-/

open IntegerProgram EventQueue

namespace SdWan

/-- The handler of the event that did it. -/
def Action.handler : Action → Handler
  | .computed _ _ _ => .computeStrategyAndContinue
  | .ended l => .sendPacket l
  | .idle l => .sendPacket l
  | .taken _ l _ _ => .sendPacket l

namespace SenderApplication

/-- The next event runs at its own time. The label has this time and what the event did. -/
def ClockStep (env : Environment) (x : SenderApplication) (s : Time × Action)
    (y : SenderApplication) : Prop :=
  ∃ poll e, x.simulator.IsNext e ∧ s.1 = e.ts ∧ run env e.ts poll e x = .ok (s.2, y)

/-- Runs of the simulator from a given time on. -/
abbrev ClockedRuns (env : Environment) (start : Time) (setup : Setup) :
    List (Time × Action) → SenderApplication → Prop :=
  Transition.Reaches
    (fun s x => s.1 = start ∧ startApplication env start setup = .ok (s.2, x)) (ClockStep env)

/-- The times and the handlers of the events of a run. -/
def firings (as : List (Time × Action)) : List (Time × Handler) :=
  as.map fun s => (s.1, s.2.handler)

variable {env : Environment} {start : Time} {setup : Setup} {as : List (Time × Action)}
  {x y : SenderApplication} {s : Time × Action}

theorem ClockStep.step (h : ClockStep env x s y) : Step env x s.2 y := by
  obtain ⟨poll, e, hnext, -, hrun⟩ := h
  exact ⟨e.ts, poll, e, hnext.mem, hrun⟩

theorem runs_of_clockedRuns (h : ClockedRuns env start setup as x) :
    Runs env setup (as.map Prod.snd) x := by
  induction h with
  | start hinit => exact .start ⟨start, hinit.2⟩
  | step _ hstep ih =>
    rw [List.map_append]
    exact ih.step hstep.step

/-- A run in time is a run of the simulator. -/
theorem exists_clockedRuns {as : List Action} (h : TimedRuns env setup as x) :
    ∃ start bs, bs.map Prod.snd = as ∧ ClockedRuns env start setup bs x := by
  induction h with
  | start hinit =>
    obtain ⟨start, hstart⟩ := hinit
    exact ⟨start, [(start, _)], rfl, .start ⟨rfl, hstart⟩⟩
  | step _ hstep ih =>
    obtain ⟨start, bs, rfl, hbs⟩ := ih
    obtain ⟨poll, e, hnext, -, hrun⟩ := hstep
    exact ⟨start, bs ++ [(e.ts, _)], List.map_append, hbs.step ⟨poll, e, hnext, rfl, hrun⟩⟩

/-! ## One event -/

theorem transmissionTime_nonneg (i : ISPInterface) : 0 ≤ transmissionTime i :=
  div_nonneg (Nat.cast_nonneg _) (Nat.cast_nonneg _)

theorem interval_nonneg (ifaces : List ISPInterface) (handler : Handler) :
    0 ≤ interval ifaces handler := by
  cases handler with
  | computeStrategyAndContinue => exact zero_le_one
  | sendPacket l =>
    cases hl : ifaces[l]? with
    | none => simp only [interval, hl, Option.map_none, Option.getD_none, zero_le_one]
    | some i =>
      simp only [interval, hl, Option.map_some, Option.getD_some, transmissionTime_nonneg]

theorem interval_of_getElem? {ifaces : List ISPInterface} {l : ℕ} {i : ISPInterface}
    (hi : ifaces[l]? = some i) : interval ifaces (.sendPacket l) = transmissionTime i := by
  rw [interval, hi, Option.map_some, Option.getD_some]

theorem interval_congr {ifaces ifaces' : List ISPInterface}
    (h : ifaces'.map (·.attributes) = ifaces.map (·.attributes)) (handler : Handler) :
    interval ifaces' handler = interval ifaces handler := by
  cases handler with
  | computeStrategyAndContinue => rfl
  | sendPacket l =>
    have hl := congrArg (fun xs => xs[l]?) h
    rw [List.getElem?_map, List.getElem?_map] at hl
    cases hi : ifaces[l]? with
    | none =>
      rw [hi, Option.map_none, Option.map_eq_none_iff] at hl
      rw [interval, interval, hi, hl]
    | some i =>
      rw [hi, Option.map_some, Option.map_eq_some_iff] at hl
      obtain ⟨i', hi', heq⟩ := hl
      rw [interval_of_getElem? hi, interval_of_getElem? hi', transmissionTime_eq_of_attributes heq]

/-- The event that runs ends its loop, or schedules itself again after its interval. -/
theorem ClockStep.fires (h : ClockStep env x s y) :
    ∃ e, x.simulator.IsNext e ∧ s = (e.ts, s.2) ∧ s.2.handler = e.handler ∧
      Fires (interval x.strategy.availableInterfaces) x.simulator e y.simulator := by
  obtain ⟨poll, e, hnext, hts, hrun⟩ := h
  refine ⟨e, hnext, Prod.ext hts rfl, ?_⟩
  rcases run_cases hrun with
    ⟨hcompute, before, after, ha, hcomputes⟩ | ⟨l, hl, ⟨-, ha, rfl⟩ | ⟨-, hsend⟩⟩
  · rw [ha, hcomputes.simulator]
    refine ⟨hcompute.symm, ?_⟩
    split_ifs
    · exact .ends
    · have hagain : Fires (interval x.strategy.availableInterfaces) x.simulator e _ := .again
      rwa [hcompute] at hagain
  · rw [ha]
    exact ⟨hl.symm, .ends⟩
  · obtain ⟨i, hi, -, hsimulator, hcases⟩ := sendData_eq_ok hsend
    have hhandler : s.2.handler = .sendPacket l := by
      rcases hcases with ⟨ha, -⟩ | ⟨packetInfo, rest, -, ha, -⟩
      · rw [ha]
        rfl
      · rw [ha]
        rfl
    refine ⟨hhandler.trans hl.symm, ?_⟩
    have hagain : Fires (interval x.strategy.availableInterfaces) x.simulator e _ := .again
    rwa [hl, interval_of_getElem? hi, ← hsimulator] at hagain

/-! ## Every loop is periodic -/

/-- The events of a run are on the grids of their handlers. -/
abbrev OnTime (start : Time) (as : List (Time × Action)) (x : SenderApplication) : Prop :=
  OnGrid start (interval x.strategy.availableInterfaces) (firings as) x.simulator

theorem Started.onGrid (h : Started setup start x) (period : Handler → Time) :
    OnGrid start period [] x.simulator := by
  refine ⟨?_, .nil, fun f hf => ?_, ?_, fun _ => rfl, ?_⟩
  · rw [h.simulator]
    exact scheduled_initInterfaceEventLoops _ _
  · cases hf
  · intro e he e' he' heq
    obtain ⟨l, -, rfl⟩ := h.mem_events.mp he
    obtain ⟨l', -, rfl⟩ := h.mem_events.mp he'
    cases heq
    rfl
  · intro e he
    obtain ⟨l, -, rfl⟩ := h.mem_events.mp he
    exact (add_eq_left.mpr (zero_nsmul _)).symm

theorem onTime_init {a : Action} (h : startApplication env start setup = .ok (a, y)) :
    OnTime start [(start, a)] y := by
  obtain ⟨x, before, after, hstarted, rfl, hcomputes⟩ := startApplication_eq_ok h
  have hgrid := hstarted.onGrid (interval y.strategy.availableInterfaces)
  have hzero : start = start + (ticks .computeStrategyAndContinue
      ([] : List (Time × Handler))).length • interval y.strategy.availableInterfaces
        .computeStrategyAndContinue := (add_eq_left.mpr (zero_nsmul _)).symm
  have hfirst : ∀ e ∈ x.simulator.events, start ≤ e.ts := by
    intro e he
    obtain ⟨l, -, rfl⟩ := hstarted.mem_events.mp he
    exact le_rfl
  have hrun := hgrid.run hstarted.not_compute hfirst (fun f hf => by cases hf) hzero
  unfold OnTime
  rw [hcomputes.simulator]
  split_ifs
  · exact hrun
  · exact hrun.schedule hstarted.not_compute (fun f hf => by cases hf) zero_le_one hzero

theorem onTime_step (hx : OnTime start as x) (h : ClockStep env x s y) :
    OnTime start (as ++ [s]) y := by
  have hinterval := funext (interval_congr (step_attributes h.step))
  obtain ⟨e, hnext, hs, hhandler, hfires⟩ := h.fires
  have hfired := hx.fires hnext (interval_nonneg _ _) hfires
  have hlabel : firings (as ++ [s]) = firings as ++ [(e.ts, e.handler)] := by
    rw [hs, firings, List.map_append, ← hhandler]
    rfl
  rwa [OnTime, hinterval, hlabel]

theorem onTime_of_clockedRuns (h : ClockedRuns env start setup as x) : OnTime start as x := by
  apply h.invariant (I := fun as x => OnTime start as x)
  · rintro ⟨t, a⟩ x ⟨ht, hstart⟩
    rw [show t = start from ht]
    exact onTime_init hstart
  · exact fun as s x y _ hx hstep => onTime_step hx hstep

/-- In every run of the simulator time does not go back. The loop of every interface has run at
the start and then after each transmission time, without a gap, until it ended; the computations
have run once a second. A pending event is the next of its loop. -/
theorem loops_are_periodic (h : ClockedRuns env start setup as x) :
    (as.map Prod.fst).Pairwise (· ≤ ·) ∧
      (∀ handler, ticks handler (firings as) =
        (List.range (ticks handler (firings as)).length).map fun k : ℕ =>
          start + k * interval x.strategy.availableInterfaces handler) ∧
      ∀ e ∈ x.simulator.events, (∀ s ∈ as, s.1 ≤ e.ts) ∧
        e.ts = start + ((ticks e.handler (firings as)).length : ℕ) *
          interval x.strategy.availableInterfaces e.handler := by
  have hgrid := onTime_of_clockedRuns h
  refine ⟨?_, fun handler => ?_, fun e he => ⟨fun s hs => ?_, ?_⟩⟩
  · have hsorted := hgrid.sorted
    rwa [firings, List.map_map] at hsorted
  · simpa only [nsmul_eq_mul] using hgrid.ticks_eq handler
  · exact hgrid.later _ (List.mem_map_of_mem hs) e he
  · simpa only [nsmul_eq_mul] using hgrid.pending e he

theorem loops_are_periodic_sample :
    ∃ start as x, ClockedRuns sampleEnvironment start (sampleSetup .reactive) as x ∧
      as.length = 4 ∧ (as.map Prod.fst).Pairwise (· ≤ ·) := by
  obtain ⟨as, x, hruns, hobserved⟩ := exists_timedRuns sampleEnvironment 0
    (sampleSetup .reactive) [false, false, true] (fun s => s.1.length) 4 (by decide +kernel)
  obtain ⟨start, bs, rfl, hbs⟩ := exists_clockedRuns hruns
  exact ⟨start, bs, x, hbs, (List.length_map _).symm.trans hobserved, (loops_are_periodic hbs).1⟩

/-! ## No interface is faster than its rate -/

/-- The packets taken from an interface, each with its time, the oldest first. -/
def takes (l : ℕ) (as : List (Time × Action)) : List (Time × SendPacketInfo) :=
  as.filterMap fun s => match s.2 with
    | .taken _ l' packetInfo _ => if l' = l then some (s.1, packetInfo) else none
    | _ => none

theorem takes_append (l : ℕ) (as bs : List (Time × Action)) :
    takes l (as ++ bs) = takes l as ++ takes l bs :=
  List.filterMap_append

/-- A packet is taken by an event of the interface. -/
theorem takes_sublist (l : ℕ) (as : List (Time × Action)) :
    ((takes l as).map Prod.fst).Sublist (ticks (.sendPacket l) (firings as)) := by
  induction as with
  | nil => exact .slnil
  | cons s as ih =>
    have hsplit : takes l (s :: as) = takes l [s] ++ takes l as := takes_append l [s] as
    have hticks : ticks (.sendPacket l) (firings (s :: as)) =
        ticks (.sendPacket l) (firings [s]) ++ ticks (.sendPacket l) (firings as) :=
      ticks_append _ (firings [s]) (firings as)
    rw [hsplit, hticks, List.map_append]
    refine List.Sublist.append ?_ ih
    obtain ⟨t, a⟩ := s
    cases a with
    | computed | ended | idle => exact List.nil_sublist _
    | taken now l' packetInfo isCorrupt =>
      by_cases hl : l' = l <;> simp [takes, firings, Action.handler, hl]

/-- In any period of time the packets taken from an interface are no more bits than its rate
allows, but for one packet. -/
theorem takes_within_rate (h : ClockedRuns env start setup as x) {l : ℕ} {i : ISPInterface}
    (hi : x.strategy.availableInterfaces[l]? = some i) (hrate : 0 < i.getDataBitRate)
    (t : Time) {duration : Time} (hduration : 0 ≤ duration) :
    (((takes l as).countP fun s => decide (t ≤ s.1 ∧ s.1 ≤ t + duration) : ℕ) : ℚ) *
      Utils.packetSizeBit ≤ duration * i.getDataBitRate + Utils.packetSizeBit := by
  have hgrid := onTime_of_clockedRuns h
  have hspaced := spaced_grid start (interval_nonneg x.strategy.availableInterfaces
    (.sendPacket l)) (ticks (.sendPacket l) (firings as)).length
  rw [← hgrid.ticks_eq, interval_of_getElem? hi] at hspaced
  have htimes : ((takes l as).map Prod.fst).Pairwise fun a b => a + transmissionTime i ≤ b :=
    hspaced.sublist (takes_sublist l as)
  have hwindow : ∀ a ∈ ((takes l as).map Prod.fst).filter
      (fun a => decide (t ≤ a ∧ a ≤ t + duration)), t ≤ a ∧ a ≤ t + duration :=
    fun a ha => of_decide_eq_true (List.mem_filter.mp ha).2
  have hle := length_nsmul_le_of_spaced (htimes.sublist List.filter_sublist)
    (fun a ha => (hwindow a ha).1) (fun a ha => (hwindow a ha).2) (transmissionTime_nonneg i)
    (le_add_of_nonneg_right hduration)
  rw [← List.countP_eq_length_filter, List.countP_map, nsmul_eq_mul, add_assoc,
    add_le_add_iff_left] at hle
  have hpos : (0 : ℚ) < i.getDataBitRate := Nat.cast_pos.mpr hrate
  have hbits : transmissionTime i * i.getDataBitRate = Utils.packetSizeBit := by
    rw [transmissionTime, div_mul_cancel₀ _ hpos.ne']
  have hscaled := mul_le_mul_of_nonneg_right hle hpos.le
  rw [add_mul, mul_assoc, hbits] at hscaled
  exact hscaled

theorem takes_within_rate_sample :
    ∃ start as x, ClockedRuns sampleEnvironment start (sampleSetup .reactive) as x ∧
      as.length = 4 ∧
      (((takes 0 as).countP fun s => decide (start ≤ s.1 ∧ s.1 ≤ start + 1) : ℕ) : ℚ) * 1024 ≤
        1 * 2048 + 1024 := by
  obtain ⟨as, x, hruns, hobserved⟩ := exists_timedRuns sampleEnvironment 0
    (sampleSetup .reactive) [false, false, true]
    (fun s => (s.1.length, s.2.strategy.availableInterfaces.map (·.getDataBitRate)))
    (4, [2048, 1024]) (by decide +kernel)
  obtain ⟨hlength, hrates⟩ := Prod.mk.inj hobserved
  obtain ⟨start, bs, rfl, hbs⟩ := exists_clockedRuns hruns
  have hfirst := congrArg (fun rates => rates[0]?) hrates
  rw [List.getElem?_map] at hfirst
  obtain ⟨i, hi, hrate⟩ := Option.map_eq_some_iff.mp hfirst
  have hle := takes_within_rate hbs hi (by rw [hrate]; decide) start zero_le_one
  rw [hrate] at hle
  exact ⟨start, bs, x, hbs, (List.length_map _).symm.trans hlength, hle⟩

/-! ## When a packet leaves its queue -/

/-- A step of the simulator in which the socket takes a packet. -/
def PromptStep (env : Environment) (x : SenderApplication) (s : Time × Action)
    (y : SenderApplication) : Prop :=
  ∃ poll e, x.simulator.IsNext e ∧ Utils.packetSizeByte ≤ poll.txAvailable ∧ s.1 = e.ts ∧
    run env e.ts poll e x = .ok (s.2, y)

theorem PromptStep.clockStep (h : PromptStep env x s y) : ClockStep env x s y := by
  obtain ⟨poll, e, hnext, -, hts, hrun⟩ := h
  exact ⟨poll, e, hnext, hts, hrun⟩

/-- The packet is at position `j` of the queue of an interface, and the polls of the interface come
to it at time `t`. -/
def Due (l : ℕ) (packetInfo : SendPacketInfo) (t : Time) (j : ℕ) (x : SenderApplication) : Prop :=
  ∃ i e, x.strategy.availableInterfaces[l]? = some i ∧ i.pendingpackets[j]? = some packetInfo ∧
    e ∈ x.simulator.events ∧ e.handler = .sendPacket l ∧ e.ts + j * transmissionTime i = t

variable {l j : ℕ} {packetInfo : SendPacketInfo} {t : Time}

/-- A computation puts its packets behind those that wait. -/
theorem Due.computes (hsolve : AnswersFeasibly env.solve) (hdue : Due l packetInfo t j x)
    {e : Event Time Handler} (he : e ∈ x.simulator.events) (hscheduled : x.simulator.Scheduled)
    (hcompute : e.handler = .computeStrategyAndContinue) {now : Time} {before after : Strategy}
    (h : Computes env now { x with simulator := x.simulator.remove e } y before after) :
    Due l packetInfo t j y := by
  obtain ⟨i, c, hi, hwaits, hc, hl, hts⟩ := hdue
  obtain ⟨f, hifaces, -, -⟩ := h.appends hsolve
  have hne : c ≠ e := by
    rintro rfl
    rw [hcompute] at hl
    cases hl
  have hstays := hscheduled.mem_remove_of_ne he hc hne
  refine ⟨i.enqueueAll (f l), c, ?_, ?_, ?_, hl, hts⟩
  · rw [hifaces, getElem?_appendAt]
    exact congrArg _ hi
  · exact List.getElem?_append_left (List.getElem?_eq_some_iff.mp hwaits).1 ▸ hwaits
  · rw [h.simulator]
    split_ifs
    · exact hstays
    · exact mem_schedule.mpr (.inl hstays)

/-- A step leaves a waiting packet alone, or moves it one position ahead, or takes it at its time. -/
theorem Due.step (hsolve : AnswersFeasibly env.solve) (hgrid : OnTime start as x)
    (hdue : Due l packetInfo t j x) (h : PromptStep env x s y) :
    (takes l [s] = [] ∧ Due l packetInfo t j y) ∨
      ∃ taken, takes l [s] = [taken] ∧
        ((j = 0 ∧ taken = (t, packetInfo)) ∨ ∃ k, j = k + 1 ∧ Due l packetInfo t k y) := by
  have hkept := hdue
  obtain ⟨i, c, hi, hwaits, hc, hl, hts⟩ := hdue
  obtain ⟨poll, e, hnext, htx, hnow, hrun⟩ := h
  obtain ⟨now, a⟩ := s
  rw [show now = e.ts from hnow]
  have hunsent := getAllDataHasBeenSent_of_pending (List.mem_of_getElem? hi)
    (List.mem_of_getElem? hwaits)
  rcases run_cases hrun with
    ⟨hcompute, before, after, ha, hcomputes⟩ | ⟨l', hl', ⟨hsent, -, -⟩ | ⟨-, hsend⟩⟩
  · rw [show a = _ from ha]
    exact .inl ⟨rfl, hkept.computes hsolve hnext.mem hgrid.scheduled hcompute hcomputes⟩
  · rw [hunsent] at hsent
    cases hsent
  · obtain ⟨interface, hi', -, hsimulator, hcases⟩ := sendData_eq_ok hsend
    dsimp only at hi' hcases
    by_cases hll : l' = l
    · subst hll
      -- The poll is the pending one, and it finds the queue with the packet.
      have hce : c = e := hgrid.once c hc e hnext.mem (hl.trans hl'.symm)
      subst hce
      cases hi.symm.trans hi'
      rcases hcases with ⟨-, -, hidle⟩ | ⟨first, rest, hqueue, ha, hstrategy⟩
      · rw [hidle htx] at hwaits
        cases hwaits
      · rw [show a = _ from ha]
        refine .inr ⟨(c.ts, first), by simp [takes], ?_⟩
        rw [hqueue] at hwaits
        cases j with
        | zero =>
          rw [Nat.cast_zero, zero_mul, add_zero] at hts
          cases hwaits
          exact .inl ⟨rfl, by rw [hts]⟩
        | succ k =>
          have hset := List.getElem?_set_self
            (a := afterSend i rest first.originatedFrom poll.isCorrupt)
            (List.getElem?_eq_some_iff.mp hi).1
          have hsame : transmissionTime (afterSend i rest first.originatedFrom poll.isCorrupt) =
              transmissionTime i := transmissionTime_eq_of_attributes (attributes_afterSend _ _ _ _)
          refine .inr ⟨k, rfl, _, ⟨c.ts + transmissionTime i, x.simulator.nextUid, .sendPacket l'⟩,
            by rw [hstrategy]; exact hset, ?_, ?_, rfl, ?_⟩
          · rw [pendingpackets_afterSend]
            rwa [List.getElem?_cons_succ] at hwaits
          · rw [hsimulator]
            exact mem_schedule.mpr (.inr rfl)
          · rw [hsame, ← hts]
            push_cast
            ring
    · have hne : c ≠ e := by
        rintro rfl
        exact hll (Handler.sendPacket.inj (hl'.symm.trans hl))
      have hstays : c ∈ y.simulator.events := by
        rw [hsimulator]
        exact mem_schedule.mpr (.inl (hgrid.scheduled.mem_remove_of_ne hnext.mem hc hne))
      have hother : takes l [(e.ts, a)] = [] := by
        rcases hcases with ⟨ha, -⟩ | ⟨first, rest, -, ha, -⟩
        · rw [show a = _ from ha]
          rfl
        · rw [show a = _ from ha]
          simp [takes, hll]
      refine .inl ⟨hother, i, c, ?_, hwaits, hstays, hl, hts⟩
      rcases hcases with ⟨-, hstrategy, -⟩ | ⟨first, rest, -, -, hstrategy⟩
      · rw [hstrategy]
        exact hi
      · rw [hstrategy]
        exact (List.getElem?_set_ne hll).trans hi

/-- A packet at position `j` of a queue leaves it `j` transmission times after the next poll, however
many packets the computations enqueue meanwhile; until then every poll takes one of those ahead. -/
theorem departs_on_time (hsolve : AnswersFeasibly env.solve)
    (h : ClockedRuns env start setup as x) {i : ISPInterface}
    (hi : x.strategy.availableInterfaces[l]? = some i) {e : Event Time Handler}
    (he : e ∈ x.simulator.events) (hl : e.handler = .sendPacket l)
    (hwaits : i.pendingpackets[j]? = some packetInfo) {bs : List (Time × Action)}
    (hbs : Transition.Reaches (PromptStep env x) (PromptStep env) bs y) :
    (takes l bs)[j]? = some (e.ts + j * transmissionTime i, packetInfo) ∨
      ∃ k, (takes l bs).length + k = j ∧
        Due l packetInfo (e.ts + j * transmissionTime i) k y := by
  have hdue : Due l packetInfo (e.ts + j * transmissionTime i) j x :=
    ⟨i, e, hi, hwaits, he, hl, rfl⟩
  induction hbs with
  | start hstep =>
    rcases hdue.step hsolve (onTime_of_clockedRuns h) hstep with
      ⟨hnone, hlater⟩ | ⟨taken, htaken, ⟨rfl, rfl⟩ | ⟨k, rfl, hlater⟩⟩
    · exact .inr ⟨j, by rw [hnone, List.length_nil, Nat.zero_add], hlater⟩
    · exact .inl (by rw [htaken]; rfl)
    · exact .inr ⟨k, by rw [htaken, List.length_singleton]; omega, hlater⟩
  | step hreach hstep ih =>
    have hclocked := h.trans (hreach.mono (fun _ _ => PromptStep.clockStep)
      fun _ _ _ => PromptStep.clockStep)
    rw [takes_append]
    rcases ih with hleft | ⟨k, hk, hlater⟩
    · exact .inl (List.getElem?_append_left (List.getElem?_eq_some_iff.mp hleft).1 ▸ hleft)
    · rcases hlater.step hsolve (onTime_of_clockedRuns hclocked) hstep with
        ⟨hnone, hstill⟩ | ⟨taken, htaken, ⟨rfl, rfl⟩ | ⟨k', rfl, hstill⟩⟩
      · exact .inr ⟨k, by rw [hnone, List.append_nil, hk], hstill⟩
      · refine .inl ?_
        rw [htaken, ← hk, Nat.add_zero, List.getElem?_concat_length]
      · refine .inr ⟨k', ?_, hstill⟩
        rw [htaken, List.length_append, List.length_singleton]
        omega

/-- The first packet leaves with the first poll. -/
theorem departs_on_time_sample :
    ∃ start as x bs y i packetInfo, ∃ e : Event Time Handler,
      ClockedRuns sampleEnvironment start (sampleSetup .reactive) as x ∧
        x.strategy.availableInterfaces[0]? = some i ∧ i.pendingpackets[0]? = some packetInfo ∧
        Transition.Reaches (PromptStep sampleEnvironment x) (PromptStep sampleEnvironment) bs y ∧
        ((takes 0 bs)[0]? = some (e.ts + (0 : ℕ) * transmissionTime i, packetInfo) ∨
          ∃ k, (takes 0 bs).length + k = 0 ∧
            Due 0 packetInfo (e.ts + (0 : ℕ) * transmissionTime i) k y) := by
  obtain ⟨as, x, hruns, hobserved⟩ := exists_timedRuns sampleEnvironment 0
    (sampleSetup .reactive) []
    (fun s => ((s.2.simulator.next?).elim false fun (e : Event Time Handler) =>
        decide (e.handler = .sendPacket 0) && (run sampleEnvironment e.ts
          ⟨Utils.packetSizeByte, false, Utils.packetSizeByte⟩ e s.2).isOk,
      s.2.strategy.availableInterfaces.map fun i => i.pendingpackets.length))
    (true, [2, 1]) (by decide +kernel)
  obtain ⟨hnext, hlengths⟩ := Prod.mk.inj hobserved
  obtain ⟨start, as, rfl, has⟩ := exists_clockedRuns hruns
  have hfirst := congrArg (fun lengths => lengths[0]?) hlengths
  rw [List.getElem?_map] at hfirst
  obtain ⟨i, hi, hlength⟩ := Option.map_eq_some_iff.mp hfirst
  obtain ⟨packetInfo, hwaits⟩ : ∃ p, i.pendingpackets[0]? = some p :=
    ⟨_, List.getElem?_eq_getElem (by omega)⟩
  dsimp only at hnext
  cases he : x.simulator.next? with
  | none =>
    rw [he] at hnext
    cases hnext
  | some e =>
    rw [he, Option.elim_some, Bool.and_eq_true, decide_eq_true_eq] at hnext
    cases hrun : run sampleEnvironment e.ts
        ⟨Utils.packetSizeByte, false, Utils.packetSizeByte⟩ e x with
    | error f =>
      rw [hrun] at hnext
      cases hnext.2
    | ok s =>
      have hpending := isNext_of_next? he
      have hsteps : Transition.Reaches (PromptStep sampleEnvironment x)
          (PromptStep sampleEnvironment) [(e.ts, s.1)] s.2 :=
        .start ⟨_, e, hpending, le_rfl, rfl, hrun⟩
      exact ⟨start, as, x, _, s.2, i, packetInfo, e, has, hi, hwaits, hsteps,
        departs_on_time (sound_offer _).answersFeasibly has hi hpending.mem hnext.1 hwaits hsteps⟩

end SenderApplication

end SdWan
