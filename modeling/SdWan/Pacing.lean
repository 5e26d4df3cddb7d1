import SdWan.Stopping
import SdWan.Library.PolledQueue

/-!
# Pacing

Between two computations of the reactive strategy every interface has time for as many packets as
the capacity row of the program admits. The queue of an interface is filled by the computations, one
second apart, and polled by `sendPacket`, one transmission time apart; an interface whose rate is
below one packet per second never gets a packet.
-/

open IntegerProgram EventQueue

namespace SdWan

/-- What an action may say about the queues: a computation finds them empty, and a packet is taken
less than one second after it was enqueued. -/
def Action.Timely : Action → Prop
  | .computed _ before _ => ∀ i ∈ before.availableInterfaces, i.pendingpackets = []
  | .taken now _ packetInfo _ => now - packetInfo.dateEnqueued < 1
  | _ => True

namespace SenderApplication

/-! ## Transmission times -/

theorem transmissionTime_eq_of_attributes {i i' : ISPInterface}
    (h : i'.attributes = i.attributes) : transmissionTime i' = transmissionTime i := by
  have hrate := congrArg (fun a => a.netDevice.dataRate) h
  exact congrArg (fun n : ℕ => (Utils.packetSizeBit : Time) / n) hrate

theorem getPackageRate_eq_of_attributes {i i' : ISPInterface}
    (h : i'.attributes = i.attributes) : i'.getPackageRate = i.getPackageRate := by
  have hrate := congrArg (fun a => a.netDevice.dataRate) h
  exact congrArg (· / Utils.packetSizeBit) hrate

theorem transmissionTime_pos {i : ISPInterface} (h : 0 < i.getPackageRate) :
    0 < transmissionTime i := by
  have hrate : 0 < i.getDataBitRate := (by decide : 0 < Utils.packetSizeBit).trans_le
    (Nat.div_pos_iff.mp h).2
  exact div_pos (by norm_num [Utils.packetSizeBit]) (Nat.cast_pos.mpr hrate)

/-- The packets of one second take at most one second. -/
theorem getPackageRate_mul_transmissionTime_le (i : ISPInterface) :
    i.getPackageRate * transmissionTime i ≤ 1 := by
  rcases Nat.eq_zero_or_pos i.getDataBitRate with hzero | hpos
  · rw [ISPInterface.getPackageRate, hzero, Nat.zero_div, Nat.cast_zero, zero_mul]
    exact zero_le_one
  · have hbits : i.getPackageRate * Utils.packetSizeBit ≤ i.getDataBitRate :=
      Nat.div_mul_le_self _ _
    rw [transmissionTime, ← mul_div_assoc, div_le_one (Nat.cast_pos.mpr hpos)]
    exact_mod_cast hbits

/-! ## What a computation puts on the queues -/

variable {env : Environment}

/-- Every queue gets at most the packets of one second. -/
theorem Computes.fills (hsolve : Sound env.solve) {now : Time} {x y : SenderApplication}
    {before after : Strategy} (h : Computes env now x y before after)
    (htype : x.strategyType = .reactive) :
    ∃ f, y.strategy.availableInterfaces = appendAt x.strategy.availableInterfaces f ∧
      (∀ q i, x.strategy.availableInterfaces[q]? = some i → (f q).length ≤ i.getPackageRate) ∧
      ∀ q, ∀ p ∈ f q, p.dateEnqueued = now := by
  have hcompute := h.computed
  rw [htype] at hcompute
  obtain ⟨t, ht, hafter⟩ := ReactiveStrategy.compute_cases hsolve hcompute
  have hifaces : before.availableInterfaces = x.strategy.availableInterfaces := by rw [h.before_eq]
  rw [h.strategy, hafter, ReactiveStrategy.dispatched, Strategy.availableInterfaces_printIfAllSent,
    ← hifaces]
  refine ⟨_, rfl, fun q i hi => ?_, dateEnqueued_packetsOf _ _ _⟩
  obtain ⟨hq, rfl⟩ := List.getElem?_eq_some_iff.mp hi
  have hlength := sum_map_packetsOf now before.applications t ⟨q, hq⟩ fun _ => 1
  simp only [List.map_const', List.sum_replicate, smul_eq_mul, mul_one] at hlength
  rw [hlength]
  exact Nat.cast_le.mp (ht.withinCapacity ⟨q, hq⟩)

/-! ## The invariant -/

/-- At most one computation `c` is pending. It finds every queue empty, because the polls `e` take
the packets of the last computation in time. -/
structure Paced (x : SenderApplication) : Prop where
  once : ∀ c ∈ x.simulator.events, ∀ c' ∈ x.simulator.events,
    c.handler = .computeStrategyAndContinue → c'.handler = .computeStrategyAndContinue → c = c'
  unused : ∀ i ∈ x.strategy.availableInterfaces, i.getPackageRate = 0 → i.pendingpackets = []
  enqueued : ∀ c ∈ x.simulator.events, c.handler = .computeStrategyAndContinue →
    ∀ i ∈ x.strategy.availableInterfaces, ∀ info ∈ i.pendingpackets, info.dateEnqueued + 1 = c.ts
  inTime : ∀ c ∈ x.simulator.events, c.handler = .computeStrategyAndContinue →
    ∀ e ∈ x.simulator.events, ∀ l i, e.handler = .sendPacket l →
      x.strategy.availableInterfaces[l]? = some i → 0 < i.getPackageRate →
        InTime (transmissionTime i) i.pendingpackets.length c e

section

variable {x y : SenderApplication} {c e : Event Time Handler}

theorem getAllDataHasBeenSent_of_pending {i : ISPInterface}
    (hi : i ∈ x.strategy.availableInterfaces) {info : SendPacketInfo}
    (hinfo : info ∈ i.pendingpackets) : x.strategy.getAllDataHasBeenSent = false := by
  by_contra hsent
  rw [Bool.not_eq_false] at hsent
  rw [((Strategy.getAllDataHasBeenSent_iff _).mp hsent).2 i hi] at hinfo
  cases hinfo

/-- The queues are empty when a computation is next. -/
theorem Paced.empty_of_isNext (hx : Paced x) (hlive : Live x) (hnext : x.simulator.IsNext c)
    (hc : c.handler = .computeStrategyAndContinue) :
    ∀ i ∈ x.strategy.availableInterfaces, i.pendingpackets = [] := by
  intro i hi
  cases hsent : x.strategy.getAllDataHasBeenSent with
  | true => exact ((Strategy.getAllDataHasBeenSent_iff _).mp hsent).2 i hi
  | false =>
    rcases Nat.eq_zero_or_pos i.getPackageRate with hrate | hrate
    · exact hx.unused i hi hrate
    obtain ⟨l, hl⟩ := List.mem_iff_getElem?.mp hi
    obtain ⟨e, he, hle⟩ := hlive.sends hsent l (List.getElem?_eq_some_iff.mp hl).1
    have hinTime := hx.inTime c hnext.mem hc e he l i hle hl hrate
    exact List.length_eq_zero_iff.mp
      (hinTime.eq_zero (transmissionTime_pos hrate).le (hnext.first e he))

/-- A packet leaves its queue less than one second after it was enqueued. -/
theorem Paced.ts_lt_of_isNext (hx : Paced x) (hlive : Live x) (hnext : x.simulator.IsNext e)
    {i : ISPInterface} (hi : i ∈ x.strategy.availableInterfaces) {info : SendPacketInfo}
    (hinfo : info ∈ i.pendingpackets) : e.ts < info.dateEnqueued + 1 := by
  have hsent := getAllDataHasBeenSent_of_pending hi hinfo
  have hrate : 0 < i.getPackageRate := by
    by_contra hzero
    rw [hx.unused i hi (by omega)] at hinfo
    cases hinfo
  obtain ⟨l, hl⟩ := List.mem_iff_getElem?.mp hi
  obtain ⟨c, hc, hcompute⟩ := hlive.computes hsent
  obtain ⟨e', he', hle⟩ := hlive.sends hsent l (List.getElem?_eq_some_iff.mp hl).1
  have hinTime := hx.inTime c hc hcompute e' he' l i hle hl hrate
  rw [hx.enqueued c hc hcompute i hi info hinfo]
  exact (hnext.ts_le he').trans_lt
    (hinTime.ts_lt_of_pos (transmissionTime_pos hrate).le (List.length_pos_of_mem hinfo))

end

/-! ## Every event keeps the pace -/

/-- Every queue holds at most the packets of one second after a computation that found it empty. -/
theorem Computes.queues (hsolve : Sound env.solve) {now : Time} {x y : SenderApplication}
    {before after : Strategy} (h : Computes env now x y before after)
    (htype : x.strategyType = .reactive)
    (hempty : ∀ i ∈ x.strategy.availableInterfaces, i.pendingpackets = []) {q : ℕ}
    {i' : ISPInterface} (hi' : y.strategy.availableInterfaces[q]? = some i') :
    (∃ i, x.strategy.availableInterfaces[q]? = some i ∧ i'.attributes = i.attributes) ∧
      i'.pendingpackets.length ≤ i'.getPackageRate ∧
      ∀ info ∈ i'.pendingpackets, info.dateEnqueued = now := by
  obtain ⟨f, hifaces, hlength, hdate⟩ := h.fills hsolve htype
  rw [hifaces, getElem?_appendAt, Option.map_eq_some_iff] at hi'
  obtain ⟨i, hi, rfl⟩ := hi'
  have hpending : (i.enqueueAll (f q)).pendingpackets = f q := by
    rw [ISPInterface.enqueueAll, hempty i (List.mem_of_getElem? hi), List.nil_append]
  have hattributes := ISPInterface.attributes_enqueueAll i (f q)
  refine ⟨⟨i, hi, hattributes⟩, ?_, ?_⟩
  · rw [hpending, getPackageRate_eq_of_attributes hattributes]
    exact hlength q i hi
  · rw [hpending]
    exact hdate q

theorem Computes.paced (hsolve : Sound env.solve) {now : Time} {x y : SenderApplication}
    {before after : Strategy} (h : Computes env now x y before after)
    (htype : x.strategyType = .reactive)
    (hempty : ∀ i ∈ x.strategy.availableInterfaces, i.pendingpackets = [])
    (hnone : ∀ e ∈ x.simulator.events, e.handler ≠ .computeStrategyAndContinue)
    (hclose : ∀ e ∈ x.simulator.events, ∀ l i, e.handler = .sendPacket l →
      x.strategy.availableInterfaces[l]? = some i → 0 < i.getPackageRate →
        e.ts < now + transmissionTime i) : Paced y := by
  constructor
  · intro c hc c' hc' hcompute hcompute'
    rw [h.eq_of_pending hnone hc hcompute, h.eq_of_pending hnone hc' hcompute']
  · intro i' hi' hrate
    obtain ⟨q, hq⟩ := List.mem_iff_getElem?.mp hi'
    obtain ⟨-, hle, -⟩ := h.queues hsolve htype hempty hq
    rw [hrate] at hle
    exact List.length_eq_zero_iff.mp (Nat.le_zero.mp hle)
  · intro c hc hcompute i' hi' info hinfo
    obtain ⟨q, hq⟩ := List.mem_iff_getElem?.mp hi'
    obtain ⟨-, -, hdate⟩ := h.queues hsolve htype hempty hq
    rw [h.eq_of_pending hnone hc hcompute, hdate info hinfo]
  · intro c hc hcompute e he l i' hle hi' hrate
    obtain ⟨⟨i, hi, hattributes⟩, hlength, -⟩ := h.queues hsolve htype hempty hi'
    have hts := hclose e (h.mem_of_sendPacket he hle) l i hle hi
      (getPackageRate_eq_of_attributes hattributes ▸ hrate)
    rw [← transmissionTime_eq_of_attributes hattributes] at hts
    rw [h.eq_of_pending hnone hc hcompute]
    exact InTime.fill hts (transmissionTime_pos hrate) hrate
      (getPackageRate_mul_transmissionTime_le i') hlength

/-- A call of `sendData` on a willing socket pops the front of its queue, if there is one. -/
theorem sendData_queues {now : Time} {poll : Poll} {l : ℕ} {x y : SenderApplication} {a : Action}
    (h : sendData now poll l x = .ok (a, y)) (htx : Utils.packetSizeByte ≤ poll.txAvailable)
    {l' : ℕ} {i' : ISPInterface} (hi' : y.strategy.availableInterfaces[l']? = some i') :
    ∃ i, x.strategy.availableInterfaces[l']? = some i ∧ i'.attributes = i.attributes ∧
      i'.pendingpackets = if l' = l then i.pendingpackets.tail else i.pendingpackets := by
  obtain ⟨interface, hl, -, -, ⟨-, hstrategy, hidle⟩ | ⟨packetInfo, rest, hqueue, -, hstrategy⟩⟩ :=
    sendData_eq_ok h
  · rw [hstrategy] at hi'
    refine ⟨i', hi', rfl, ?_⟩
    split_ifs with hll
    · subst hll
      rw [hl, Option.some.injEq] at hi'
      rw [← hi', hidle htx, List.tail_nil]
    · rfl
  · rw [hstrategy] at hi'
    rcases getElem?_set_eq_some hi' with ⟨rfl, rfl⟩ | ⟨hne, hi'⟩
    · exact ⟨interface, hl, attributes_afterSend _ _ _ _, by
        rw [if_pos rfl, pendingpackets_afterSend, hqueue, List.tail_cons]⟩
    · exact ⟨i', hi', rfl, (if_neg hne).symm⟩

section

variable {x y : SenderApplication} {e e' : Event Time Handler} {poll : Poll} {l : ℕ} {a : Action}

/-- The events pending after a poll were pending before, or are the next poll. -/
theorem mem_of_sendData {interface : ISPInterface}
    (hl : x.strategy.availableInterfaces[l]? = some interface)
    (h : sendData e.ts poll l { x with simulator := x.simulator.remove e } = .ok (a, y))
    (he' : e' ∈ y.simulator.events) :
    e' ∈ x.simulator.events ∨
      e' = ⟨e.ts + transmissionTime interface, x.simulator.nextUid, .sendPacket l⟩ := by
  obtain ⟨interface', hl', -, hsimulator, -⟩ := sendData_eq_ok h
  dsimp only at hl' hsimulator
  rw [hl, Option.some.injEq] at hl'
  subst hl'
  rw [hsimulator] at he'
  exact (mem_schedule.mp he').imp_left fun hold => (mem_remove.mp hold).1

theorem mem_of_sendData_of_compute
    (h : sendData e.ts poll l { x with simulator := x.simulator.remove e } = .ok (a, y))
    (he' : e' ∈ y.simulator.events) (hcompute : e'.handler = .computeStrategyAndContinue) :
    e' ∈ x.simulator.events := by
  obtain ⟨interface, hl, -⟩ := sendData_eq_ok h
  dsimp only at hl
  rcases mem_of_sendData hl h he' with hold | rfl
  · exact hold
  · cases hcompute

end

theorem Paced.sendData {x y : SenderApplication} {e : Event Time Handler} {poll : Poll} {l : ℕ}
    {a : Action} (hx : Paced x) (hlive : Live x) (hnext : x.simulator.IsNext e)
    (hle : e.handler = .sendPacket l) (htx : Utils.packetSizeByte ≤ poll.txAvailable)
    (h : sendData e.ts poll l { x with simulator := x.simulator.remove e } = .ok (a, y)) :
    Paced y := by
  have hqueues : ∀ l' i', y.strategy.availableInterfaces[l']? = some i' → _ :=
    fun l' i' hi' => sendData_queues h htx hi'
  obtain ⟨interface, hl, -⟩ := sendData_eq_ok h
  dsimp only at hqueues hl
  have hcomputes : ∀ c ∈ y.simulator.events, c.handler = .computeStrategyAndContinue →
      c ∈ x.simulator.events := fun c hc => mem_of_sendData_of_compute h hc
  constructor
  · intro c hc c' hc' hcompute hcompute'
    exact hx.once c (hcomputes c hc hcompute) c' (hcomputes c' hc' hcompute') hcompute hcompute'
  · intro i' hi' hrate
    obtain ⟨l', hl'⟩ := List.mem_iff_getElem?.mp hi'
    obtain ⟨i, hi, hattributes, hpending⟩ := hqueues l' i' hl'
    rw [getPackageRate_eq_of_attributes hattributes] at hrate
    rw [hpending, hx.unused i (List.mem_of_getElem? hi) hrate, List.tail_nil, ite_self]
  · intro c hc hcompute i' hi' info hinfo
    obtain ⟨l', hl'⟩ := List.mem_iff_getElem?.mp hi'
    obtain ⟨i, hi, -, hpending⟩ := hqueues l' i' hl'
    refine hx.enqueued c (hcomputes c hc hcompute) hcompute i (List.mem_of_getElem? hi) info ?_
    rw [hpending] at hinfo
    split_ifs at hinfo
    · exact List.mem_of_mem_tail hinfo
    · exact hinfo
  · intro c hc hcompute e' he' l' i' hle' hi' hrate
    have hold := hcomputes c hc hcompute
    obtain ⟨i, hi, hattributes, hpending⟩ := hqueues l' i' hi'
    have hrate' := getPackageRate_eq_of_attributes hattributes ▸ hrate
    rw [transmissionTime_eq_of_attributes hattributes]
    rcases mem_of_sendData hl h he' with he' | rfl
    · refine (hx.inTime c hold hcompute e' he' l' i hle' hi hrate').of_le
        (transmissionTime_pos hrate').le ?_
      rw [hpending]
      split_ifs
      · rw [List.length_tail]
        exact Nat.sub_le _ _
      · exact le_rfl
    · cases hle'
      rw [hl, Option.some.injEq] at hi
      subst hi
      rw [hpending, if_pos rfl, List.length_tail]
      have hinTime := hx.inTime c hold hcompute e hnext.mem l interface hle hl hrate'
      have hne : e.uid ≠ c.uid := by
        intro huid
        rw [hlive.scheduled.uid_injective e hnext.mem c hold huid, hcompute] at hle
        cases hle
      exact hinTime.poll (hinTime.ts_lt (hnext.first c hold) hne) (hlive.scheduled.uid_lt c hold)

/-! ## Every run keeps the pace -/

section

variable {setup : Setup} {as : List Action} {x y : SenderApplication} {a : Action}

theorem paced_init (hsolve : Sound env.solve) (htype : setup.strategyType = .reactive)
    (h : Init env setup a x) : Paced x ∧ a.Timely := by
  obtain ⟨now, hstart⟩ := h
  obtain ⟨x₀, before, after, hstarted, rfl, hcomputes⟩ := startApplication_eq_ok hstart
  constructor
  · apply hcomputes.paced hsolve (hstarted.strategyType.trans htype) hstarted.created.pendingpackets
    · exact hstarted.not_compute
    · intro e he l i _ _ hrate
      obtain ⟨l', -, rfl⟩ := hstarted.mem_events.mp he
      exact lt_add_of_pos_right _ (transmissionTime_pos hrate)
  · intro i hi
    rw [hcomputes.before_eq] at hi
    exact hstarted.created.pendingpackets i hi

theorem paced_step (hsolve : Sound env.solve) (htype : x.strategyType = .reactive)
    (hlive : Live x) (hx : Paced x) (h : TimedStep env x a y) : Paced y ∧ a.Timely := by
  obtain ⟨poll, e, hnext, htx, hrun⟩ := h
  rcases run_cases hrun with
    ⟨hcompute, before, after, rfl, hcomputes⟩ | ⟨l, hle, ⟨-, rfl, rfl⟩ | ⟨-, hsend⟩⟩
  · have hempty := hx.empty_of_isNext hlive hnext hcompute
    constructor
    · apply hcomputes.paced hsolve htype hempty
      · intro e' he' hcompute'
        obtain ⟨hmem, huid⟩ := mem_remove.mp he'
        exact huid (congrArg _ (hx.once e' hmem e hnext.mem hcompute' hcompute))
      · intro e' he' l i hle hi hrate
        exact (hx.inTime e hnext.mem hcompute e' (mem_remove.mp he').1 l i hle hi hrate).close
    · intro i hi
      rw [hcomputes.before_eq] at hi
      exact hempty i hi
  · refine ⟨⟨?_, hx.unused, ?_, ?_⟩, trivial⟩
    · intro c hc c' hc'
      exact hx.once c (mem_remove.mp hc).1 c' (mem_remove.mp hc').1
    · intro c hc
      exact hx.enqueued c (mem_remove.mp hc).1
    · intro c hc hcompute e' he'
      exact hx.inTime c (mem_remove.mp hc).1 hcompute e' (mem_remove.mp he').1
  · refine ⟨hx.sendData hlive hnext hle htx hsend, ?_⟩
    obtain ⟨interface, hl, -, -, ⟨rfl, -⟩ | ⟨packetInfo, rest, hqueue, rfl, -⟩⟩ :=
      sendData_eq_ok hsend
    · trivial
    · have hlt := hx.ts_lt_of_isNext hlive hnext (List.mem_of_getElem? hl)
        (hqueue ▸ List.mem_cons_self)
      change e.ts - packetInfo.dateEnqueued < 1
      linarith

theorem paced_of_timedRuns (hsolve : Sound env.solve) (htype : setup.strategyType = .reactive)
    (h : TimedRuns env setup as x) : Paced x ∧ ∀ a ∈ as, a.Timely := by
  apply h.invariant (I := fun as x => Paced x ∧ ∀ a ∈ as, a.Timely)
  · intro a x hinit
    obtain ⟨hx, ha⟩ := paced_init hsolve htype hinit
    exact ⟨hx, List.forall_mem_singleton.mpr ha⟩
  · intro as a x y hreach hx hstep
    have htype' : x.strategyType = .reactive :=
      (strategyType_of_runs (TimedRuns.runs hreach)).trans htype
    obtain ⟨hy, ha⟩ := paced_step hsolve htype'
      (live_of_runs hsolve.answersFeasibly (TimedRuns.runs hreach)) hx.1 hstep
    exact ⟨hy, List.forall_mem_append.mpr ⟨hx.2, List.forall_mem_singleton.mpr ha⟩⟩

/-- Every computation of the reactive strategy starts with empty interface queues. A packet is taken
less than one second after it was enqueued, and no packet waits longer: while one waits, the next
event is less than one second away from its enqueuing. -/
theorem queues_keep_pace (hsolve : Sound env.solve) (htype : setup.strategyType = .reactive)
    (h : TimedRuns env setup as x) :
    (∀ now before after, Action.computed now before after ∈ as →
        ∀ i ∈ before.availableInterfaces, i.pendingpackets = []) ∧
      (∀ c, x.simulator.IsNext c → c.handler = .computeStrategyAndContinue →
        ∀ i ∈ x.strategy.availableInterfaces, i.pendingpackets = []) ∧
      (∀ now l packetInfo isCorrupt, Action.taken now l packetInfo isCorrupt ∈ as →
        now - packetInfo.dateEnqueued < 1) ∧
      ∀ i ∈ x.strategy.availableInterfaces, ∀ packetInfo ∈ i.pendingpackets,
        ∃ e, x.simulator.IsNext e ∧ e.ts - packetInfo.dateEnqueued < 1 := by
  obtain ⟨hx, has⟩ := paced_of_timedRuns hsolve htype h
  have hlive := live_of_runs hsolve.answersFeasibly h.runs
  refine ⟨fun now before after ha => has _ ha, fun c hnext hc => hx.empty_of_isNext hlive hnext hc,
    fun now l packetInfo isCorrupt ha => has _ ha, fun i hi packetInfo hinfo => ?_⟩
  have hsent := getAllDataHasBeenSent_of_pending hi hinfo
  obtain ⟨c, hc, -⟩ := hlive.computes hsent
  obtain ⟨e, hnext⟩ := exists_isNext hc
  have hlt := hx.ts_lt_of_isNext hlive hnext hi hinfo
  exact ⟨e, hnext, by linarith⟩

theorem queues_keep_pace_sample :
    ∃ as x, TimedRuns sampleEnvironment (sampleSetup .reactive) as x ∧ as.length = 3 ∧
      ∀ i ∈ x.strategy.availableInterfaces, ∀ packetInfo ∈ i.pendingpackets,
        ∃ e, x.simulator.IsNext e ∧ e.ts - packetInfo.dateEnqueued < 1 := by
  obtain ⟨as, x, hruns, hobserved⟩ := exists_timedRuns sampleEnvironment 0
    (sampleSetup .reactive) [false, true] (fun s => s.1.length) 3 (by decide +kernel)
  exact ⟨as, x, hruns, hobserved, (queues_keep_pace (sound_offer _) rfl hruns).2.2.2⟩

end

end SenderApplication

end SdWan
