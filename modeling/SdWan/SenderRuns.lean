import SdWan.SenderApplication
import SdWan.Library.Transition

/-!
# Runs of the sender

`Step` lets any pending event run at any time, whatever the socket and the error model answer. The
order in which the simulator runs the events, and the times, are constraints that only the results
about time need.

`run_cases` says what one event can do, and `compute_effect` what a computation can do.
-/

open IntegerProgram

namespace SdWan

/-! ## What a computation does -/

/-- A successful computation drains the applications, or it is a later call of the linear strategy
and does nothing. -/
theorem Strategy.compute_effect {env : Environment} (hsolve : AnswersFeasibly env.solve)
    {strategyType : StrategyTypes} {now : Time} {s s' : Strategy}
    (h : s.compute env strategyType now = .ok s') :
    (strategyType = .linear ∧ s.hasBeenComputed = true ∧ s' = s) ∨ ∃ f, Drains now s s' f := by
  cases strategyType with
  | linear => exact (LinearStrategy.compute_drains hsolve h).imp_left fun hdone => ⟨rfl, hdone⟩
  | random =>
    rw [Strategy.compute, RandomStrategy.compute_eq] at h
    cases h
  | roundRobin => exact .inr (RoundRobinStrategy.compute_drains h)
  | reactive => exact .inr (ReactiveStrategy.compute_drains hsolve h)

/-- No computation pops from an empty queue. -/
theorem Strategy.compute_ne_popOnEmptyQueue {env : Environment} (hsolve : AnswersFeasibly env.solve)
    {strategyType : StrategyTypes} {now : Time} {s s' : Strategy} {e : Fault}
    (h : s.compute env strategyType now = .error (e, s')) : e ≠ .popOnEmptyQueue := by
  cases strategyType with
  | linear =>
    rw [(LinearStrategy.compute_error hsolve h).1]
    exact Fault.noConfusion
  | random =>
    rw [Strategy.compute, RandomStrategy.compute_eq] at h
    cases h
    exact Fault.noConfusion
  | roundRobin =>
    rw [RoundRobinStrategy.compute_error h]
    exact Fault.noConfusion
  | reactive =>
    rcases (ReactiveStrategy.compute_error hsolve h).1 with rfl | rfl
    · exact Fault.noConfusion
    · exact Fault.noConfusion

/-- Only the queues of the interfaces change. -/
theorem Strategy.compute_keeps {γ : Type*} {g : ISPInterface → γ}
    (hg : ∀ i p, g (i.enqueuePacket p) = g i) {env : Environment} {strategyType : StrategyTypes}
    {now : Time} {s s' : Strategy} (h : s.compute env strategyType now = .ok s') :
    s'.availableInterfaces.map g = s.availableInterfaces.map g := by
  cases strategyType with
  | linear => exact LinearStrategy.compute_keeps hg h
  | random =>
    rw [Strategy.compute, RandomStrategy.compute_eq] at h
    cases h
  | roundRobin =>
    obtain ⟨f, hdrains⟩ := RoundRobinStrategy.compute_drains h
    rw [hdrains.availableInterfaces, map_appendAt hg]
  | reactive => exact ReactiveStrategy.compute_keeps hg h

namespace SenderApplication

theorem forEach_eq_error {call : Application → Result Application} {apps : List Application}
    {e : Fault} (h : forEach call apps = .error e) : ∃ app, call app = .error e := by
  induction apps with
  | nil => cases h
  | cons app apps ih =>
    rcases Result.bind_eq_error.mp h with h | ⟨app', -, h⟩
    · exact ⟨app, h⟩
    · rcases Result.bind_eq_error.mp h with h | ⟨rest, -, h⟩
      · exact ih h
      · cases h

theorem forEach_eq_ok {call : Application → Result Application} {apps apps' : List Application} :
    forEach call apps = .ok apps' ↔
      List.Forall₂ (fun app app' => call app = .ok app') apps apps' := by
  induction apps generalizing apps' with
  | nil => simp [forEach, eq_comm]
  | cons app apps ih =>
    rw [forEach, Result.bind_eq_ok, List.forall₂_cons_left_iff]
    constructor
    · rintro ⟨app', happ, h⟩
      obtain ⟨rest, hrest, h⟩ := Result.bind_eq_ok.mp h
      exact ⟨app', rest, happ, ih.mp hrest, (Except.ok.inj h).symm⟩
    · rintro ⟨app', rest, happ, hrest, rfl⟩
      exact ⟨app', happ, Result.bind_eq_ok.mpr ⟨rest, ih.mpr hrest, rfl⟩⟩

/-- What a call of `computeStrategyAndContinue` does. -/
structure Computes (env : Environment) (now : Time) (x y : SenderApplication)
    (before after : Strategy) : Prop where
  updated : List.Forall₂ (fun app app' => app.update = .ok app') x.strategy.applications
    before.applications
  before_eq : before = { x.strategy with applications := before.applications }
  computed : before.compute env x.strategyType now = .ok after
  strategyType : y.strategyType = x.strategyType
  strategy : y.strategy = after
  simulator : y.simulator = if after.getAllDataHasBeenSent then x.simulator
    else x.simulator.schedule (now + 1) .computeStrategyAndContinue

theorem computeStrategyAndContinue_eq_ok {env : Environment} {now : Time}
    {x y : SenderApplication} {a : Action}
    (h : computeStrategyAndContinue env now x = .ok (a, y)) :
    ∃ before after, a = .computed now before after ∧ Computes env now x y before after := by
  obtain ⟨applications, happs, h⟩ := Result.bind_eq_ok.mp h
  dsimp only at h
  split at h
  · cases h
  rename_i after hcompute
  cases h
  refine ⟨_, after, rfl, forEach_eq_ok.mp happs, rfl, hcompute, ?_, ?_, ?_⟩
  · split_ifs <;> rfl
  · split_ifs <;> rfl
  · split_ifs <;> rfl

/-- What a call of `sendPacket` that takes a packet does to its interface. -/
def afterSend (interface : ISPInterface) (rest : List SendPacketInfo) (flowId : ℕ)
    (isCorrupt : Bool) : ISPInterface :=
  if isCorrupt then corrupted { interface with pendingpackets := rest }
  else sent { interface with pendingpackets := rest } ⟨Utils.packetSizeByte, flowId⟩

@[simp] theorem attributes_afterSend (interface : ISPInterface) (rest : List SendPacketInfo)
    (flowId : ℕ) (isCorrupt : Bool) :
    (afterSend interface rest flowId isCorrupt).attributes = interface.attributes := by
  unfold afterSend
  split_ifs <;> rfl

@[simp] theorem pendingpackets_afterSend (interface : ISPInterface) (rest : List SendPacketInfo)
    (flowId : ℕ) (isCorrupt : Bool) :
    (afterSend interface rest flowId isCorrupt).pendingpackets = rest := by
  unfold afterSend
  split_ifs <;> rfl

section

variable {env : Environment} {now : Time} {poll : Poll} {x y : SenderApplication} {a : Action}

theorem sendData_eq_ok {l : ℕ} (h : sendData now poll l x = .ok (a, y)) :
    ∃ interface, x.strategy.availableInterfaces[l]? = some interface ∧
      y.strategyType = x.strategyType ∧
      y.simulator = x.simulator.schedule (now + transmissionTime interface) (.sendPacket l) ∧
      ((a = .idle l ∧ y.strategy = x.strategy ∧
          (Utils.packetSizeByte ≤ poll.txAvailable → interface.pendingpackets = [])) ∨
        ∃ packetInfo rest, interface.pendingpackets = packetInfo :: rest ∧
          a = .taken now l packetInfo poll.isCorrupt ∧
          y.strategy = { x.strategy with
            availableInterfaces := x.strategy.availableInterfaces.set l
              (afterSend interface rest packetInfo.originatedFrom poll.isCorrupt) }) := by
  unfold sendData at h
  split at h
  · cases h
  rename_i interface hl
  refine ⟨interface, hl, ?_⟩
  dsimp only at h
  by_cases hempty : (!interface.getHasAnyAvailablePackage) = true
  · rw [if_pos hempty] at h
    cases h
    have hnil : interface.pendingpackets = [] := by
      simpa [ISPInterface.getHasAnyAvailablePackage] using hempty
    exact ⟨rfl, rfl, .inl ⟨rfl, rfl, fun _ => hnil⟩⟩
  rw [if_neg hempty] at h
  by_cases htx : poll.txAvailable < Utils.packetSizeByte
  · rw [if_pos htx] at h
    cases h
    exact ⟨rfl, rfl, .inl ⟨rfl, rfl, fun hle => absurd htx (by omega)⟩⟩
  rw [if_neg htx] at h
  unfold ISPInterface.getNextPacket at h
  cases hqueue : interface.pendingpackets with
  | nil =>
    rw [hqueue] at h
    cases h
  | cons packetInfo rest =>
    rw [hqueue] at h
    dsimp only at h
    by_cases hcorrupt : poll.isCorrupt = true
    · rw [if_pos hcorrupt] at h
      cases h
      refine ⟨rfl, rfl, .inr ⟨packetInfo, rest, rfl, rfl, ?_⟩⟩
      rw [afterSend, if_pos hcorrupt]
    · rw [if_neg hcorrupt] at h
      split_ifs at h
      cases h
      refine ⟨rfl, rfl, .inr ⟨packetInfo, rest, rfl, rfl, ?_⟩⟩
      rw [afterSend, if_neg hcorrupt]

/-- What one event can do. -/
theorem run_cases {e : EventQueue.Event Time Handler}
    (h : run env now poll e x = .ok (a, y)) :
    (e.handler = .computeStrategyAndContinue ∧ ∃ before after, a = .computed now before after ∧
        Computes env now { x with simulator := x.simulator.remove e } y before after) ∨
      ∃ l, e.handler = .sendPacket l ∧
        ((x.strategy.getAllDataHasBeenSent = true ∧ a = .ended l ∧
            y = { x with simulator := x.simulator.remove e }) ∨
          (x.strategy.getAllDataHasBeenSent = false ∧
            sendData now poll l { x with simulator := x.simulator.remove e } = .ok (a, y))) := by
  unfold run at h
  dsimp only at h
  split at h
  · rename_i hhandler
    exact .inl ⟨hhandler, computeStrategyAndContinue_eq_ok h⟩
  · rename_i l hhandler
    refine .inr ⟨l, hhandler, ?_⟩
    unfold sendPacket at h
    split_ifs at h with hsent
    · cases h
      exact .inl ⟨hsent, rfl, rfl⟩
    · exact .inr ⟨by simpa using hsent, h⟩

end

/-! ## The start -/

/-- The interfaces as they are created: idle, with different addresses. -/
structure Created (ifaces : List ISPInterface) : Prop where
  pendingpackets : ∀ i ∈ ifaces, i.pendingpackets = []
  correctPackages : ∀ i ∈ ifaces, i.correctPackages = 0
  corruptPackages : ∀ i ∈ ifaces, i.corruptPackages = 0
  socketInfo : ∀ i ∈ ifaces, i.socketInfo.sent = []
  distinct : (ifaces.map (·.outgoingAddress)).Nodup

theorem created_nil : Created [] where
  pendingpackets i hi := by cases hi
  correctPackages i hi := by cases hi
  corruptPackages i hi := by cases hi
  socketInfo i hi := by cases hi
  distinct := List.nodup_nil

theorem Created.initSocket {s : List ISPInterface × ℕ} (h : Created s.1) (device : NetDevice)
    (source destinationAddress : Address) (cost : ℕ) :
    Created (initSocket device source destinationAddress cost s).1 := by
  unfold SenderApplication.initSocket
  split_ifs with hinit
  · exact h
  have hnew : source ∉ s.1.map (·.outgoingAddress) := by
    intro hmem
    obtain ⟨i, hi, heq⟩ := List.mem_map.mp hmem
    apply hinit
    rw [hasAlreadyInitSocket, List.any_eq_true]
    exact ⟨i, hi, decide_eq_true heq⟩
  constructor
  · rw [List.forall_mem_append]
    exact ⟨h.pendingpackets, List.forall_mem_singleton.mpr rfl⟩
  · rw [List.forall_mem_append]
    exact ⟨h.correctPackages, List.forall_mem_singleton.mpr rfl⟩
  · rw [List.forall_mem_append]
    exact ⟨h.corruptPackages, List.forall_mem_singleton.mpr rfl⟩
  · rw [List.forall_mem_append]
    exact ⟨h.socketInfo, List.forall_mem_singleton.mpr rfl⟩
  · rw [List.map_append, List.map_singleton, List.nodup_append]
    refine ⟨h.distinct, List.nodup_singleton _, fun b hb c hc heq => ?_⟩
    rw [List.mem_singleton.mp hc] at heq
    exact hnew ((show b = source from heq) ▸ hb)

theorem initSockets_created {setup : Setup} {s : List ISPInterface × ℕ}
    (h : initSockets setup = .ok s) : Created s.1 := by
  apply Result.foldlM_invariant (P := fun s => Created s.1) _ h created_nil
  intro s device s' hs hdevice
  apply Result.foldlM_invariant (P := fun s => Created s.1) _ hdevice hs
  intro s addr s' hs haddr
  obtain ⟨destinationAddress, -, haddr⟩ := Result.bind_eq_ok.mp haddr
  obtain ⟨cost, -, haddr⟩ := Result.bind_eq_ok.mp haddr
  cases haddr
  exact hs.initSocket _ _ _ _

theorem initInterfaceEventLoops_eq (now : Time) (n : ℕ) :
    initInterfaceEventLoops now n =
      ⟨(List.range n).map fun l => ⟨now, l, .sendPacket l⟩, n⟩ := by
  unfold initInterfaceEventLoops
  induction n with
  | zero => rfl
  | succ n ih =>
    rw [List.range_succ, List.foldl_append, ih, List.map_append]
    simp [EventQueue.schedule]

/-- The sender before its first computation. -/
structure Started (setup : Setup) (now : Time) (x : SenderApplication) : Prop where
  created : Created x.strategy.availableInterfaces
  applications : List.Forall₂ (fun app app' => app.onApplicationStart = .ok app')
    setup.application x.strategy.applications
  strategy : x.strategy = {
    applications := x.strategy.applications
    availableInterfaces := x.strategy.availableInterfaces }
  strategyType : x.strategyType = setup.strategyType
  simulator : x.simulator = initInterfaceEventLoops now x.strategy.availableInterfaces.length

/-- Only the polls of the interfaces are pending, at once. -/
theorem Started.mem_events {setup : Setup} {now : Time} {x : SenderApplication}
    (h : Started setup now x) {e : EventQueue.Event Time Handler} :
    e ∈ x.simulator.events ↔
      ∃ l < x.strategy.availableInterfaces.length, e = ⟨now, l, .sendPacket l⟩ := by
  rw [h.simulator, initInterfaceEventLoops_eq, List.mem_map]
  simp only [List.mem_range, eq_comm]

theorem Started.not_compute {setup : Setup} {now : Time} {x : SenderApplication}
    (h : Started setup now x) :
    ∀ e ∈ x.simulator.events, e.handler ≠ .computeStrategyAndContinue := by
  intro e he
  obtain ⟨l, -, rfl⟩ := h.mem_events.mp he
  exact Handler.noConfusion

theorem startApplication_eq_ok {env : Environment} {now : Time} {setup : Setup} {a : Action}
    {y : SenderApplication} (h : startApplication env now setup = .ok (a, y)) :
    ∃ x before after, Started setup now x ∧ a = .computed now before after ∧
      Computes env now x y before after := by
  obtain ⟨⟨availableInterfaces, lastId⟩, hifaces, h⟩ := Result.bind_eq_ok.mp h
  obtain ⟨applications, happs, h⟩ := Result.bind_eq_ok.mp h
  obtain ⟨before, after, ha, hcomputes⟩ := computeStrategyAndContinue_eq_ok h
  exact ⟨_, before, after,
    ⟨initSockets_created hifaces, forEach_eq_ok.mp happs, rfl, rfl, rfl⟩, ha, hcomputes⟩

/-! ## Runs -/

def Init (env : Environment) (setup : Setup) (a : Action) (x : SenderApplication) : Prop :=
  ∃ now, startApplication env now setup = .ok (a, x)

def Step (env : Environment) (x : SenderApplication) (a : Action) (y : SenderApplication) : Prop :=
  ∃ now poll, ∃ e ∈ x.simulator.events, run env now poll e x = .ok (a, y)

abbrev Runs (env : Environment) (setup : Setup) : List Action → SenderApplication → Prop :=
  Transition.Reaches (Init env setup) (Step env)

/-- The next event runs at its own time, and every socket takes a packet. -/
def TimedStep (env : Environment) (x : SenderApplication) (a : Action) (y : SenderApplication) :
    Prop :=
  ∃ poll e, x.simulator.IsNext e ∧ Utils.packetSizeByte ≤ poll.txAvailable ∧
    run env e.ts poll e x = .ok (a, y)

abbrev TimedRuns (env : Environment) (setup : Setup) : List Action → SenderApplication → Prop :=
  Transition.Reaches (Init env setup) (TimedStep env)

theorem TimedStep.step {env : Environment} {x y : SenderApplication} {a : Action}
    (h : TimedStep env x a y) : Step env x a y := by
  obtain ⟨poll, e, hnext, -, hrun⟩ := h
  exact ⟨e.ts, poll, e, hnext.mem, hrun⟩

theorem TimedRuns.runs {env : Environment} {setup : Setup} {as : List Action}
    {x : SenderApplication} (h : TimedRuns env setup as x) : Runs env setup as x :=
  h.mono (fun _ _ hinit => hinit) fun _ _ _ hstep => hstep.step

/-- The simulator, run for one event per entry: does the error model corrupt the packet? The
sockets take every packet offered. -/
def simulate (env : Environment) : List Bool → List Action × SenderApplication →
    Result (List Action × SenderApplication)
  | [], s => .ok s
  | isCorrupt :: polls, (as, x) =>
    match x.simulator.next? with
    | none => .ok (as, x)
    | some e => do
      let (a, y) ← run env e.ts ⟨Utils.packetSizeByte, isCorrupt, Utils.packetSizeByte⟩ e x
      simulate env polls (as ++ [a], y)

theorem timedRuns_of_simulate {env : Environment} {setup : Setup} {polls : List Bool}
    {as as' : List Action} {x x' : SenderApplication} (h : TimedRuns env setup as x)
    (hsim : simulate env polls (as, x) = .ok (as', x')) : TimedRuns env setup as' x' := by
  induction polls generalizing as x with
  | nil =>
    cases hsim
    exact h
  | cons isCorrupt polls ih =>
    rw [simulate] at hsim
    split at hsim
    · cases hsim
      exact h
    · rename_i e hnext
      obtain ⟨⟨a, y⟩, hrun, hsim⟩ := Result.bind_eq_ok.mp hsim
      exact ih (h.step ⟨_, e, EventQueue.isNext_of_next? hnext, le_rfl, hrun⟩) hsim

/-- A run from the start on. -/
def simulateFrom (env : Environment) (now : Time) (setup : Setup) (polls : List Bool) :
    Result (List Action × SenderApplication) := do
  let (a, x) ← startApplication env now setup
  simulate env polls ([a], x)

theorem timedRuns_of_simulateFrom {env : Environment} {now : Time} {setup : Setup}
    {polls : List Bool} {as : List Action} {x : SenderApplication}
    (h : simulateFrom env now setup polls = .ok (as, x)) : TimedRuns env setup as x := by
  obtain ⟨⟨a, y⟩, hstart, h⟩ := Result.bind_eq_ok.mp h
  exact timedRuns_of_simulate (.start ⟨now, hstart⟩) h

section

variable {env : Environment} {x y : SenderApplication} {a : Action}

theorem Computes.scheduled {now : Time} {before after : Strategy}
    (h : Computes env now x y before after) (hx : x.simulator.Scheduled) :
    y.simulator.Scheduled := by
  rw [h.simulator]
  split_ifs
  · exact hx
  · exact hx.schedule _ _

/-- The events pending after a computation were pending before, or are the next computation. -/
theorem Computes.mem_cases {now : Time} {before after : Strategy}
    (h : Computes env now x y before after) {e : EventQueue.Event Time Handler}
    (he : e ∈ y.simulator.events) :
    e ∈ x.simulator.events ∨
      e = ⟨now + 1, x.simulator.nextUid, .computeStrategyAndContinue⟩ := by
  rw [h.simulator] at he
  split_ifs at he
  · exact .inl he
  · exact EventQueue.mem_schedule.mp he

/-- The only computation pending afterwards is the one just scheduled. -/
theorem Computes.eq_of_pending {now : Time} {before after : Strategy}
    (h : Computes env now x y before after)
    (hnone : ∀ e ∈ x.simulator.events, e.handler ≠ .computeStrategyAndContinue)
    {c : EventQueue.Event Time Handler} (hc : c ∈ y.simulator.events)
    (hcompute : c.handler = .computeStrategyAndContinue) :
    c = ⟨now + 1, x.simulator.nextUid, .computeStrategyAndContinue⟩ :=
  (h.mem_cases hc).resolve_left fun hold => hnone c hold hcompute

/-- The polls pending afterwards were pending before. -/
theorem Computes.mem_of_sendPacket {now : Time} {before after : Strategy}
    (h : Computes env now x y before after) {e : EventQueue.Event Time Handler}
    (he : e ∈ y.simulator.events) {l : ℕ} (hle : e.handler = .sendPacket l) :
    e ∈ x.simulator.events := by
  rcases h.mem_cases he with hold | rfl
  · exact hold
  · cases hle

theorem scheduled_initInterfaceEventLoops (now : Time) (n : ℕ) :
    (initInterfaceEventLoops now n).Scheduled := by
  unfold initInterfaceEventLoops
  induction n with
  | zero => exact EventQueue.scheduled_empty
  | succ n ih =>
    rw [List.range_succ, List.foldl_append]
    exact ih.schedule _ _

theorem step_scheduled (h : Step env x a y) (hx : x.simulator.Scheduled) :
    y.simulator.Scheduled := by
  obtain ⟨now, poll, e, -, hrun⟩ := h
  rcases run_cases hrun with ⟨-, before, after, -, hcomputes⟩ | ⟨l, -, ⟨-, -, rfl⟩ | ⟨-, hsend⟩⟩
  · exact hcomputes.scheduled (hx.remove e)
  · exact hx.remove e
  · obtain ⟨interface, -, -, hsimulator, -⟩ := sendData_eq_ok hsend
    rw [hsimulator]
    exact (hx.remove e).schedule _ _

/-- Only the queues of the interfaces change. -/
theorem Computes.keeps {γ : Type*} {g : ISPInterface → γ}
    (hg : ∀ i p, g (i.enqueuePacket p) = g i) {now : Time} {before after : Strategy}
    (h : Computes env now x y before after) :
    y.strategy.availableInterfaces.map g = x.strategy.availableInterfaces.map g := by
  rw [h.strategy, Strategy.compute_keeps hg h.computed, h.before_eq]

/-- The links stay the same. -/
theorem Computes.attributes {now : Time} {before after : Strategy}
    (h : Computes env now x y before after) :
    y.strategy.availableInterfaces.map (·.attributes) =
      x.strategy.availableInterfaces.map (·.attributes) :=
  h.keeps fun _ _ => rfl

theorem step_attributes (h : Step env x a y) :
    y.strategy.availableInterfaces.map (·.attributes) =
      x.strategy.availableInterfaces.map (·.attributes) := by
  obtain ⟨now, poll, e, -, hrun⟩ := h
  rcases run_cases hrun with ⟨-, before, after, -, hcomputes⟩ | ⟨l, -, ⟨-, -, rfl⟩ | ⟨-, hsend⟩⟩
  · have hlinks := hcomputes.attributes
    exact hlinks
  · rfl
  · obtain ⟨interface, hl, -, -, hcases⟩ := sendData_eq_ok hsend
    rcases hcases with ⟨-, hstrategy, -⟩ | ⟨packetInfo, rest, -, -, hstrategy⟩
    · rw [hstrategy]
    · rw [hstrategy]
      exact map_set_of_eq hl (attributes_afterSend _ _ _ _)

end

/-- Apart from the interfaces, a poll leaves the strategy as it is. -/
theorem strategy_of_sendData {now : Time} {poll : Poll} {l : ℕ} {x y : SenderApplication}
    {a : Action} (h : sendData now poll l x = .ok (a, y)) :
    y.strategy = { x.strategy with availableInterfaces := y.strategy.availableInterfaces } := by
  obtain ⟨interface, -, -, -, ⟨-, hstrategy, -⟩ | ⟨packetInfo, rest, -, -, hstrategy⟩⟩ :=
    sendData_eq_ok h
  · rw [hstrategy]
  · rw [hstrategy]

theorem step_computes_or_keeps {env : Environment} {x y : SenderApplication} {a : Action}
    (h : Step env x a y) :
    (∃ now e before after,
        Computes env now { x with simulator := x.simulator.remove e } y before after) ∨
      y.strategy = { x.strategy with availableInterfaces := y.strategy.availableInterfaces } := by
  obtain ⟨now, poll, e, -, hrun⟩ := h
  rcases run_cases hrun with ⟨-, before, after, -, hcomputes⟩ | ⟨l, -, ⟨-, -, rfl⟩ | ⟨-, hsend⟩⟩
  · exact .inl ⟨now, e, before, after, hcomputes⟩
  · exact .inr rfl
  · have hkeeps := strategy_of_sendData hsend
    exact .inr hkeeps

theorem step_strategyType {env : Environment} {x y : SenderApplication} {a : Action}
    (h : Step env x a y) : y.strategyType = x.strategyType := by
  obtain ⟨now, poll, e, -, hrun⟩ := h
  rcases run_cases hrun with ⟨-, before, after, -, hcomputes⟩ | ⟨l, -, ⟨-, -, rfl⟩ | ⟨-, hsend⟩⟩
  · exact hcomputes.strategyType
  · rfl
  · obtain ⟨interface, -, htype, -, -⟩ := sendData_eq_ok hsend
    exact htype

theorem strategyType_of_runs {env : Environment} {setup : Setup} {as : List Action}
    {x : SenderApplication} (h : Runs env setup as x) : x.strategyType = setup.strategyType := by
  apply h.invariant (I := fun _ x => x.strategyType = setup.strategyType)
  · rintro a y ⟨now, hstart⟩
    obtain ⟨x, before, after, hstarted, -, hcomputes⟩ := startApplication_eq_ok hstart
    rw [hcomputes.strategyType, hstarted.strategyType]
  · intro as a x y _ hx hstep
    rw [step_strategyType hstep, hx]

/-! ## A small sender -/

def sampleStatic : Application :=
  .static {
    applicationId := 1
    requiredDelay := 100
    errorRate := 5
    amountOfPacketsToSend := 3
    requiredDataRate := 1024
    allPacketsGenerated := false }

/-- Two links, of two packets and of one packet per second. -/
def sampleSetup (strategyType : StrategyTypes) : Setup where
  devices := [(⟨2048, 10, 0⟩, [1]), (⟨1024, 20, 0⟩, [2])]
  addresses := [⟨11, Utils.connectionPort⟩, ⟨12, Utils.connectionPort⟩]
  costs := [1, 3]
  application := [sampleStatic]
  strategyType := strategyType
  fresh := by simp [sampleStatic, Application.Fresh]

/-- The solver knows how to spread three packets, and none. -/
def sampleEnvironment : Environment where
  solve := offer [fun v => if v = 0 then 2 else if v = 1 then 1 else 0, fun _ => 0]
  shuffle draws indexes := (indexes, draws)
  rng := id

/-- More packets than the only link takes in a second. -/
def overloadedStrategy : Strategy where
  applications := [sampleStatic.setPending [0, 1, 2]]
  availableInterfaces := [{
    interfaceId := 101
    netDevice := ⟨1024, 20, 0⟩
    outgoingAddress := ⟨1, Utils.connectionPort⟩
    destinationAddress := ⟨11, Utils.connectionPort⟩
    errorModel := 0
    cost := 1 }]

/-- What `observe` sees of a simulation it sees of a run. -/
theorem exists_timedRuns {α : Type} (env : Environment) (now : Time) (setup : Setup)
    (polls : List Bool) (observe : List Action × SenderApplication → α) (o : α)
    (h : (simulateFrom env now setup polls).map observe = .ok o) :
    ∃ as x, TimedRuns env setup as x ∧ observe (as, x) = o := by
  cases hsim : simulateFrom env now setup polls with
  | error e => rw [hsim] at h; cases h
  | ok s =>
    rw [hsim] at h
    exact ⟨s.1, s.2, timedRuns_of_simulateFrom hsim, Except.ok.inj h⟩

end SenderApplication

/-! ## Failing computations -/

/-- A computation of an optimising strategy that throws has moved no packet and recorded nothing;
in particular no queue runs empty while a solution is dispatched. -/
theorem Strategy.eq_of_compute_error {env : Environment} (hsolve : AnswersFeasibly env.solve)
    {strategyType : StrategyTypes} (htype : strategyType = .linear ∨ strategyType = .reactive)
    {now : Time} {s s' : Strategy} {e : Fault}
    (h : s.compute env strategyType now = .error (e, s')) :
    s' = s ∧ e ≠ .runtimeErrorPointer "Nessun pacchetto" ∧ e ≠ .popOnEmptyQueue := by
  rcases htype with rfl | rfl
  · obtain ⟨rfl, rfl⟩ := LinearStrategy.compute_error hsolve h
    exact ⟨rfl, Fault.noConfusion, Fault.noConfusion⟩
  · obtain ⟨he, rfl⟩ := ReactiveStrategy.compute_error hsolve h
    refine ⟨rfl, ?_, Strategy.compute_ne_popOnEmptyQueue hsolve h⟩
    rcases he with rfl | rfl
    · intro hmessage
      exact absurd (Fault.runtimeErrorPointer.inj hmessage) (by decide)
    · exact Fault.noConfusion

theorem Strategy.eq_of_compute_error_sample :
    ∃ e s', SenderApplication.overloadedStrategy.compute SenderApplication.sampleEnvironment
        .reactive 0 = .error (e, s') ∧ s' = SenderApplication.overloadedStrategy := by
  have hnone : SenderApplication.sampleEnvironment.solve (ReactiveStrategy.program 0
      SenderApplication.overloadedStrategy.applications
      SenderApplication.overloadedStrategy.availableInterfaces) = none :=
    Option.map_eq_none_iff.mpr (List.find?_eq_none.mpr (by decide +kernel))
  have hfail : SenderApplication.overloadedStrategy.compute SenderApplication.sampleEnvironment
      .reactive 0 = .error (.runtimeErrorPointer "Nessuna soluzione trovata",
        SenderApplication.overloadedStrategy) :=
    ReactiveStrategy.compute_of_none (by decide) (by decide) hnone
  exact ⟨_, _, hfail,
    (Strategy.eq_of_compute_error (sound_offer _).answersFeasibly (.inr rfl) hfail).1⟩

end SdWan
