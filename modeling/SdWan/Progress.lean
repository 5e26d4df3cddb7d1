import SdWan.OfferedLoad
import SdWan.Pacing
import SdWan.Remaining
import SdWan.RoundRobinBalance

/-!
# Every event can run

A sender whose sockets take every packet offered fails for one reason only: a computation of an
optimising strategy whose program has no solution. In particular no vector is read out of range.
-/

open IntegerProgram

namespace SdWan

/-! ## Computations without a solution -/

/-- The program of a computation has no solution. The fault is the one it throws then. -/
inductive Strategy.Infeasible (env : Environment) (now : Time) (s : Strategy) :
    StrategyTypes → Fault → Prop
  | linear : s.hasBeenComputed = false →
      env.solve (LinearStrategy.program s.applications s.availableInterfaces) = none →
      Infeasible env now s .linear (.runtimeError "Soluzione non trovata")
  | reactive :
      env.solve (ReactiveStrategy.program now s.applications s.availableInterfaces) = none →
      Infeasible env now s .reactive (.runtimeErrorPointer "Nessuna soluzione trovata")

theorem Strategy.Infeasible.ne_outOfRange {env : Environment} {now : Time} {s : Strategy}
    {strategyType : StrategyTypes} {f : Fault} (h : s.Infeasible env now strategyType f) :
    f ≠ .outOfRange := by
  cases h with
  | linear => exact Fault.noConfusion
  | reactive => exact Fault.noConfusion

/-- With some interfaces, but not too many of them for the reactive strategy, a computation fails
only without a solution. -/
theorem Strategy.infeasible_of_compute_error {env : Environment}
    (hsolve : AnswersFeasibly env.solve) {strategyType : StrategyTypes} {now : Time}
    {s s' : Strategy} {f : Fault} (hn : 0 < s.availableInterfaces.length)
    (hrandom : strategyType ≠ .random)
    (hwidth : strategyType = .reactive → s.availableInterfaces.length ≤ 31)
    (h : s.compute env strategyType now = .error (f, s')) :
    s.Infeasible env now strategyType f := by
  cases strategyType with
  | linear =>
    rw [Strategy.compute] at h
    cases hfirst : s.hasBeenComputed with
    | true =>
      rw [LinearStrategy.compute, hfirst] at h
      cases h
    | false =>
      cases hr : env.solve (LinearStrategy.program s.applications s.availableInterfaces) with
      | none =>
        rw [(LinearStrategy.compute_error hsolve h).1]
        exact .linear hfirst hr
      | some r =>
        rw [LinearStrategy.compute_of_some hfirst hr (hsolve _ _ hr)] at h
        cases h
  | random => exact absurd rfl hrandom
  | roundRobin =>
    obtain ⟨s₁, hcompute, -⟩ := RoundRobinStrategy.compute_deals now hn
    rw [Strategy.compute, hcompute] at h
    cases h
  | reactive =>
    have h31 : s.availableInterfaces.length < 32 := Nat.lt_succ_of_le (hwidth rfl)
    rw [Strategy.compute] at h
    cases hr : env.solve (ReactiveStrategy.program now s.applications s.availableInterfaces) with
    | none =>
      rw [ReactiveStrategy.compute_of_none hn h31 hr] at h
      cases h
      exact .reactive hr
    | some r =>
      rw [ReactiveStrategy.compute_of_some hn h31 hr (hsolve _ _ hr)] at h
      cases h

theorem Strategy.compute_linear_again {env : Environment} {now : Time} {s : Strategy}
    (h : s.hasBeenComputed = true) : s.compute env .linear now = .ok s := by
  rw [Strategy.compute, LinearStrategy.compute, h]
  rfl

namespace SenderApplication

variable {env : Environment}

/-- A computation of this sender whose program has no solution. -/
def CallInfeasible (env : Environment) (setup : Setup) (now : Time) (f : Fault) : Prop :=
  ∃ before, ComputeCalled env setup before ∧
    Strategy.Infeasible env now before setup.strategyType f

theorem CallInfeasible.ne_outOfRange {setup : Setup} {now : Time} {f : Fault}
    (h : CallInfeasible env setup now f) : f ≠ .outOfRange := by
  obtain ⟨before, -, hinfeasible⟩ := h
  exact hinfeasible.ne_outOfRange

theorem exists_forEach {call : Application → Result Application} {apps : List Application}
    (h : ∀ app ∈ apps, ∃ app', call app = .ok app') : ∃ apps', forEach call apps = .ok apps' := by
  induction apps with
  | nil => exact ⟨[], rfl⟩
  | cons app apps ih =>
    rw [List.forall_mem_cons] at h
    obtain ⟨app', happ⟩ := h.1
    obtain ⟨apps', hrest⟩ := ih h.2
    refine ⟨app' :: apps', ?_⟩
    rw [forEach, happ, Result.ok_bind, hrest]
    rfl

/-! ## What the sender needs -/

/-- The configuration of a sender with the interfaces `ifaces`: each of them has a rate, the samples
reach to the end of the simulation, and the strategy can compute on that many interfaces. -/
structure Usable (setup : Setup) (ifaces : List ISPInterface) : Prop where
  sockets : ∃ lastId, initSockets setup = .ok (ifaces, lastId)
  nonempty : ifaces ≠ []
  rates : ∀ i ∈ ifaces, 0 < i.getDataBitRate
  longEnough : ∀ app ∈ setup.application, app.LongEnough
  notRandom : setup.strategyType ≠ .random
  width : setup.strategyType = .reactive → ifaces.length ≤ 31

/-- A socket with room for a packet takes the whole packet. -/
def Willing (poll : Poll) : Prop :=
  Utils.packetSizeByte ≤ poll.txAvailable ∧ poll.actual = Utils.packetSizeByte

/-- The sender after its start. -/
structure Steady (setup : Setup) (ifaces : List ISPInterface) (x : SenderApplication) : Prop where
  links : x.strategy.availableInterfaces.map (·.attributes) = ifaces.map (·.attributes)
  polls : ∀ e ∈ x.simulator.events, ∀ l, e.handler = .sendPacket l → l < ifaces.length
  underway : ∀ app ∈ x.strategy.applications, app.Underway
  strategyType : x.strategyType = setup.strategyType

section

variable {setup : Setup} {ifaces : List ISPInterface} {x y : SenderApplication} {now : Time}
  {before after : Strategy}

theorem Steady.length (h : Steady setup ifaces x) :
    x.strategy.availableInterfaces.length = ifaces.length := by
  simpa using congrArg List.length h.links

/-! ## Computations -/

theorem Computes.advances (h : Computes env now x y before after)
    (hunderway : ∀ app ∈ x.strategy.applications, app.Underway) :
    List.Forall₂ Application.Advances x.strategy.applications before.applications :=
  advances_of_updated hunderway h.updated

/-- What is due either stays due, in a later computation of the linear strategy, or the pending
packets move to the interfaces. -/
theorem Computes.moves (hsolve : AnswersFeasibly env.solve)
    (h : Computes env now x y before after) :
    (x.strategyType = .linear ∧ x.strategy.hasBeenComputed = true ∧
        y.strategy.applications = before.applications ∧
        y.strategy.availableInterfaces = x.strategy.availableInterfaces) ∨
      ∃ f, y.strategy.applications = before.applications.map (·.setPending []) ∧
        y.strategy.availableInterfaces = appendAt x.strategy.availableInterfaces f ∧
        totalOver (fun _ _ => 1) x.strategy.availableInterfaces f =
          pendingTotal before.applications := by
  have hifaces : before.availableInterfaces = x.strategy.availableInterfaces := by rw [h.before_eq]
  rw [h.strategy]
  rcases Strategy.compute_effect hsolve h.computed with ⟨hlinear, hdone, hsame⟩ | ⟨f, hdrains⟩
  · rw [h.before_eq] at hdone
    exact .inl ⟨hlinear, hdone, by rw [hsame], by rw [hsame, hifaces]⟩
  · refine .inr ⟨f, hdrains.applications, ?_, ?_⟩
    · rw [hdrains.availableInterfaces, hifaces]
    · rw [← hifaces, hdrains.moved fun _ => 1]
      simp only [mul_one]
      rfl

theorem Computes.steady (hsolve : AnswersFeasibly env.solve)
    (h : Computes env now x y before after) (hx : Steady setup ifaces x) :
    Steady setup ifaces y := by
  have hbefore : ∀ app ∈ before.applications, app.Underway := by
    intro app happ
    obtain ⟨app₀, -, hadvances⟩ := forall₂_mem_right (h.advances hx.underway) happ
    exact hadvances.underway
  constructor
  · rw [h.attributes, hx.links]
  · intro e he l hl
    exact hx.polls e (h.mem_of_sendPacket he hl) l hl
  · rcases h.moves hsolve with ⟨-, -, happs, -⟩ | ⟨f, happs, -, -⟩
    · rw [happs]
      exact hbefore
    · rw [happs, List.forall_mem_map]
      exact fun app happ => Application.underway_setPending (hbefore app happ) []
  · rw [h.strategyType, hx.strategyType]

/-! ## The start -/

theorem start_cases {a : Action} (husable : Usable setup ifaces)
    (h : startApplication env now setup = .ok (a, y)) :
    ∃ x before after, Started setup now x ∧ x.strategy.availableInterfaces = ifaces ∧
      a = .computed now before after ∧ Computes env now x y before after := by
  obtain ⟨lastId, hsockets⟩ := husable.sockets
  obtain ⟨⟨ifaces', lastId'⟩, hifaces, h⟩ := Result.bind_eq_ok.mp h
  obtain ⟨applications, happs, h⟩ := Result.bind_eq_ok.mp h
  obtain ⟨before, after, ha, hcomputes⟩ := computeStrategyAndContinue_eq_ok h
  rw [hsockets] at hifaces
  cases hifaces
  exact ⟨_, before, after, ⟨initSockets_created hsockets, forEach_eq_ok.mp happs, rfl, rfl, rfl⟩,
    rfl, ha, hcomputes⟩

theorem Started.steady (husable : Usable setup ifaces) (h : Started setup now x)
    (hifaces : x.strategy.availableInterfaces = ifaces) : Steady setup ifaces x := by
  constructor
  · rw [hifaces]
  · intro e he l hl
    obtain ⟨l', hl', rfl⟩ := h.mem_events.mp he
    cases hl
    exact hifaces ▸ hl'
  · intro app happ
    obtain ⟨app₀, happ₀, hstart⟩ := forall₂_mem_right h.applications happ
    exact (Application.onApplicationStart_underway (setup.fresh app₀ happ₀)
      (husable.longEnough app₀ happ₀) hstart).1
  · exact h.strategyType

/-! ## Runs -/

theorem Steady.remove (hx : Steady setup ifaces x) (e : EventQueue.Event Time Handler) :
    Steady setup ifaces { x with simulator := x.simulator.remove e } where
  links := hx.links
  polls e' he' := hx.polls e' (EventQueue.mem_remove.mp he').1
  underway := hx.underway
  strategyType := hx.strategyType

theorem Steady.sendData {poll : Poll} {l : ℕ} {a : Action} (hx : Steady setup ifaces x)
    (h : sendData now poll l x = .ok (a, y)) : Steady setup ifaces y := by
  obtain ⟨interface, hl, htype, hsimulator, hcases⟩ := sendData_eq_ok h
  have hpolls : ∀ e ∈ y.simulator.events, ∀ l, e.handler = .sendPacket l → l < ifaces.length := by
    intro e he l' hl'
    rw [hsimulator] at he
    rcases EventQueue.mem_schedule.mp he with he | rfl
    · exact hx.polls e he l' hl'
    · cases hl'
      rw [← hx.length]
      exact (List.getElem?_eq_some_iff.mp hl).1
  rcases hcases with ⟨-, hstrategy, -⟩ | ⟨packetInfo, rest, -, -, hstrategy⟩
  · exact ⟨hstrategy ▸ hx.links, hpolls, hstrategy ▸ hx.underway, htype.trans hx.strategyType⟩
  · refine ⟨?_, hpolls, hstrategy ▸ hx.underway, htype.trans hx.strategyType⟩
    rw [hstrategy, ← hx.links]
    exact map_set_of_eq hl (attributes_afterSend _ _ _ _)

theorem steady_of_runs (hsolve : AnswersFeasibly env.solve) (husable : Usable setup ifaces)
    {as : List Action} (h : Runs env setup as x) : Steady setup ifaces x := by
  apply h.invariant (I := fun _ x => Steady setup ifaces x)
  · rintro a y ⟨now, hstart⟩
    obtain ⟨x, before, after, hstarted, hifaces, -, hcomputes⟩ := start_cases husable hstart
    exact hcomputes.steady hsolve (hstarted.steady husable hifaces)
  · rintro as a x y _ hx ⟨now, poll, e, -, hrun⟩
    rcases run_cases hrun with ⟨-, before, after, -, hcomputes⟩ | ⟨l, -, ⟨-, -, rfl⟩ | ⟨-, hsend⟩⟩
    · exact hcomputes.steady hsolve (hx.remove e)
    · exact hx.remove e
    · exact (hx.remove e).sendData hsend

theorem Computes.hasBeenComputed (hsolve : AnswersFeasibly env.solve)
    (h : Computes env now x y before after) (htype : x.strategyType = .linear) :
    y.strategy.hasBeenComputed = true := by
  have hcompute := h.computed
  rw [htype] at hcompute
  rw [h.strategy]
  rcases LinearStrategy.compute_cases hsolve hcompute with ⟨hdone, rfl⟩ | ⟨-, t, -, rfl⟩
  · exact hdone
  · rfl

/-- After the start the linear strategy has computed. -/
theorem hasBeenComputed_of_runs (hsolve : AnswersFeasibly env.solve)
    (htype : setup.strategyType = .linear) {as : List Action} (h : Runs env setup as x) :
    x.strategy.hasBeenComputed = true := by
  apply h.invariant (I := fun _ x => x.strategy.hasBeenComputed = true)
  · rintro a y ⟨now, hstart⟩
    obtain ⟨x, before, after, hstarted, -, hcomputes⟩ := startApplication_eq_ok hstart
    exact hcomputes.hasBeenComputed hsolve (hstarted.strategyType.trans htype)
  · intro as a x y hreach hx hstep
    have hlinear : x.strategyType = .linear := (strategyType_of_runs hreach).trans htype
    rcases step_computes_or_keeps hstep with ⟨now, e, before, after, hcomputes⟩ | hkeeps
    · exact hcomputes.hasBeenComputed hsolve hlinear
    · rw [hkeeps]
      exact hx

/-! ## Faults -/

/-- A computation of a started sender fails only without a solution. -/
theorem infeasible_of_error (hsolve : AnswersFeasibly env.solve) (husable : Usable setup ifaces)
    (hx : Steady setup ifaces x) {f : Fault}
    (h : computeStrategyAndContinue env now x = .error f) :
    ∃ updated, forEach Application.update x.strategy.applications = .ok updated ∧
      Strategy.Infeasible env now { x.strategy with applications := updated }
        setup.strategyType f := by
  obtain ⟨updated, hupdate⟩ := exists_forEach fun app happ =>
    Application.exists_update (hx.underway app happ)
  refine ⟨updated, hupdate, ?_⟩
  rw [computeStrategyAndContinue, hupdate, Result.ok_bind, hx.strategyType] at h
  dsimp only at h
  split at h
  · rename_i s' hcompute
    cases h
    apply Strategy.infeasible_of_compute_error hsolve _ husable.notRandom _ hcompute
    · exact hx.length ▸ List.length_pos_iff.mpr husable.nonempty
    · exact fun htype => hx.length ▸ husable.width htype
  · cases h

theorem exists_sendData {poll : Poll} {l : ℕ} (hpoll : Willing poll)
    (hl : l < x.strategy.availableInterfaces.length) : ∃ s, sendData now poll l x = .ok s := by
  unfold sendData
  rw [List.getElem?_eq_getElem hl]
  dsimp only
  by_cases hempty : (!(x.strategy.availableInterfaces[l]).getHasAnyAvailablePackage) = true
  · rw [if_pos hempty]
    exact ⟨_, rfl⟩
  rw [if_neg hempty, if_neg (Nat.not_lt.mpr hpoll.1)]
  unfold ISPInterface.getNextPacket
  cases hqueue : (x.strategy.availableInterfaces[l]).pendingpackets with
  | nil => exact absurd (by simp [ISPInterface.getHasAnyAvailablePackage, hqueue]) hempty
  | cons packetInfo rest =>
    dsimp only
    split_ifs with hcorrupt hactual
    · exact ⟨_, rfl⟩
    · exact ⟨_, rfl⟩
    · rw [hpoll.2] at hactual
      exact absurd (by decide) hactual

/-- A start fails only if the program of its computation has no solution. -/
theorem infeasible_of_start (hsolve : AnswersFeasibly env.solve) (husable : Usable setup ifaces)
    {f : Fault} (h : startApplication env now setup = .error f) :
    ∃ started updated, forEach Application.onApplicationStart setup.application = .ok started ∧
      forEach Application.update started = .ok updated ∧
      Strategy.Infeasible env now { applications := updated, availableInterfaces := ifaces }
        setup.strategyType f := by
  obtain ⟨lastId, hsockets⟩ := husable.sockets
  obtain ⟨started, hstarted⟩ : ∃ started,
      forEach Application.onApplicationStart setup.application = .ok started :=
    exists_forEach fun app happ => Application.exists_onApplicationStart (setup.fresh app happ)
      (husable.longEnough app happ)
  have hsender : Started setup now {
      strategyType := setup.strategyType
      strategy := { applications := started, availableInterfaces := ifaces }
      simulator := initInterfaceEventLoops now ifaces.length } :=
    ⟨initSockets_created hsockets, forEach_eq_ok.mp hstarted, rfl, rfl, rfl⟩
  rw [startApplication, hsockets, Result.ok_bind] at h
  dsimp only at h
  rw [hstarted, Result.ok_bind] at h
  obtain ⟨updated, hupdated, hinfeasible⟩ :=
    infeasible_of_error hsolve husable (hsender.steady husable rfl) h
  exact ⟨started, updated, hstarted, hupdated, hinfeasible⟩

theorem infeasible_of_start_error (hsolve : AnswersFeasibly env.solve)
    (husable : Usable setup ifaces) {f : Fault} (h : startApplication env now setup = .error f) :
    CallInfeasible env setup now f := by
  obtain ⟨lastId, hsockets⟩ := husable.sockets
  obtain ⟨started, updated, hstarted, hupdated, hinfeasible⟩ :=
    infeasible_of_start hsolve husable h
  exact ⟨_, .start hsockets hstarted hupdated, hinfeasible⟩

/-- Only the computations of the reactive strategy can fail once the sender has started. -/
theorem infeasible_of_run_error (hsolve : AnswersFeasibly env.solve)
    (husable : Usable setup ifaces) {as : List Action} (h : Runs env setup as x)
    {e : EventQueue.Event Time Handler} (he : e ∈ x.simulator.events) {poll : Poll}
    (hpoll : Willing poll) {f : Fault} (hrun : run env now poll e x = .error f) :
    setup.strategyType = .reactive ∧ CallInfeasible env setup now f := by
  have hx := steady_of_runs hsolve husable h
  unfold run at hrun
  dsimp only at hrun
  split at hrun
  · rename_i hhandler
    obtain ⟨updated, hupdated, hinfeasible⟩ :=
      infeasible_of_error hsolve husable (hx.remove e) hrun
    refine ⟨?_, _, .event (x := x) h he hhandler hupdated, hinfeasible⟩
    generalize htype : setup.strategyType = strategyType at hinfeasible ⊢
    cases hinfeasible with
    | linear hfirst _ =>
      have hdone := hasBeenComputed_of_runs hsolve htype h
      rw [hdone] at hfirst
      cases hfirst
    | reactive _ => rfl
  · rename_i l hhandler
    unfold sendPacket at hrun
    split_ifs at hrun
    obtain ⟨s, hs⟩ : ∃ s, sendData now poll l
        { x with simulator := x.simulator.remove e } = .ok s :=
      exists_sendData hpoll (hx.length ▸ hx.polls e he l hhandler)
    rw [hs] at hrun
    cases hrun

end

end SenderApplication

end SdWan
