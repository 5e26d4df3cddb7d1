import SdWan.Progress
import SdWan.Library.Horizon

/-!
# Every run ends

While data remains, the next event is never later than a horizon: the walks over the samples end
after the seconds of the simulation, and from then on every interface only sends what it has. Every
event repeats itself at a fixed interval, so that there is a bound on the number of events.

The linear strategy computes once. What an application generates after that computation is never
taken from it, and then the loops do not end.
-/

open IntegerProgram EventQueue

namespace SdWan

namespace SenderApplication

variable {env : Environment} {setup : Setup} {ifaces : List ISPInterface}
  {x y : SenderApplication} {as : List Action} {now : Time}

/-! ## The linear strategy -/

/-- The packets generated after the first computation. -/
def laterPackets (setup : Setup) : ℕ :=
  (setup.application.map fun app => (app.laterSamples.map (·.2.toNat)).sum).sum

theorem Started.not_hasBeenComputed (h : Started setup now x) :
    ¬ x.strategy.hasBeenComputed = true := by
  rw [h.strategy]
  exact Bool.false_ne_true

/-- Nobody takes the later packets from the applications. -/
theorem undelivered_of_linear (hsolve : AnswersFeasibly env.solve) (husable : Usable setup ifaces)
    (htype : setup.strategyType = .linear) (h : Runs env setup as x) :
    undelivered x.strategy.applications = laterPackets setup := by
  apply h.invariant (I := fun _ x => undelivered x.strategy.applications = laterPackets setup)
  · rintro a y ⟨now, hstart⟩
    obtain ⟨x, before, after, hstarted, -, -, hcomputes⟩ := start_cases husable hstart
    rcases hcomputes.moves hsolve with ⟨-, hdone, -⟩ | ⟨f, happs, -⟩
    · exact absurd hdone hstarted.not_hasBeenComputed
    · rw [happs]
      exact undelivered_of_started setup.fresh husable.longEnough hstarted.applications
        hcomputes.updated
  · intro as a x y hreach hx hstep
    have hdone := hasBeenComputed_of_runs hsolve htype hreach
    have hlinear : x.strategyType = .linear := (strategyType_of_runs hreach).trans htype
    rcases step_computes_or_keeps hstep with ⟨now, e, before, after, hcomputes⟩ | hkeeps
    · have hcompute := hcomputes.computed
      rw [hlinear, Strategy.compute_linear_again (by rw [hcomputes.before_eq]; exact hdone)]
        at hcompute
      rw [hcomputes.strategy, ← Except.ok.inj hcompute, ← hx]
      exact undelivered_of_advances
        (hcomputes.advances (steady_of_runs hsolve husable hreach).underway)
    · rw [hkeeps, hx]

/-- As long as packets stay with the applications, every run goes on. -/
theorem exists_timedStep (hsolve : AnswersFeasibly env.solve) (husable : Usable setup ifaces)
    (htype : setup.strategyType = .linear) (hlater : 0 < laterPackets setup)
    (h : TimedRuns env setup as x) : ∃ a y, TimedStep env x a y := by
  have hleft : x.strategy.getAllDataHasBeenSent = false := by
    by_contra hsent
    rw [Bool.not_eq_false] at hsent
    have hzero := undelivered_eq_zero (steady_of_runs hsolve husable h.runs).underway
      ((Strategy.getAllDataHasBeenSent_iff _).mp hsent).1
    rw [undelivered_of_linear hsolve husable htype h.runs] at hzero
    omega
  obtain ⟨c, hc, -⟩ := (live_of_runs hsolve h.runs).computes hleft
  obtain ⟨e, hnext⟩ := exists_isNext hc
  have hpoll : Willing ⟨Utils.packetSizeByte, false, Utils.packetSizeByte⟩ := ⟨le_rfl, rfl⟩
  cases hrun : run env e.ts ⟨Utils.packetSizeByte, false, Utils.packetSizeByte⟩ e x with
  | error f =>
    have hreactive := (infeasible_of_run_error hsolve husable h.runs hnext.mem hpoll hrun).1
    rw [htype] at hreactive
    cases hreactive
  | ok s => exact ⟨s.1, s.2, _, e, hnext, le_rfl, hrun⟩

theorem exists_timedRuns_of_length (hsolve : AnswersFeasibly env.solve)
    (husable : Usable setup ifaces) (htype : setup.strategyType = .linear)
    (hlater : 0 < laterPackets setup) {a : Action} (hinit : Init env setup a x) (n : ℕ) :
    ∃ as x, TimedRuns env setup as x ∧ as.length = n + 1 := by
  induction n with
  | zero => exact ⟨[a], x, .start hinit, rfl⟩
  | succ n ih =>
    obtain ⟨as, x, h, hlength⟩ := ih
    obtain ⟨a, y, hstep⟩ := exists_timedStep hsolve husable htype hlater h
    exact ⟨as ++ [a], y, h.step hstep, by rw [List.length_append, hlength, List.length_singleton]⟩

/-! ## Nothing stays with the applications -/

/-- Between two events no application has pending packets, when every computation takes them or
there are none to take. -/
theorem pending_eq_nil_of_runs (hsolve : AnswersFeasibly env.solve) (husable : Usable setup ifaces)
    (hlater : setup.strategyType = .linear → laterPackets setup = 0) (h : Runs env setup as x) :
    ∀ app ∈ x.strategy.applications, app.pendingpackets = [] := by
  by_cases htype : setup.strategyType = .linear
  · intro app happ
    have hdue := due_le_undelivered happ
    rw [undelivered_of_linear hsolve husable htype h, hlater htype, Application.due] at hdue
    exact List.length_eq_zero_iff.mp (by omega)
  have hmoved : ∀ {now : Time} {x y : SenderApplication} {before after : Strategy},
      Computes env now x y before after → x.strategyType = setup.strategyType →
        ∀ app ∈ y.strategy.applications, app.pendingpackets = [] := by
    intro now x y before after hcomputes hsame
    rcases hcomputes.moves hsolve with ⟨hlinear, -⟩ | ⟨f, happs, -⟩
    · exact absurd (hsame.symm.trans hlinear) htype
    · rw [happs, List.forall_mem_map]
      exact fun app _ => Application.pendingpackets_setPending app []
  apply h.invariant (I := fun _ x => ∀ app ∈ x.strategy.applications, app.pendingpackets = [])
  · rintro a y ⟨now, hstart⟩
    obtain ⟨x, before, after, hstarted, -, -, hcomputes⟩ := start_cases husable hstart
    exact hmoved hcomputes hstarted.strategyType
  · intro as a x y hreach hx hstep
    have hsame : x.strategyType = setup.strategyType := strategyType_of_runs hreach
    rcases step_computes_or_keeps hstep with ⟨now, e, before, after, hcomputes⟩ | hkeeps
    · exact hmoved hcomputes hsame
    · rw [hkeeps]
      exact hx

/-! ## Deadlines -/

/-- The time after which an event schedules itself again. -/
def interval (ifaces : List ISPInterface) : Handler → Time
  | .computeStrategyAndContinue => 1
  | .sendPacket l => (ifaces[l]?.map transmissionTime).getD 1

/-- When an event has nothing to do any more, if the sender starts at `start` and generates at most
`bound` packets. -/
def deadline (ifaces : List ISPInterface) (start : Time) (bound : ℕ) (handler : Handler) : Time :=
  start + Utils.simulationDurationInSeconds + (bound + 1) * interval ifaces handler

theorem interval_pos (hrates : ∀ i ∈ ifaces, 0 < i.getDataBitRate) (handler : Handler) :
    0 < interval ifaces handler := by
  cases handler with
  | computeStrategyAndContinue => exact one_pos
  | sendPacket l =>
    rw [interval]
    cases hl : ifaces[l]? with
    | none => exact one_pos
    | some i =>
      exact div_pos (by norm_num [Utils.packetSizeBit])
        (Nat.cast_pos.mpr (hrates i (List.mem_of_getElem? hl)))

theorem Steady.interval_eq (hx : Steady setup ifaces x) {l : ℕ} {i : ISPInterface}
    (hl : x.strategy.availableInterfaces[l]? = some i) :
    interval ifaces (.sendPacket l) = transmissionTime i := by
  have hlinks := congrArg (fun links => links[l]?) hx.links
  simp only [List.getElem?_map, hl, Option.map_some] at hlinks
  obtain ⟨i', hi', hattributes⟩ := Option.map_eq_some_iff.mp hlinks.symm
  rw [interval, hi', Option.map_some, Option.getD_some,
    transmissionTime_eq_of_attributes hattributes]

/-- What is known about the times of the pending events. -/
structure Deadlines (ifaces : List ISPInterface) (start : Time) (bound : ℕ)
    (x : SenderApplication) : Prop where
  close : ∀ c ∈ x.simulator.events, c.handler = .computeStrategyAndContinue →
    ∀ e ∈ x.simulator.events, ∀ l, e.handler = .sendPacket l →
      e.ts ≤ c.ts + interval ifaces e.handler
  walks : ∀ c ∈ x.simulator.events, c.handler = .computeStrategyAndContinue →
    ∀ app ∈ x.strategy.applications, app.allPacketsGenerated = false →
      c.ts + 1 ≤ start + app.samplesTaken
  bounded : undelivered x.strategy.applications ≤ bound
  clears : ∀ e ∈ x.simulator.events, ∀ l i, e.handler = .sendPacket l →
    x.strategy.availableInterfaces[l]? = some i →
      Clears (interval ifaces e.handler) (deadline ifaces start bound e.handler)
        i.pendingpackets.length (undelivered x.strategy.applications) e

theorem Deadlines.remove {start : Time} {bound : ℕ} (hx : Deadlines ifaces start bound x)
    (e : Event Time Handler) :
    Deadlines ifaces start bound { x with simulator := x.simulator.remove e } where
  close c hc hcompute e' he' := hx.close c (mem_remove.mp hc).1 hcompute e' (mem_remove.mp he').1
  walks c hc := hx.walks c (mem_remove.mp hc).1
  bounded := hx.bounded
  clears e' he' := hx.clears e' (mem_remove.mp he').1

/-! ## Computations keep the deadlines -/

section

variable {before after : Strategy} {start : Time} {bound : ℕ}

/-- An application that still generates has taken one more sample. -/
theorem Computes.walks (hsolve : AnswersFeasibly env.solve)
    (h : Computes env now x y before after) (hx : Steady setup ifaces x) :
    ∀ app ∈ y.strategy.applications, app.allPacketsGenerated = false →
      ∃ app₀ ∈ x.strategy.applications, app₀.allPacketsGenerated = false ∧
        app.samplesTaken = app₀.samplesTaken + 1 := by
  have hbefore : ∀ app ∈ before.applications, app.allPacketsGenerated = false →
      ∃ app₀ ∈ x.strategy.applications, app₀.allPacketsGenerated = false ∧
        app.samplesTaken = app₀.samplesTaken + 1 := by
    intro app happ hleft
    obtain ⟨app₀, happ₀, hadvances⟩ := forall₂_mem_right (h.advances hx.underway) happ
    have hleft₀ : app₀.allPacketsGenerated = false := by
      by_contra hfinished
      rw [hadvances.finished (by simpa using hfinished)] at hleft
      cases hleft
    exact ⟨app₀, happ₀, hleft₀, hadvances.next hleft₀⟩
  rcases h.moves hsolve with ⟨-, -, happs, -⟩ | ⟨f, happs, -, -⟩
  · rw [happs]
    exact hbefore
  · rw [happs, List.forall_mem_map]
    intro app happ hleft
    rw [Application.allPacketsGenerated_setPending] at hleft
    rw [Application.samplesTaken_setPending]
    exact hbefore app happ hleft

theorem length_le_totalOver {ifaces : List ISPInterface} (f : ℕ → List SendPacketInfo) {l : ℕ}
    (hl : l < ifaces.length) : (f l).length ≤ totalOver (fun _ _ => 1) ifaces f := by
  induction ifaces generalizing f l with
  | nil => cases hl
  | cons iface ifaces ih =>
    rw [totalOver_cons, List.map_const', List.sum_replicate, smul_eq_mul, mul_one]
    cases l with
    | zero => exact Nat.le_add_right _ _
    | succ l =>
      have htail := ih (fun q => f (q + 1)) (by simpa using hl)
      omega

/-- Each interface gets some packets, and no more than the applications lose. -/
theorem Computes.gets (hsolve : AnswersFeasibly env.solve)
    (h : Computes env now x y before after) (hx : Steady setup ifaces x) :
    undelivered y.strategy.applications ≤ undelivered x.strategy.applications ∧
      ∀ (l : ℕ) (i' : ISPInterface), y.strategy.availableInterfaces[l]? = some i' →
        ∃ (i : ISPInterface) (n : ℕ), x.strategy.availableInterfaces[l]? = some i ∧
          i'.pendingpackets.length = i.pendingpackets.length + n ∧
          n + undelivered y.strategy.applications ≤ undelivered x.strategy.applications ∧
          n ≤ pendingTotal before.applications := by
  have hdue := undelivered_of_advances (h.advances hx.underway)
  rcases h.moves hsolve with ⟨-, -, happs, hifaces⟩ | ⟨f, happs, hifaces, htotal⟩
  · rw [happs, hifaces, hdue]
    exact ⟨le_rfl, fun l i hl => ⟨i, 0, hl, rfl, (Nat.zero_add _).le, Nat.zero_le _⟩⟩
  · have hsplit := undelivered_setPending before.applications
    rw [← happs, hdue] at hsplit
    refine ⟨by omega, fun l i' hl => ?_⟩
    rw [hifaces, getElem?_appendAt] at hl
    obtain ⟨i, hi, rfl⟩ := Option.map_eq_some_iff.mp hl
    have hle := length_le_totalOver f (List.getElem?_eq_some_iff.mp hi).1
    rw [htotal] at hle
    exact ⟨i, (f l).length, hi, by rw [ISPInterface.enqueueAll, List.length_append], by omega, hle⟩

theorem Computes.deadlines (hsolve : AnswersFeasibly env.solve) (husable : Usable setup ifaces)
    (h : Computes env now x y before after) (hsteady : Steady setup ifaces x)
    (hx : Deadlines ifaces start bound x)
    (hpolls : ∀ e ∈ x.simulator.events, ∀ l, e.handler = .sendPacket l →
      e.ts ≤ now + interval ifaces e.handler)
    (hwalks : ∀ app ∈ x.strategy.applications, app.allPacketsGenerated = false →
      now + 1 ≤ start + app.samplesTaken)
    (hmoves : 0 < pendingTotal before.applications →
      now ≤ start + Utils.simulationDurationInSeconds) :
    Deadlines ifaces start bound y := by
  obtain ⟨hless, hgets⟩ := h.gets hsolve hsteady
  constructor
  · intro c hc hcompute e he l hl
    have hold := h.mem_of_sendPacket he hl
    rcases h.mem_cases hc with hc | rfl
    · exact hx.close c hc hcompute e hold l hl
    · have hle := hpolls e hold l hl
      change e.ts ≤ now + 1 + interval ifaces e.handler
      linarith
  · intro c hc hcompute app happ hleft
    obtain ⟨app₀, happ₀, hleft₀, hnext⟩ := h.walks hsolve hsteady app happ hleft
    rw [hnext, Nat.cast_add_one]
    rcases h.mem_cases hc with hc | rfl
    · have hle := hx.walks c hc hcompute app₀ happ₀ hleft₀
      linarith
    · have hle := hwalks app₀ happ₀ hleft₀
      change now + 1 + 1 ≤ _
      linarith
  · exact hless.trans hx.bounded
  · intro e he l i' hl hi'
    obtain ⟨i, n, hi, hlength, hmoved, hn⟩ := hgets l i' hi'
    have hold := h.mem_of_sendPacket he hl
    have hinterval := interval_pos husable.rates e.handler
    rw [hlength]
    apply (hx.clears e hold l i hl hi).fill hinterval.le hmoved
    intro hpos
    have hts := hpolls e hold l hl
    have hnow := hmoves (hpos.trans_le hn)
    have hdue : (undelivered x.strategy.applications : Time) * interval ifaces e.handler ≤
        bound * interval ifaces e.handler :=
      mul_le_mul_of_nonneg_right (Nat.cast_le.mpr hx.bounded) hinterval.le
    rw [deadline, add_mul, one_mul]
    linarith

/-! ## Every event keeps the deadlines -/

theorem Deadlines.sendData {e : Event Time Handler} {poll : Poll} {l : ℕ} {a : Action}
    (husable : Usable setup ifaces) (hsteady : Steady setup ifaces x)
    (hx : Deadlines ifaces start bound x) (hnext : x.simulator.IsNext e)
    (hle : e.handler = .sendPacket l) (htx : Utils.packetSizeByte ≤ poll.txAvailable)
    (h : sendData e.ts poll l { x with simulator := x.simulator.remove e } = .ok (a, y)) :
    Deadlines ifaces start bound y := by
  have happs := congrArg Strategy.applications (strategy_of_sendData h)
  have hqueues : ∀ (l' : ℕ) i', y.strategy.availableInterfaces[l']? = some i' → _ :=
    fun l' i' hi' => sendData_queues h htx hi'
  obtain ⟨interface, hl, -⟩ := sendData_eq_ok h
  dsimp only at happs hqueues hl
  have hinterval : interval ifaces (.sendPacket l) = transmissionTime interface :=
    hsteady.interval_eq hl
  constructor
  · intro c hc hcompute e' he' l' hl'
    have hold := mem_of_sendData_of_compute h hc hcompute
    rcases mem_of_sendData hl h he' with he' | rfl
    · exact hx.close c hold hcompute e' he' l' hl'
    · have hfirst := hnext.ts_le hold
      change e.ts + transmissionTime interface ≤ c.ts + interval ifaces (.sendPacket l)
      rw [hinterval]
      linarith
  · intro c hc hcompute
    rw [happs]
    exact hx.walks c (mem_of_sendData_of_compute h hc hcompute) hcompute
  · rw [happs]
    exact hx.bounded
  · intro e' he' l' i' hl' hi'
    obtain ⟨i, hi, -, hpending⟩ := hqueues l' i' hi'
    rw [happs, hpending]
    rcases mem_of_sendData hl h he' with he' | rfl
    · apply (hx.clears e' he' l' i hl' hi).of_le (interval_pos husable.rates _).le
      split_ifs
      · rw [List.length_tail]
        exact Nat.sub_le _ _
      · exact le_rfl
    · cases hl'
      have hclears := hx.clears e hnext.mem l i hle hi
      rw [hle] at hclears
      rw [if_pos rfl, List.length_tail, ← hinterval]
      exact hclears.poll

/-- A computation that takes packets from idle applications is one of the first of the walk. -/
theorem Computes.le_of_pending (h : Computes env now x y before after)
    (hx : Steady setup ifaces x)
    (hidle : ∀ app ∈ x.strategy.applications, app.pendingpackets = [])
    (hwalks : ∀ app ∈ x.strategy.applications, app.allPacketsGenerated = false →
      now + 1 ≤ start + app.samplesTaken)
    (hpending : 0 < pendingTotal before.applications) :
    now ≤ start + Utils.simulationDurationInSeconds := by
  obtain ⟨app, happ, hpos⟩ : ∃ app ∈ before.applications, 0 < app.pendingpackets.length := by
    by_contra! hnone
    have hzero : pendingTotal before.applications = 0 := by
      apply List.sum_eq_zero
      intro n hn
      obtain ⟨app, happ, rfl⟩ := List.mem_map.mp hn
      exact Nat.le_zero.mp (hnone app happ)
    omega
  obtain ⟨app₀, happ₀, hadvances⟩ := forall₂_mem_right (h.advances hx.underway) happ
  have hleft : app₀.allPacketsGenerated = false := by
    by_contra hfinished
    have hzero := Application.due_eq_zero_of_stopped (hx.underway app₀ happ₀) (hidle app₀ happ₀)
      (by simpa using hfinished)
    have hdue := hadvances.due
    rw [hzero, Application.due] at hdue
    omega
  have hnow := hwalks app₀ happ₀ hleft
  have htaken : (app₀.samplesTaken : Time) ≤ Utils.simulationDurationInSeconds :=
    Nat.cast_le.mpr (hx.underway app₀ happ₀).samplesTaken_le
  linarith

theorem deadlines_step (hsolve : AnswersFeasibly env.solve) (husable : Usable setup ifaces)
    (hlater : setup.strategyType = .linear → laterPackets setup = 0) {a : Action}
    (hreach : TimedRuns env setup as x) (hx : Deadlines ifaces start bound x)
    (h : TimedStep env x a y) : Deadlines ifaces start bound y := by
  have hsteady := steady_of_runs hsolve husable hreach.runs
  have hidle := pending_eq_nil_of_runs hsolve husable hlater hreach.runs
  obtain ⟨poll, e, hnext, htx, hrun⟩ := h
  rcases run_cases hrun with
    ⟨hcompute, before, after, -, hcomputes⟩ | ⟨l, hle, ⟨-, -, rfl⟩ | ⟨-, hsend⟩⟩
  · have hwalks := hx.walks e hnext.mem hcompute
    apply hcomputes.deadlines hsolve husable (hsteady.remove e) (hx.remove e) _ hwalks
    · exact hcomputes.le_of_pending (hsteady.remove e) hidle hwalks
    · intro e' he' l hl
      exact hx.close e hnext.mem hcompute e' (mem_remove.mp he').1 l hl
  · exact hx.remove e
  · exact hx.sendData husable hsteady hnext hle htx hsend

theorem deadlines_start (hsolve : AnswersFeasibly env.solve) (husable : Usable setup ifaces)
    (hstarted : Started setup now x) (hifaces : x.strategy.availableInterfaces = ifaces)
    (hcomputes : Computes env now x y before after) :
    Deadlines ifaces now (undelivered x.strategy.applications) y := by
  have hx : Deadlines ifaces now (undelivered x.strategy.applications) x := by
    constructor
    · intro c hc hcompute
      exact absurd hcompute (hstarted.not_compute c hc)
    · intro c hc hcompute
      exact absurd hcompute (hstarted.not_compute c hc)
    · exact le_rfl
    · intro e he l i _ hi hpos
      rw [hstarted.created.pendingpackets i (List.mem_of_getElem? hi)] at hpos
      cases hpos
  apply hcomputes.deadlines hsolve husable (hstarted.steady husable hifaces) hx
  · intro e he l _
    obtain ⟨l', -, rfl⟩ := hstarted.mem_events.mp he
    exact le_add_of_nonneg_right (interval_pos husable.rates _).le
  · intro app happ hleft
    obtain ⟨app₀, happ₀, hstart⟩ := forall₂_mem_right hstarted.applications happ
    obtain ⟨-, -, ⟨-, htaken⟩ | ⟨hfinished, -⟩⟩ := Application.onApplicationStart_underway
      (setup.fresh app₀ happ₀) (husable.longEnough app₀ happ₀) hstart
    · rw [htaken, Nat.cast_one]
    · rw [hfinished] at hleft
      cases hleft
  · intro _
    exact le_add_of_nonneg_right (Nat.cast_nonneg _)

/-! ## The horizon -/

/-- The time from the start to the horizon. -/
def span (ifaces : List ISPInterface) (bound : ℕ) : Time :=
  Utils.simulationDurationInSeconds + (bound + 1) * (ifaces.map transmissionTime).sum

theorem transmissionTimes_nonneg (ifaces : List ISPInterface) :
    ∀ t ∈ ifaces.map transmissionTime, 0 ≤ t :=
  List.forall_mem_map.mpr fun _ _ => div_nonneg (Nat.cast_nonneg _) (Nat.cast_nonneg _)

theorem deadline_le {l : ℕ} (hl : l < ifaces.length) :
    deadline ifaces start bound (.sendPacket l) ≤ start + span ifaces bound := by
  have hsum : transmissionTime ifaces[l] ≤ (ifaces.map transmissionTime).sum :=
    List.single_le_sum (transmissionTimes_nonneg ifaces) _
      (List.mem_map_of_mem (List.getElem_mem hl))
  have hinterval : interval ifaces (.sendPacket l) = transmissionTime ifaces[l] := by
    rw [interval, List.getElem?_eq_getElem hl]
    rfl
  have hmono : ((bound : Time) + 1) * interval ifaces (.sendPacket l) ≤
      (bound + 1) * (ifaces.map transmissionTime).sum := by
    rw [hinterval]
    exact mul_le_mul_of_nonneg_left hsum (by positivity)
  rw [deadline, span]
  linarith

/-- While data remains, the next event is not after the horizon. -/
theorem ts_le_of_not_allSent (husable : Usable setup ifaces) (hsteady : Steady setup ifaces x)
    (hlive : Live x) (hx : Deadlines ifaces start bound x)
    (hidle : ∀ app ∈ x.strategy.applications, app.pendingpackets = [])
    (hleft : x.strategy.getAllDataHasBeenSent = false) {e : Event Time Handler}
    (hnext : x.simulator.IsNext e) : e.ts ≤ start + span ifaces bound := by
  by_cases hqueues : ∀ i ∈ x.strategy.availableInterfaces, i.pendingpackets = []
  · -- All interfaces are empty, so some application still generates packets.
    obtain ⟨app, happ, hwalking⟩ : ∃ app ∈ x.strategy.applications,
        app.allPacketsGenerated = false := by
      by_contra! hnone
      have hsent := (Strategy.getAllDataHasBeenSent_iff x.strategy).mpr
        ⟨fun app happ => ⟨hidle app happ, by simpa using hnone app happ⟩, hqueues⟩
      rw [hleft] at hsent
      cases hsent
    obtain ⟨c, hc, hcompute⟩ := hlive.computes hleft
    have hwalks := hx.walks c hc hcompute app happ hwalking
    have htaken : (app.samplesTaken : Time) ≤ Utils.simulationDurationInSeconds :=
      Nat.cast_le.mpr (hsteady.underway app happ).samplesTaken_le
    have hspan : 0 ≤ ((bound : Time) + 1) * (ifaces.map transmissionTime).sum :=
      mul_nonneg (by positivity) (List.sum_nonneg (transmissionTimes_nonneg ifaces))
    have hts := hnext.ts_le hc
    rw [span]
    linarith
  · push Not at hqueues
    obtain ⟨i, hi, hne⟩ := hqueues
    obtain ⟨l, hl⟩ := List.mem_iff_getElem?.mp hi
    have hlt : l < x.strategy.availableInterfaces.length := (List.getElem?_eq_some_iff.mp hl).1
    obtain ⟨e', he', hpoll⟩ := hlive.sends hleft l hlt
    have hts := (hx.clears e' he' l i hpoll hl).ts_le (interval_pos husable.rates _).le
      (List.length_pos_iff.mpr hne)
    rw [hpoll] at hts
    exact (hnext.ts_le he').trans (hts.trans (deadline_le (hsteady.length ▸ hlt)))

/-! ## Counting the events -/

/-- Every event lowers the turns up to the horizon. -/
theorem totalTurns_step_lt (hsolve : AnswersFeasibly env.solve) (husable : Usable setup ifaces)
    (hlater : setup.strategyType = .linear → laterPackets setup = 0) {a : Action}
    (hreach : TimedRuns env setup as x) (hx : Deadlines ifaces start bound x)
    (h : TimedStep env x a y) :
    y.simulator.totalTurns (interval ifaces) (start + span ifaces bound) <
      x.simulator.totalTurns (interval ifaces) (start + span ifaces bound) := by
  have hsteady := steady_of_runs hsolve husable hreach.runs
  have hidle := pending_eq_nil_of_runs hsolve husable hlater hreach.runs
  have hlive := live_of_runs hsolve hreach.runs
  obtain ⟨poll, e, hnext, htx, hrun⟩ := h
  have hinterval := interval_pos husable.rates e.handler
  rcases run_cases hrun with
    ⟨hcompute, before, after, -, hcomputes⟩ | ⟨l, hle, ⟨-, -, rfl⟩ | ⟨hleft, hsend⟩⟩
  · rw [hcomputes.simulator]
    by_cases hsent : after.getAllDataHasBeenSent = true
    · rw [if_pos hsent]
      exact totalTurns_remove_lt _ _ hnext.mem
    · have hleft : x.strategy.getAllDataHasBeenSent = false := by
        by_contra hbefore
        rw [Bool.not_eq_false] at hbefore
        obtain ⟨happs, hifaces⟩ := hcomputes.of_allSent hsolve hbefore
        rw [← hcomputes.strategy, Strategy.getAllDataHasBeenSent, happs, hifaces] at hsent
        exact hsent hbefore
      have hts := ts_le_of_not_allSent husable hsteady hlive hx hidle hleft hnext
      have hlt := totalTurns_repeat_lt (interval ifaces) _ hnext.mem hinterval hts
      rw [hcompute] at hlt
      rw [if_neg hsent]
      exact hlt
  · exact totalTurns_remove_lt _ _ hnext.mem
  · obtain ⟨interface, hl, -, hsimulator, -⟩ := sendData_eq_ok hsend
    have hts := ts_le_of_not_allSent husable hsteady hlive hx hidle hleft hnext
    have hlt := totalTurns_repeat_lt (interval ifaces) _ hnext.mem hinterval hts
    rw [hle, hsteady.interval_eq hl] at hlt
    rw [hsimulator]
    exact hlt

/-- The events pending after a start at time `0`. -/
def firstEvents (amountOfInterfaces : ℕ) : EventQueue Time Handler :=
  (initInterfaceEventLoops 0 amountOfInterfaces).schedule 1 .computeStrategyAndContinue

theorem delay_firstEvents (now : Time) (n : ℕ) :
    (firstEvents n).delay now =
      (initInterfaceEventLoops now n).schedule (now + 1) .computeStrategyAndContinue := by
  rw [firstEvents, initInterfaceEventLoops_eq, initInterfaceEventLoops_eq]
  simp [delay, schedule]

theorem totalTurns_start_le (hstarted : Started setup now x)
    (hifaces : x.strategy.availableInterfaces = ifaces)
    (hcomputes : Computes env now x y before after) :
    y.simulator.totalTurns (interval ifaces) (now + span ifaces bound) ≤
      (firstEvents ifaces.length).totalTurns (interval ifaces) (span ifaces bound) := by
  rw [← totalTurns_delay _ _ now (firstEvents _), delay_firstEvents, hcomputes.simulator,
    hstarted.simulator, hifaces]
  split_ifs
  · rw [totalTurns_schedule]
    exact Nat.le_add_right _ _
  · exact le_rfl

/-- The events of a run and the turns left are together no more than the turns at the start. -/
theorem length_add_totalTurns_le (hsolve : AnswersFeasibly env.solve)
    (husable : Usable setup ifaces)
    (hlater : setup.strategyType = .linear → laterPackets setup = 0) {apps : List Application}
    (happs : forEach Application.onApplicationStart setup.application = .ok apps)
    (h : TimedRuns env setup as x) :
    ∃ start, Deadlines ifaces start (undelivered apps) x ∧
      as.length + x.simulator.totalTurns (interval ifaces)
          (start + span ifaces (undelivered apps)) ≤
        (firstEvents ifaces.length).totalTurns (interval ifaces)
          (span ifaces (undelivered apps)) + 1 := by
  apply h.invariant (I := fun as x => ∃ start, Deadlines ifaces start (undelivered apps) x ∧
    as.length + x.simulator.totalTurns (interval ifaces)
        (start + span ifaces (undelivered apps)) ≤
      (firstEvents ifaces.length).totalTurns (interval ifaces)
        (span ifaces (undelivered apps)) + 1)
  · rintro a y ⟨now, hstart⟩
    obtain ⟨x, before, after, hstarted, hifaces, -, hcomputes⟩ := start_cases husable hstart
    have hsame : x.strategy.applications = apps := by
      have hforEach := forEach_eq_ok.mpr hstarted.applications
      rw [happs] at hforEach
      exact (Except.ok.inj hforEach).symm
    have hdeadlines := deadlines_start hsolve husable hstarted hifaces hcomputes
    rw [hsame] at hdeadlines
    refine ⟨now, hdeadlines, ?_⟩
    rw [List.length_singleton, Nat.add_comm]
    exact Nat.add_le_add_right (totalTurns_start_le hstarted hifaces hcomputes) 1
  · rintro as a x y hreach ⟨start, hx, hle⟩ hstep
    refine ⟨start, deadlines_step hsolve husable hlater hreach hx hstep, ?_⟩
    have hlt := totalTurns_step_lt hsolve husable hlater hreach hx hstep
    rw [List.length_append, List.length_singleton]
    omega

end

/-! ## The end of all runs -/

theorem laterPackets_eq_zero_iff (setup : Setup) :
    laterPackets setup = 0 ↔
      ∀ app ∈ setup.application, ∀ value ∈ app.laterSamples, value.2 = 0 := by
  have hzero : ∀ n : UInt32, n.toNat = 0 ↔ n = 0 := by
    intro n
    rw [← UInt32.toNat_inj]
    rfl
  simp only [laterPackets, List.sum_eq_zero_iff, List.forall_mem_map, hzero]

/-- There is a bound on the number of events of all runs, unless the linear strategy starts and
some sample after the first two is not zero. Until all events have run, the next one fails only if
a computation has no solution, and no vector is read out of range. -/
theorem runs_end (hsolve : AnswersFeasibly env.solve) (husable : Usable setup ifaces) :
    ((∃ n, ∀ as x, TimedRuns env setup as x → as.length ≤ n) ↔
        ((∃ a x, Init env setup a x) → setup.strategyType = .linear →
          ∀ app ∈ setup.application, ∀ value ∈ app.laterSamples, value.2 = 0)) ∧
      (∀ now f, startApplication env now setup = .error f →
        f ≠ .outOfRange ∧ CallInfeasible env setup now f) ∧
      ∀ as x, TimedRuns env setup as x → ∀ e, x.simulator.IsNext e → ∀ poll, Willing poll →
        ∀ f, run env e.ts poll e x = .error f →
          f ≠ .outOfRange ∧ setup.strategyType = .reactive ∧ CallInfeasible env setup e.ts f := by
  refine ⟨⟨?_, ?_⟩, ?_, ?_⟩
  · rintro ⟨n, hn⟩ ⟨a, x, hinit⟩ htype
    rw [← laterPackets_eq_zero_iff]
    by_contra hlater
    obtain ⟨as, y, hruns, hlength⟩ := exists_timedRuns_of_length hsolve husable htype
      (Nat.pos_of_ne_zero hlater) hinit n
    have hle := hn as y hruns
    omega
  · intro hlater
    obtain ⟨apps, happs⟩ : ∃ apps,
        forEach Application.onApplicationStart setup.application = .ok apps :=
      exists_forEach fun app happ => Application.exists_onApplicationStart (setup.fresh app happ)
        (husable.longEnough app happ)
    refine ⟨(firstEvents ifaces.length).totalTurns (interval ifaces)
      (span ifaces (undelivered apps)) + 1, fun as x h => ?_⟩
    obtain ⟨start, -, hle⟩ := length_add_totalTurns_le hsolve husable
      (fun htype => (laterPackets_eq_zero_iff setup).mpr (hlater h.exists_init htype)) happs h
    exact (Nat.le_add_right _ _).trans hle
  · intro now f hstart
    have hinfeasible := infeasible_of_start_error hsolve husable hstart
    exact ⟨hinfeasible.ne_outOfRange, hinfeasible⟩
  · intro as x h e hnext poll hpoll f hrun
    obtain ⟨htype, hinfeasible⟩ :=
      infeasible_of_run_error hsolve husable h.runs hnext.mem hpoll hrun
    exact ⟨hinfeasible.ne_outOfRange, htype, hinfeasible⟩

theorem fresh_sampleSin :
    ∀ app ∈ [Application.sin (SinApplication.sampleSin 1)], app.Fresh := by
  simp [SinApplication.sampleSin, Application.Fresh]

/-- One packet in every second. -/
def sampledSetup (strategyType : StrategyTypes) : Setup :=
  { sampleSetup strategyType with
    application := [.sin (SinApplication.sampleSin 1)]
    fresh := fresh_sampleSin }

/-- The solver knows how to place the packets of the first two samples. -/
def sampledEnvironment : Environment :=
  { sampleEnvironment with solve := offer [fun v => if v = 0 then 2 else 0] }

theorem usable_sampledSetup {strategyType : StrategyTypes} (htype : strategyType ≠ .random) :
    ∃ ifaces, Usable (sampledSetup strategyType) ifaces := by
  refine ⟨_, ⟨_, rfl⟩, by simp, ?_, ?_, htype, fun _ => ?_⟩
  · decide
  · have hlength : (SinApplication.sampleSin 1).sinValues.length =
        Utils.simulationDurationInSeconds + 1 := by
      simp [SinApplication.sampleSin]
    rw [sampledSetup, List.forall_mem_singleton, Application.LongEnough, hlength]
    exact Nat.lt_succ_self _
  · decide

theorem runs_end_sample :
    (∃ as x, TimedRuns sampleEnvironment (sampledSetup .roundRobin) as x ∧ as.length = 3) ∧
      ∃ n, ∀ as x, TimedRuns sampleEnvironment (sampledSetup .roundRobin) as x →
        as.length ≤ n := by
  obtain ⟨ifaces, husable⟩ : ∃ ifaces, Usable (sampledSetup .roundRobin) ifaces :=
    usable_sampledSetup StrategyTypes.noConfusion
  obtain ⟨as, x, hruns, hlength⟩ := exists_timedRuns sampleEnvironment 0
    (sampledSetup .roundRobin) [false, true] (fun s => s.1.length) 3 (by decide +kernel)
  refine ⟨⟨as, x, hruns, hlength⟩, ?_⟩
  exact (runs_end (sound_offer _).answersFeasibly husable).1.mpr fun _ htype => by cases htype

/-- An application that the linear program cannot tell from the sampled one with two packets. -/
def standIn : Application :=
  .static {
    applicationId := 1
    requiredDelay := 200
    errorRate := 20
    pendingpackets := [0, 1]
    amountOfPacketsToSend := 2
    requiredDataRate := 1024
    allPacketsGenerated := true }

theorem requirements_sampleSin :
    (Application.sin (SinApplication.sampleSin 1)).requirements = standIn.requirements := by
  have hmem : (UInt32.ofNat 0, (1 : UInt32)) ∈ (SinApplication.sampleSin 1).sinValues := by
    simp only [SinApplication.sampleSin, ite_self]
    exact List.mem_map_of_mem (List.mem_range.mpr (Nat.succ_pos _))
  have hmax : (SinApplication.sampleSin 1).maxValue = 1 :=
    Nat.le_antisymm maxValue_sampleSin (SinApplication.le_maxValue hmem)
  simp only [Application.requirements, Application.getRequiredDataRate,
    SinApplication.getRequiredDataRate, hmax]
  rfl

theorem forall₂_standIn {started updated : List Application}
    (hstarted : forEach Application.onApplicationStart (sampledSetup .linear).application =
      .ok started)
    (hupdated : forEach Application.update started = .ok updated) :
    List.Forall₂ (fun app app' : Application => app'.requirements = app.requirements ∧
      app'.pendingpackets.length = app.pendingpackets.length) [standIn] updated := by
  have hsamples : List.Forall₂ _ [SinApplication.sampleSin 1] updated :=
    first_samples rfl hstarted (forEach_eq_ok.mp hupdated)
  have hstart : List.Forall₂ _ [Application.sin (SinApplication.sampleSin 1)] started :=
    forEach_eq_ok.mp hstarted
  have hupdate := forEach_eq_ok.mp hupdated
  cases hstart with
  | cons happ₁ hrest₁ =>
    cases hrest₁
    cases hupdate with
    | cons happ₂ hrest₂ =>
      cases hrest₂
      cases hsamples with
      | cons hsample _ =>
        obtain ⟨n₁, hgenerates₁⟩ := Application.onApplicationStart_generates happ₁
        obtain ⟨n₂, hgenerates₂⟩ := Application.update_generates happ₂
        refine .cons ⟨?_, ?_⟩ .nil
        · rw [hgenerates₂.requirements, hgenerates₁.requirements, requirements_sampleSin]
        · rw [hsample.2.2]
          decide +kernel

theorem exists_init_sampledSetup :
    ∃ a x, Init sampledEnvironment (sampledSetup .linear) a x := by
  obtain ⟨ifaces, husable⟩ : ∃ ifaces, Usable (sampledSetup .linear) ifaces :=
    usable_sampledSetup StrategyTypes.noConfusion
  cases hstart : startApplication sampledEnvironment 0 (sampledSetup .linear) with
  | ok s => exact ⟨s.1, s.2, 0, hstart⟩
  | error f =>
    obtain ⟨before, hcalled, hinfeasible⟩ :=
      infeasible_of_start_error (sound_offer _).answersFeasibly husable hstart
    replace hinfeasible : Strategy.Infeasible _ _ before .linear f := hinfeasible
    cases hcalled with
    | event h => exact h.exists_init
    | start hsockets hstarted hupdated =>
      -- The program of the first computation is that of the stand-in, which has a solution.
      have hsome : (initSockets (sampledSetup .linear)).map (fun s =>
          (sampledEnvironment.solve (LinearStrategy.program [standIn] s.1)).isSome) = .ok true := by
        decide +kernel
      rw [hsockets] at hsome
      cases hinfeasible with
      | linear _ hnone =>
        rw [LinearStrategy.program_congr (forall₂_standIn hstarted hupdated)] at hnone
        rw [Except.map, hnone] at hsome
        cases hsome

/-- One packet in every second: the linear strategy sends two packets, and its sender never comes
to an end. -/
theorem runs_end_counterexample :
    AnswersFeasibly sampledEnvironment.solve ∧ (∃ ifaces, Usable (sampledSetup .linear) ifaces) ∧
      (∃ a x, Init sampledEnvironment (sampledSetup .linear) a x) ∧
      ∀ as x, TimedRuns sampledEnvironment (sampledSetup .linear) as x →
        ∃ a y, TimedStep sampledEnvironment x a y := by
  have hsolve : AnswersFeasibly sampledEnvironment.solve := (sound_offer _).answersFeasibly
  obtain ⟨ifaces, husable⟩ : ∃ ifaces, Usable (sampledSetup .linear) ifaces :=
    usable_sampledSetup StrategyTypes.noConfusion
  have hlater : 0 < laterPackets (sampledSetup .linear) := by decide +kernel
  exact ⟨hsolve, ⟨ifaces, husable⟩, exists_init_sampledSetup, fun as x h =>
    exists_timedStep hsolve husable rfl hlater h⟩

end SenderApplication

end SdWan
