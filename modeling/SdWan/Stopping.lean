import SdWan.SenderRuns

/-!
# Loops stop only when everything is sent

Once all data has been sent, no event changes an application or an interface any more: stopped
applications are not updated, and a computation without pending packets enqueues nothing. A loop
that is not scheduled any more has therefore left no packet behind.
-/

open IntegerProgram

namespace SdWan

/-! ## Computations without pending packets -/

theorem appendAt_of_totalOver_eq_zero {ifaces : List ISPInterface} {f : ℕ → List SendPacketInfo}
    (h : totalOver (fun _ _ => 1) ifaces f = 0) : appendAt ifaces f = ifaces := by
  induction ifaces generalizing f with
  | nil => rfl
  | cons iface ifaces ih =>
    rw [totalOver_cons] at h
    have hhead : (f 0).length = 0 := by
      have hlen : ((f 0).map fun _ => 1).sum = (f 0).length := by simp
      omega
    rw [appendAt_cons, ih (by omega), List.length_eq_zero_iff.mp hhead,
      ISPInterface.enqueueAll_nil]

theorem map_setPending_of_idle {apps : List Application}
    (hidle : ∀ app ∈ apps, app.pendingpackets = []) : apps.map (·.setPending []) = apps := by
  induction apps with
  | nil => rfl
  | cons app apps ih =>
    have hhead : app.setPending [] = app := by
      rw [← hidle app List.mem_cons_self, Application.setPending_self]
    rw [List.map_cons, hhead, ih fun app' h => hidle app' (List.mem_cons_of_mem _ h)]

theorem Drains.of_idle {now : Time} {s s' : Strategy} {f : ℕ → List SendPacketInfo}
    (h : Drains now s s' f) (hidle : ∀ app ∈ s.applications, app.pendingpackets = []) :
    s'.applications = s.applications ∧ s'.availableInterfaces = s.availableInterfaces := by
  refine ⟨h.applications.trans (map_setPending_of_idle hidle), ?_⟩
  rw [h.availableInterfaces, appendAt_of_totalOver_eq_zero]
  rw [h.moved fun _ => 1]
  apply List.sum_eq_zero
  intro n hn
  obtain ⟨app, happ, rfl⟩ := List.mem_map.mp hn
  rw [hidle app happ, List.length_nil, Nat.zero_mul]

namespace SenderApplication

variable {env : Environment}

/-! ## Nothing changes any more -/

theorem update_of_allSent {apps apps' : List Application}
    (h : List.Forall₂ (fun app app' => app.update = .ok app') apps apps')
    (hstopped : ∀ app ∈ apps, app.pendingpackets = [] ∧ app.allPacketsGenerated = true) :
    apps' = apps := by
  induction h with
  | nil => rfl
  | @cons app app' apps apps' happ _ ih =>
    have hstop := app.getHasStoppedGeneratingData_iff.mpr (hstopped app List.mem_cons_self)
    rw [Application.update_of_stopped hstop] at happ
    rw [Except.ok.inj happ, ih fun b hb => hstopped b (List.mem_cons_of_mem _ hb)]

theorem Computes.of_allSent (hsolve : AnswersFeasibly env.solve) {now : Time}
    {x y : SenderApplication} {before after : Strategy} (h : Computes env now x y before after)
    (hsent : x.strategy.getAllDataHasBeenSent = true) :
    y.strategy.applications = x.strategy.applications ∧
      y.strategy.availableInterfaces = x.strategy.availableInterfaces := by
  have hstopped := (Strategy.getAllDataHasBeenSent_iff _).mp hsent
  have happs : before.applications = x.strategy.applications :=
    update_of_allSent h.updated hstopped.1
  have hbefore : before = x.strategy := by rw [h.before_eq, happs]
  subst hbefore
  rw [h.strategy]
  rcases Strategy.compute_effect hsolve h.computed with ⟨-, -, hsame⟩ | ⟨f, hdrains⟩
  · exact ⟨congrArg _ hsame, congrArg _ hsame⟩
  · exact hdrains.of_idle fun app happ => (hstopped.1 app happ).1

theorem step_of_allSent (hsolve : AnswersFeasibly env.solve) {x y : SenderApplication} {a : Action}
    (hsent : x.strategy.getAllDataHasBeenSent = true) (h : Step env x a y) :
    y.strategy.applications = x.strategy.applications ∧
      y.strategy.availableInterfaces = x.strategy.availableInterfaces := by
  obtain ⟨now, poll, e, -, hrun⟩ := h
  rcases run_cases hrun with ⟨-, before, after, -, hcomputes⟩ | ⟨l, -, ⟨-, -, rfl⟩ | ⟨hnot, -⟩⟩
  · exact hcomputes.of_allSent hsolve hsent
  · exact ⟨rfl, rfl⟩
  · rw [hsent] at hnot
    cases hnot

theorem allSent_of_step (hsolve : AnswersFeasibly env.solve) {x y : SenderApplication} {a : Action}
    (hsent : x.strategy.getAllDataHasBeenSent = true) (h : Step env x a y) :
    y.strategy.getAllDataHasBeenSent = true := by
  obtain ⟨happs, hifaces⟩ := step_of_allSent hsolve hsent h
  rw [Strategy.getAllDataHasBeenSent, happs, hifaces]
  exact hsent

theorem steps_of_allSent (hsolve : AnswersFeasibly env.solve) {x y : SenderApplication}
    (hsent : x.strategy.getAllDataHasBeenSent = true) (h : Transition.Steps (Step env) x y) :
    y.strategy.getAllDataHasBeenSent = true ∧
      y.strategy.applications = x.strategy.applications ∧
      y.strategy.availableInterfaces = x.strategy.availableInterfaces := by
  apply h.keeps (P := fun y => y.strategy.getAllDataHasBeenSent = true ∧
    y.strategy.applications = x.strategy.applications ∧
    y.strategy.availableInterfaces = x.strategy.availableInterfaces) _ ⟨hsent, rfl, rfl⟩
  rintro y a z ⟨hy, hsame⟩ hyz
  obtain ⟨happs, hifaces⟩ := step_of_allSent hsolve hy hyz
  exact ⟨allSent_of_step hsolve hy hyz, happs.trans hsame.1, hifaces.trans hsame.2⟩

/-! ## Every loop goes on until then -/

/-- While data remains, every loop has a pending event. -/
structure Live (x : SenderApplication) : Prop where
  scheduled : x.simulator.Scheduled
  computes : x.strategy.getAllDataHasBeenSent = false →
    ∃ e ∈ x.simulator.events, e.handler = .computeStrategyAndContinue
  sends : x.strategy.getAllDataHasBeenSent = false →
    ∀ l < x.strategy.availableInterfaces.length,
      ∃ e ∈ x.simulator.events, e.handler = .sendPacket l

theorem Computes.length_availableInterfaces {now : Time} {x y : SenderApplication}
    {before after : Strategy} (h : Computes env now x y before after) :
    y.strategy.availableInterfaces.length = x.strategy.availableInterfaces.length := by
  simpa using congrArg List.length h.attributes

/-- A computation schedules itself again while data remains. -/
theorem Computes.live {now : Time} {x y : SenderApplication} {before after : Strategy}
    (h : Computes env now x y before after) (hscheduled : x.simulator.Scheduled)
    (hsends : ∀ l < x.strategy.availableInterfaces.length,
      ∃ e ∈ x.simulator.events, e.handler = .sendPacket l) : Live y := by
  refine ⟨h.scheduled hscheduled, fun hleft => ?_, fun hleft l hl => ?_⟩
  · rw [h.strategy] at hleft
    rw [h.simulator, if_neg (by rw [hleft]; exact Bool.false_ne_true)]
    exact ⟨_, EventQueue.mem_schedule.mpr (.inr rfl), rfl⟩
  · rw [h.strategy] at hleft
    rw [h.length_availableInterfaces] at hl
    rw [h.simulator, if_neg (by rw [hleft]; exact Bool.false_ne_true)]
    obtain ⟨e, he, hl'⟩ := hsends l hl
    exact ⟨e, EventQueue.mem_schedule.mpr (.inl he), hl'⟩

theorem live_init {setup : Setup} {a : Action} {y : SenderApplication}
    (h : Init env setup a y) : Live y := by
  obtain ⟨now, hstart⟩ := h
  obtain ⟨x, before, after, hstarted, -, hcomputes⟩ := startApplication_eq_ok hstart
  apply hcomputes.live
  · rw [hstarted.simulator]
    exact scheduled_initInterfaceEventLoops _ _
  · intro l hl
    exact ⟨_, hstarted.mem_events.mpr ⟨l, hl, rfl⟩, rfl⟩

theorem live_of_allSent {x : SenderApplication} (hscheduled : x.simulator.Scheduled)
    (hsent : x.strategy.getAllDataHasBeenSent = true) : Live x := by
  refine ⟨hscheduled, fun hleft => ?_, fun hleft => ?_⟩
  · rw [hsent] at hleft
    cases hleft
  · rw [hsent] at hleft
    cases hleft

/-- An event with another handler than the one that runs stays in the queue. -/
theorem Live.mem_remove {x : SenderApplication} (hx : Live x) {e e' : EventQueue.Event Time Handler}
    (he : e ∈ x.simulator.events) (he' : e' ∈ x.simulator.events) (hne : e'.handler ≠ e.handler) :
    e' ∈ (x.simulator.remove e).events :=
  hx.scheduled.mem_remove_of_ne he he' fun heq => hne (congrArg _ heq)

theorem live_step (hsolve : AnswersFeasibly env.solve) {x y : SenderApplication} {a : Action}
    (hx : Live x) (h : Step env x a y) : Live y := by
  have hscheduled := step_scheduled h hx.scheduled
  have hlength : y.strategy.availableInterfaces.length = x.strategy.availableInterfaces.length := by
    simpa using congrArg List.length (step_attributes h)
  cases hsent : x.strategy.getAllDataHasBeenSent with
  | true => exact live_of_allSent hscheduled (allSent_of_step hsolve hsent h)
  | false =>
    obtain ⟨now, poll, e, he, hrun⟩ := h
    rcases run_cases hrun with
      ⟨hhandler, before, after, -, hcomputes⟩ | ⟨l, hhandler, ⟨hall, -, -⟩ | ⟨-, hsend⟩⟩
    · apply hcomputes.live (hx.scheduled.remove e)
      intro l hl
      obtain ⟨e', he', hl'⟩ := hx.sends hsent l hl
      exact ⟨e', hx.mem_remove he he' (by rw [hl', hhandler]; exact Handler.noConfusion), hl'⟩
    · rw [hsent] at hall
      cases hall
    · obtain ⟨interface, -, -, hsimulator, -⟩ := sendData_eq_ok hsend
      refine ⟨hscheduled, fun _ => ?_, fun _ l' hl => ?_⟩
      · obtain ⟨e', he', hcompute⟩ := hx.computes hsent
        rw [hsimulator]
        exact ⟨e', EventQueue.mem_schedule.mpr (.inl (hx.mem_remove he he'
          (by rw [hcompute, hhandler]; exact Handler.noConfusion))), hcompute⟩
      · rw [hsimulator]
        by_cases hll : l' = l
        · subst hll
          exact ⟨_, EventQueue.mem_schedule.mpr (.inr rfl), rfl⟩
        · obtain ⟨e', he', hl'⟩ := hx.sends hsent l' (hlength ▸ hl)
          refine ⟨e', EventQueue.mem_schedule.mpr (.inl (hx.mem_remove he he' ?_)), hl'⟩
          rw [hl', hhandler]
          exact fun heq => hll (Handler.sendPacket.inj heq)

theorem live_of_runs (hsolve : AnswersFeasibly env.solve) {setup : Setup} {as : List Action}
    {x : SenderApplication} (h : Runs env setup as x) : Live x :=
  h.invariant (I := fun _ x => Live x) (fun _ _ hinit => live_init hinit)
    fun _ _ _ _ _ hx hstep => live_step hsolve hx hstep

/-- The event of an interface that returns without scheduling another one. -/
theorem allSent_of_ended (hsolve : AnswersFeasibly env.solve) {setup : Setup} {as : List Action}
    {x : SenderApplication} (h : Runs env setup as x) {l : ℕ} (hl : Action.ended l ∈ as) :
    x.strategy.getAllDataHasBeenSent = true := by
  revert hl
  apply h.invariant (I := fun as x => Action.ended l ∈ as → x.strategy.getAllDataHasBeenSent = true)
  · rintro a y ⟨now, hstart⟩ hl
    obtain ⟨x, before, after, -, rfl, -⟩ := startApplication_eq_ok hstart
    cases List.mem_singleton.mp hl
  · intro as a x y _ hx hstep hl
    have hsent : x.strategy.getAllDataHasBeenSent = true := by
      rcases List.mem_append.mp hl with hl | hl
      · exact hx hl
      · rw [← List.mem_singleton.mp hl] at hstep
        obtain ⟨now, poll, e, -, hrun⟩ := hstep
        rcases run_cases hrun with
          ⟨-, before, after, ha, -⟩ | ⟨l', -, ⟨hall, -, -⟩ | ⟨-, hsend⟩⟩
        · cases ha
        · exact hall
        · obtain ⟨interface, -, -, -, hcases⟩ := sendData_eq_ok hsend
          rcases hcases with ⟨ha, -⟩ | ⟨packetInfo, rest, -, ha, -⟩
          · cases ha
          · cases ha
    exact allSent_of_step hsolve hsent hstep

/-- The loop of some interface has returned without rescheduling or has no event pending, or the
computation is not scheduled any more. -/
def SomeLoopEnded (as : List Action) (x : SenderApplication) : Prop :=
  (∃ l, Action.ended l ∈ as) ∨
    (∃ l < x.strategy.availableInterfaces.length,
      ∀ e ∈ x.simulator.events, e.handler ≠ .sendPacket l) ∨
    ∀ e ∈ x.simulator.events, e.handler ≠ .computeStrategyAndContinue

theorem allSent_of_someLoopEnded (hsolve : AnswersFeasibly env.solve) {setup : Setup}
    {as : List Action} {x : SenderApplication} (h : Runs env setup as x)
    (hended : SomeLoopEnded as x) : x.strategy.getAllDataHasBeenSent = true := by
  have hlive := live_of_runs hsolve h
  rcases hended with ⟨l, hl⟩ | ⟨l, hl, hnone⟩ | hnone
  · exact allSent_of_ended hsolve h hl
  · by_contra hleft
    rw [Bool.not_eq_true] at hleft
    obtain ⟨e, he, hl'⟩ := hlive.sends hleft l hl
    exact hnone e he hl'
  · by_contra hleft
    rw [Bool.not_eq_true] at hleft
    obtain ⟨e, he, hcompute⟩ := hlive.computes hleft
    exact hnone e he hcompute

/-- Once all data has been sent it stays so, and a loop that has ended has left nothing behind:
all queues are empty and no application or interface ever changes again. -/
theorem no_packet_stranded (hsolve : Sound env.solve) {setup : Setup} {as : List Action}
    {x : SenderApplication} (h : Runs env setup as x) :
    (x.strategy.getAllDataHasBeenSent = true → ∀ y, Transition.Steps (Step env) x y →
        y.strategy.getAllDataHasBeenSent = true) ∧
      (SomeLoopEnded as x →
        (∀ app ∈ x.strategy.applications, app.pendingpackets = []) ∧
          (∀ i ∈ x.strategy.availableInterfaces, i.pendingpackets = []) ∧
          ∀ y, Transition.Steps (Step env) x y →
            y.strategy.applications = x.strategy.applications ∧
              y.strategy.availableInterfaces = x.strategy.availableInterfaces) := by
  constructor
  · exact fun hsent y hy => (steps_of_allSent hsolve.answersFeasibly hsent hy).1
  · intro hended
    have hsent := allSent_of_someLoopEnded hsolve.answersFeasibly h hended
    obtain ⟨happs, hifaces⟩ := (Strategy.getAllDataHasBeenSent_iff _).mp hsent
    exact ⟨fun app happ => (happs app happ).1, hifaces,
      fun y hy => (steps_of_allSent hsolve.answersFeasibly hsent hy).2⟩

theorem no_packet_stranded_sample :
    ∃ as x, Runs sampleEnvironment (sampleSetup .reactive) as x ∧ as.length = 7 ∧
      ∀ i ∈ x.strategy.availableInterfaces, i.pendingpackets = [] := by
  obtain ⟨as, x, hruns, hobserved⟩ := exists_timedRuns sampleEnvironment 0
    (sampleSetup .reactive) (List.replicate 6 false) (fun s => (s.1.length, s.2.simulator.events))
    (7, []) (by decide +kernel)
  have hended : SomeLoopEnded as x := .inr (.inr (by simp_all))
  obtain ⟨-, hqueues⟩ := no_packet_stranded (sound_offer _) hruns.runs
  exact ⟨as, x, hruns.runs, (Prod.mk.inj hobserved).1, (hqueues hended).2.1⟩

end SenderApplication

end SdWan
