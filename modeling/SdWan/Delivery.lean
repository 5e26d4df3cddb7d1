import SdWan.Conservation
import SdWan.Progress

/-!
# Every packet is taken exactly once

A packet of an application is in one of four places: among the samples to come, pending, on the
queue of an interface, or taken out of it. The sum over the four is the number of packets that the
application has to send, in every state of every run. The counters of the source say so modulo
their width only.
-/

open IntegerProgram

namespace SdWan

/-- The packets that an application has to send in its life. The walk over the samples leaves out
that of the last second. -/
def Application.total : Application → ℕ
  | .sin app => app.packetsBefore Utils.simulationDurationInSeconds
  | .static app => app.amountOfPacketsToSend

theorem Application.due_of_start {app app' : Application} (hfresh : app.Fresh)
    (hlength : app.LongEnough) (h : app.onApplicationStart = .ok app') : app'.due = app.total := by
  cases app with
  | sin app =>
    obtain ⟨b, henqueue, h⟩ := Result.bind_eq_ok.mp h
    cases h
    have hadvances := SinApplication.enqueue_advances
      (underway_of_fresh hfresh (le_of_lt hlength)) henqueue
    obtain ⟨hpending, -, hsample, -⟩ := hfresh
    have hnone : (Application.sin app).pendingpackets = [] := hpending
    rw [hadvances.due, due, hnone, remaining, samplesTaken, hsample, List.drop_zero,
      List.length_nil, Nat.zero_add]
    rfl
  | static app =>
    cases h
    have hnone : app.pendingpackets.length = 0 := congrArg List.length hfresh.1
    have hpushed := app.length_pushPackets app.amountOfPacketsToSend
    rw [hnone, Nat.zero_add] at hpushed
    exact hpushed

namespace SenderApplication

variable {env : Environment} {setup : Setup} {ifaces : List ISPInterface} {as : List Action}
  {x y : SenderApplication} {now : Time}

/-- What is on the queues and what is taken out of them belongs to what the application has to send,
as does what is due. -/
def Ledger (setup : Setup) (as : List Action) (x : SenderApplication) : Prop :=
  List.Forall₂ (fun app₀ app : Application => app.applicationId = app₀.applicationId ∧
    takenFrom app₀.applicationId as +
      queuedFrom app₀.applicationId x.strategy.availableInterfaces + app.due = app₀.total)
    setup.application x.strategy.applications

theorem Ledger.ids (h : Ledger setup as x) :
    x.strategy.applications.map (·.applicationId) = setup.application.map (·.applicationId) := by
  have heq : List.Forall₂ Eq (setup.application.map (·.applicationId))
      (x.strategy.applications.map (·.applicationId)) := by
    rw [List.forall₂_map_left_iff, List.forall₂_map_right_iff]
    exact h.imp fun _ _ hentry => hentry.1.symm
  rw [List.forall₂_eq_eq_eq] at heq
  exact heq.symm

/-! ## What one event moves -/

/-- A strategy that drains the applications puts their packets on the queues. -/
theorem queuedFrom_of_drains {s s' : Strategy} {f : ℕ → List SendPacketInfo}
    (h : Drains now s s' f) (hids : (s.applications.map (·.applicationId)).Nodup)
    {app : Application} (happ : app ∈ s.applications) :
    queuedFrom app.applicationId s'.availableInterfaces =
      queuedFrom app.applicationId s.availableInterfaces + app.pendingpackets.length := by
  rw [queuedFrom_eq, queuedFrom_eq, h.availableInterfaces, queuedTotal_appendAt, h.moved,
    sum_pending_isFrom hids now happ]

/-- A packet that is taken leaves its queue. -/
theorem queuedFrom_of_taken (now : Time) {links : List ISPInterface} {l : ℕ} {i : ISPInterface}
    (hl : links[l]? = some i) {packetInfo : SendPacketInfo} {rest : List SendPacketInfo}
    (hqueue : i.pendingpackets = packetInfo :: rest) (isCorrupt : Bool) (id : ℕ) :
    takenFrom id [.taken now l packetInfo isCorrupt] + queuedFrom id (links.set l
      (afterSend i rest packetInfo.originatedFrom isCorrupt)) = queuedFrom id links := by
  have hone : takenFrom id [Action.taken now l packetInfo isCorrupt] = isFrom id packetInfo := by
    rw [takenFrom, amountFrom_eq_sum]
    rfl
  have hmoved := queuedTotal_set (fun _ => isFrom id) hl
    (afterSend i rest packetInfo.originatedFrom isCorrupt)
  rw [hqueue, pendingpackets_afterSend, List.map_cons, List.sum_cons] at hmoved
  rw [hone, queuedFrom_eq, queuedFrom_eq]
  omega

theorem Computes.ledger (hsolve : AnswersFeasibly env.solve)
    (hids : (setup.application.map (·.applicationId)).Nodup) {before after : Strategy}
    (h : Computes env now x y before after)
    (hunderway : ∀ app ∈ x.strategy.applications, app.Underway) (hx : Ledger setup as x) :
    Ledger setup (as ++ [.computed now before after]) y := by
  have hnone : ∀ id, takenFrom id (as ++ [.computed now before after]) = takenFrom id as :=
    fun id => takenFrom_append id as _
  have hifaces : before.availableInterfaces = x.strategy.availableInterfaces := by
    rw [h.before_eq]
  have hupdated : List.Forall₂ (fun app app' : Application =>
      app'.applicationId = app.applicationId ∧ app'.due = app.due)
      x.strategy.applications before.applications :=
    (h.advances hunderway).mp (fun _ _ hadvances ⟨n, hgenerates⟩ =>
      ⟨applicationId_of_generates hgenerates, hadvances.due⟩) (updated_generates h.updated)
  have hbefore : List.Forall₂ (fun app₀ app : Application =>
      app.applicationId = app₀.applicationId ∧ takenFrom app₀.applicationId as +
        queuedFrom app₀.applicationId before.availableInterfaces + app.due = app₀.total)
      setup.application before.applications := by
    rw [hifaces]
    apply (forall₂_comp hx hupdated).imp
    rintro app₀ app' ⟨app, ⟨hid, hsum⟩, hid', hdue⟩
    exact ⟨hid'.trans hid, hdue.symm ▸ hsum⟩
  unfold Ledger
  simp only [hnone]
  rw [h.strategy]
  rcases Strategy.compute_effect hsolve h.computed with ⟨-, -, hsame⟩ | ⟨f, hdrains⟩
  · rw [hsame]
    exact hbefore
  · have hbeforeIds : before.applications.map (·.applicationId) =
        setup.application.map (·.applicationId) :=
      (map_applicationId_of_generates (updated_generates h.updated)).trans hx.ids
    have hmember := ((List.forall₂_and_left (p := fun app => app ∈ before.applications) _ _).mpr
      ⟨fun _ h => h, hbefore.flip⟩).flip
    rw [hdrains.applications, List.forall₂_map_right_iff]
    apply hmember.imp
    rintro app₀ app ⟨happ, hid, hsum⟩
    have hsetId : (app.setPending []).applicationId = app.applicationId :=
      congrArg Application.Requirements.applicationId (app.requirements_setPending [])
    have hqueued := queuedFrom_of_drains hdrains (hbeforeIds ▸ hids) happ
    rw [hid] at hqueued
    rw [Application.due] at hsum
    rw [Application.due_setPending, hqueued]
    exact ⟨hsetId.trans hid, by omega⟩

/-- An event that takes no packet and computes nothing. -/
theorem Ledger.idle {a : Action} (hx : Ledger setup as x) (ha : takenPackets [a] = [])
    (hstrategy : y.strategy = x.strategy) : Ledger setup (as ++ [a]) y := by
  have hnone : ∀ id, takenFrom id (as ++ [a]) = takenFrom id as := by
    intro id
    rw [takenFrom_append, takenFrom, takenFrom, ha]
    rfl
  unfold Ledger
  simp only [hnone, hstrategy]
  exact hx

theorem Ledger.taken {l : ℕ} {i : ISPInterface} {packetInfo : SendPacketInfo}
    {rest : List SendPacketInfo} {isCorrupt : Bool} (hx : Ledger setup as x)
    (hl : x.strategy.availableInterfaces[l]? = some i)
    (hqueue : i.pendingpackets = packetInfo :: rest)
    (hstrategy : y.strategy = { x.strategy with
      availableInterfaces := x.strategy.availableInterfaces.set l
        (afterSend i rest packetInfo.originatedFrom isCorrupt) }) :
    Ledger setup (as ++ [.taken now l packetInfo isCorrupt]) y := by
  unfold Ledger
  rw [hstrategy]
  apply hx.imp
  rintro app₀ app ⟨hid, hsum⟩
  have hmoved := queuedFrom_of_taken now hl hqueue isCorrupt app₀.applicationId
  rw [takenFrom_append]
  dsimp only
  exact ⟨hid, by omega⟩

/-! ## Every run -/

theorem ledger_of_runs (hsolve : AnswersFeasibly env.solve) (husable : Usable setup ifaces)
    (hids : (setup.application.map (·.applicationId)).Nodup) (h : Runs env setup as x) :
    Ledger setup as x := by
  apply h.invariant
  · rintro a y ⟨now, hstart⟩
    obtain ⟨x, before, after, hstarted, hifaces, rfl, hcomputes⟩ := start_cases husable hstart
    have hsteady := hstarted.steady husable hifaces
    have hqueued := queuedFrom_eq_zero hstarted.created.pendingpackets
    have hledger : Ledger setup [] x := by
      have hfresh : ∀ app ∈ setup.application, app.Fresh ∧ app.LongEnough :=
        fun app happ => ⟨setup.fresh app happ, husable.longEnough app happ⟩
      apply ((List.forall₂_and_left _ _).mpr ⟨hfresh, hstarted.applications⟩).imp
      rintro app₀ app ⟨⟨hfresh, hlength⟩, hstart⟩
      obtain ⟨n, hgenerates⟩ := Application.onApplicationStart_generates hstart
      rw [hqueued, Application.due_of_start hfresh hlength hstart]
      exact ⟨applicationId_of_generates hgenerates, Nat.zero_add _⟩
    exact hcomputes.ledger hsolve hids hsteady.underway hledger
  · rintro as a x y hreach hx ⟨now, poll, e, -, hrun⟩
    have hsteady := steady_of_runs hsolve husable hreach
    rcases run_cases hrun with
      ⟨-, before, after, rfl, hcomputes⟩ | ⟨l, -, ⟨-, rfl, rfl⟩ | ⟨-, hsend⟩⟩
    · exact hcomputes.ledger hsolve hids hsteady.underway hx
    · exact hx.idle rfl rfl
    · obtain ⟨i, hl, -, -, ⟨rfl, hstrategy, -⟩ | ⟨packetInfo, rest, hqueue, rfl, hstrategy⟩⟩ :=
        sendData_eq_ok hsend
      · exact hx.idle rfl hstrategy
      · exact hx.taken hl hqueue hstrategy

/-- A sender without pending events has sent all data. -/
theorem allSent_of_ended_run (hsolve : AnswersFeasibly env.solve) (h : Runs env setup as x)
    (hended : x.simulator.events = []) : x.strategy.getAllDataHasBeenSent = true := by
  by_contra hleft
  rw [Bool.not_eq_true] at hleft
  obtain ⟨e, he, -⟩ := (live_of_runs hsolve h).computes hleft
  rw [hended] at he
  cases he

/-- A sender that has sent all data has taken every packet out of the queues. -/
theorem takenFrom_of_allSent (hsolve : AnswersFeasibly env.solve) (husable : Usable setup ifaces)
    (hids : (setup.application.map (·.applicationId)).Nodup) (h : Runs env setup as x)
    (hsent : x.strategy.getAllDataHasBeenSent = true) {app₀ : Application}
    (happ₀ : app₀ ∈ setup.application) : takenFrom app₀.applicationId as = app₀.total := by
  obtain ⟨a, ha⟩ := List.mem_iff_getElem?.mp happ₀
  obtain ⟨app, happ, -, hsum⟩ :=
    exists_getElem?_of_forall₂ (ledger_of_runs hsolve husable hids h) ha
  have hmem := List.mem_of_getElem? happ
  obtain ⟨happs, hqueues⟩ := (Strategy.getAllDataHasBeenSent_iff _).mp hsent
  have hdue : app.due = 0 := Application.due_eq_zero_of_stopped
    ((steady_of_runs hsolve husable h).underway app hmem) (happs app hmem).1 (happs app hmem).2
  have hqueued := queuedFrom_eq_zero hqueues app₀.applicationId
  omega

/-- In every state of every run the packets of an application that are taken, queued, pending and
still to come are together those that it has to send. At the end of the run all of them are
taken. -/
theorem delivered_exactly (hsolve : AnswersFeasibly env.solve) (husable : Usable setup ifaces)
    (hids : (setup.application.map (·.applicationId)).Nodup) (h : Runs env setup as x) :
    (∀ (a : ℕ) (app₀ app : Application), setup.application[a]? = some app₀ →
        x.strategy.applications[a]? = some app →
          takenFrom app₀.applicationId as +
            queuedFrom app₀.applicationId x.strategy.availableInterfaces +
              app.pendingpackets.length + app.remaining = app₀.total) ∧
      (x.simulator.events = [] →
        ∀ app ∈ setup.application, takenFrom app.applicationId as = app.total) := by
  refine ⟨fun a app₀ app ha happ => ?_, fun hended app₀ happ₀ => ?_⟩
  · obtain ⟨app', happ', -, hsum⟩ :=
      exists_getElem?_of_forall₂ (ledger_of_runs hsolve husable hids h) ha
    obtain rfl : app = app' := Option.some.inj (happ.symm.trans happ')
    rw [Application.due] at hsum
    omega
  · exact takenFrom_of_allSent hsolve husable hids h (allSent_of_ended_run hsolve h hended) happ₀

theorem delivered_exactly_sample :
    ∃ as x, Runs sampleEnvironment (sampleSetup .roundRobin) as x ∧
      x.simulator.events = [] ∧ takenFrom 1 as = 3 := by
  obtain ⟨as, x, hruns, hobserved⟩ := exists_timedRuns sampleEnvironment 0
    (sampleSetup .roundRobin) (List.replicate 6 false) (fun s => s.2.simulator.events.length) 0
    (by decide +kernel)
  have hended := List.length_eq_zero_iff.mp hobserved
  have husable : ∃ ifaces, Usable (sampleSetup .roundRobin) ifaces := by
    refine ⟨_, ⟨_, rfl⟩, by simp, by decide, ?_, StrategyTypes.noConfusion, fun _ => by decide⟩
    exact List.forall_mem_singleton.mpr trivial
  obtain ⟨ifaces, husable⟩ := husable
  exact ⟨as, x, hruns.runs, hended, (delivered_exactly (sound_offer _).answersFeasibly husable
    (by decide) hruns.runs).2 hended _ (List.mem_singleton_self _)⟩

end SenderApplication

end SdWan
