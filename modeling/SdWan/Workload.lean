import SdWan.Accounting
import SdWan.OfferedLoad
import SdWan.StaticBound
import SdWan.Traffic

/-!
# The workload of the computations

Under round robin and under the reactive strategy a computation takes all pending packets, so what
the next one finds depends on the applications alone: not on the network, the solver, the order of
the events or the strategy. A sampled application brings the packets of its first two samples to the
first computation and those of one more sample to every later one, until its walk ends.
-/

open IntegerProgram

namespace SdWan

namespace SinApplication

/-- The samples whose packets the first `k` computations take. -/
def samplesTakenBy (k : ℕ) : ℕ :=
  if k = 0 then 0 else min (k + 1) Utils.simulationDurationInSeconds

theorem samplesTakenBy_succ (k : ℕ) :
    samplesTakenBy (k + 1) = min (k + 2) Utils.simulationDurationInSeconds :=
  if_neg (Nat.succ_ne_zero k)

/-- The sampled application `s` as the computation number `k` finds it. -/
structure FoundAt (s b : SinApplication) (k : ℕ) : Prop where
  sinValues : b.sinValues = s.sinValues
  currentSample : b.currentSample = samplesTakenBy (k + 1)
  finished : b.allPacketsGenerated = decide (b.currentSample = Utils.simulationDurationInSeconds)
  pending : s.packetsBefore (samplesTakenBy k) + b.pendingpackets.length =
    s.packetsBefore (samplesTakenBy (k + 1))

theorem update_cases {b : SinApplication} {app : Application}
    (h : (Application.sin b).update = .ok app) :
    ∃ b', app = .sin b' ∧ b.enqueuePacketsForCurrentSample = .ok b' := by
  rw [Application.update] at h
  split_ifs at h with hstopped
  · obtain ⟨-, hfinished⟩ := (Application.getHasStoppedGeneratingData_iff _).mp hstopped
    exact ⟨b, (Except.ok.inj h).symm, if_pos hfinished⟩
  · obtain ⟨b', hb', h⟩ := Result.bind_eq_ok.mp h
    exact ⟨b', (Except.ok.inj h).symm, hb'⟩

theorem foundAt_zero {s : SinApplication} (hfresh : (Application.sin s).Fresh)
    {app app' : Application} (hstart : (Application.sin s).onApplicationStart = .ok app)
    (hupdate : app.update = .ok app') : ∃ b, app' = .sin b ∧ FoundAt s b 0 := by
  obtain ⟨-, -, hpending⟩ := Application.start_update_eq_ok hfresh ⟨app, hstart, hupdate⟩
  obtain ⟨hfirst, rfl⟩ := (Application.onApplicationStart_eq_ok_iff hfresh).mp hstart
  obtain ⟨hsecond, rfl⟩ :=
    (Application.update_second_eq_ok_iff (by rfl) (by exact hfresh.2.2.2)).mp hupdate
  refine ⟨_, rfl, rfl, rfl, hfresh.2.2.2, ?_⟩
  exact (Nat.zero_add _).trans hpending

/-- Between two computations the walk takes one sample, or none at its end. -/
theorem FoundAt.next {s b b' : SinApplication} {k : ℕ} (h : FoundAt s b k)
    (hb' : SinApplication.enqueuePacketsForCurrentSample
      { b with pendingpackets := [] } = .ok b') : FoundAt s b' (k + 1) := by
  have hcurrent := h.currentSample
  have hfinished := h.finished
  rw [samplesTakenBy_succ] at hcurrent
  rcases enqueuePacketsForCurrentSample_cases hb' with ⟨hend, rfl⟩ | ⟨hlt, hleft, rfl⟩
  · have hlast : b.currentSample = Utils.simulationDurationInSeconds :=
      of_decide_eq_true (hfinished.symm.trans hend)
    have hsame : samplesTakenBy (k + 2) = samplesTakenBy (k + 1) := by
      rw [samplesTakenBy_succ, samplesTakenBy_succ]
      omega
    exact ⟨h.sinValues, hsame ▸ h.currentSample, hfinished, by rw [hsame]; rfl⟩
  · dsimp only at hlt hleft
    have hbefore : b.currentSample ≠ Utils.simulationDurationInSeconds := by
      rw [hleft] at hfinished
      exact of_decide_eq_false hfinished.symm
    have hnext : samplesTakenBy (k + 2) = b.currentSample + 1 := by
      rw [samplesTakenBy_succ]
      omega
    refine ⟨h.sinValues, hnext.symm, rfl, ?_⟩
    rw [hnext, ← h.currentSample, packetsBefore_succ (h.sinValues ▸ hlt)]
    simp only [SDWanApplication.length_pushPackets, List.length_nil, Nat.zero_add, h.sinValues]

end SinApplication

namespace SenderApplication

/-- The applications that the computation number `k` finds, if each one before has taken all
pending packets. -/
def foundAt (application : List Application) : ℕ → Result (List Application)
  | 0 => do
    let started ← forEach Application.onApplicationStart application
    forEach Application.update started
  | k + 1 => do
    let found ← foundAt application k
    forEach Application.update (found.map (·.setPending []))

variable {env : Environment} {setup : Setup} {as : List Action} {x : SenderApplication}

/-- A step is a computation, or it leaves all but the interfaces as it is. -/
theorem step_computation_or_poll {y : SenderApplication} {a : Action} (h : Step env x a y) :
    (∃ now e before after, e ∈ x.simulator.events ∧ e.handler = .computeStrategyAndContinue ∧
        a = .computed now before after ∧
        Computes env now { x with simulator := x.simulator.remove e } y before after) ∨
      computations [a] = [] ∧
        y.strategy = { x.strategy with availableInterfaces := y.strategy.availableInterfaces } := by
  obtain ⟨now, poll, e, he, hrun⟩ := h
  rcases run_cases hrun with
    ⟨hcompute, before, after, ha, hcomputes⟩ | ⟨l, -, ⟨-, rfl, rfl⟩ | ⟨-, hsend⟩⟩
  · exact .inl ⟨now, e, before, after, he, hcompute, ha, hcomputes⟩
  · exact .inr ⟨rfl, rfl⟩
  · have hkeeps := strategy_of_sendData hsend
    refine .inr ⟨?_, hkeeps⟩
    obtain ⟨i, -, -, -, ⟨rfl, -⟩ | ⟨packetInfo, rest, -, rfl, -⟩⟩ := sendData_eq_ok hsend
    · rfl
    · rfl

/-- The computations of a run find what they should, and leave nothing pending. -/
structure FindsWorkload (application : List Application) (as : List Action)
    (x : SenderApplication) : Prop where
  found : ∀ (k : ℕ) (c : Strategy × Strategy), (computations as)[k]? = some c →
    foundAt application k = .ok c.1.applications
  last : ∃ cs c, computations as = cs ++ [c] ∧
    x.strategy.applications = c.1.applications.map (·.setPending [])

theorem drains_of_compute (hsolve : AnswersFeasibly env.solve) {strategyType : StrategyTypes}
    (htype : strategyType = .roundRobin ∨ strategyType = .reactive) {now : Time}
    {s s' : Strategy} (h : s.compute env strategyType now = .ok s') :
    ∃ f, Drains now s s' f := by
  rcases Strategy.compute_effect hsolve h with ⟨hlinear, -⟩ | hdrains
  · rcases htype with rfl | rfl <;> cases hlinear
  · exact hdrains

theorem findsWorkload_of_runs (hsolve : AnswersFeasibly env.solve)
    (htype : setup.strategyType = .roundRobin ∨ setup.strategyType = .reactive)
    (h : Runs env setup as x) : FindsWorkload setup.application as x := by
  apply h.invariant
  · rintro a y ⟨now, hstart⟩
    obtain ⟨x, before, after, hstarted, rfl, hcomputes⟩ := startApplication_eq_ok hstart
    have hcompute := hcomputes.computed
    rw [hstarted.strategyType] at hcompute
    obtain ⟨f, hdrains⟩ := drains_of_compute hsolve htype hcompute
    refine ⟨fun k c hk => ?_, [], (before, after), rfl, ?_⟩
    · obtain ⟨hlt, rfl⟩ := List.getElem?_eq_some_iff.mp hk
      obtain rfl : k = 0 := by
        change k < 1 at hlt
        omega
      exact Result.bind_eq_ok.mpr ⟨_, forEach_eq_ok.mpr hstarted.applications,
        forEach_eq_ok.mpr hcomputes.updated⟩
    · rw [hcomputes.strategy]
      exact hdrains.applications
  · intro as a x y hreach hx hstep
    obtain ⟨cs, c, hcs, happs⟩ := hx.last
    rcases step_computation_or_poll hstep with
      ⟨now, e, before, after, -, -, rfl, hcomputes⟩ | ⟨hnone, hkeeps⟩
    · have hcompute := hcomputes.computed
      rw [show x.strategyType = setup.strategyType from strategyType_of_runs hreach] at hcompute
      obtain ⟨f, hdrains⟩ := drains_of_compute hsolve htype hcompute
      have hsplit : computations (as ++ [.computed now before after]) =
          computations as ++ [(before, after)] := computations_append _ _
      refine ⟨fun k c' hk => ?_, computations as, (before, after), hsplit, ?_⟩
      · rw [hsplit] at hk
        rcases getElem?_concat_cases hk with hk | ⟨rfl, rfl⟩
        · exact hx.found k c' hk
        · have hfound : foundAt setup.application cs.length = .ok c.1.applications :=
            hx.found cs.length c (by rw [hcs, List.getElem?_concat_length])
          have hupdated := hcomputes.updated
          dsimp only at hupdated
          rw [happs] at hupdated
          rw [hcs, List.length_append, List.length_singleton]
          exact Result.bind_eq_ok.mpr ⟨_, hfound, forEach_eq_ok.mpr hupdated⟩
      · rw [hcomputes.strategy]
        exact hdrains.applications
    · have hsame : computations (as ++ [a]) = computations as := by
        rw [computations_append, hnone, List.append_nil]
      have hunchanged : y.strategy.applications = x.strategy.applications := by rw [hkeeps]
      exact ⟨hsame ▸ hx.found, cs, c, hsame.trans hcs, hunchanged.trans happs⟩

/-- The applications that a computation finds are the same in every run of the same applications,
whatever the network, the solver, the order of the events and, of these two, the strategy. -/
theorem workload_independent {env' : Environment} {setup' : Setup} {as' : List Action}
    {x' : SenderApplication} (hsolve : AnswersFeasibly env.solve)
    (hsolve' : AnswersFeasibly env'.solve)
    (htype : setup.strategyType = .roundRobin ∨ setup.strategyType = .reactive)
    (htype' : setup'.strategyType = .roundRobin ∨ setup'.strategyType = .reactive)
    (hsame : setup'.application = setup.application) (h : Runs env setup as x)
    (h' : Runs env' setup' as' x') {k : ℕ} {c c' : Strategy × Strategy}
    (hc : (computations as)[k]? = some c) (hc' : (computations as')[k]? = some c') :
    c'.1.applications = c.1.applications := by
  have hfound := (findsWorkload_of_runs hsolve htype h).found k c hc
  have hfound' := (findsWorkload_of_runs hsolve' htype' h').found k c' hc'
  rw [hsame, hfound] at hfound'
  exact (Except.ok.inj hfound').symm

theorem workload_independent_sample :
    ∃ as x as' x' c c', Runs sampleEnvironment (sampleSetup .reactive) as x ∧
      Runs sampleEnvironment (sampleSetup .roundRobin) as' x' ∧
      (computations as)[0]? = some c ∧ (computations as')[0]? = some c' ∧
      c'.1.applications = c.1.applications := by
  obtain ⟨as, x, hruns, hlength⟩ := exists_timedRuns sampleEnvironment 0
    (sampleSetup .reactive) [] (fun s => (computations s.1).length) 1 (by decide +kernel)
  obtain ⟨as', x', hruns', hlength'⟩ := exists_timedRuns sampleEnvironment 0
    (sampleSetup .roundRobin) [] (fun s => (computations s.1).length) 1 (by decide +kernel)
  have hc := List.getElem?_eq_getElem (hlength.symm ▸ Nat.zero_lt_one)
  have hc' := List.getElem?_eq_getElem (hlength'.symm ▸ Nat.zero_lt_one)
  exact ⟨as, x, as', x', _, _, hruns.runs, hruns'.runs, hc, hc',
    workload_independent (sound_offer _).answersFeasibly (sound_offer _).answersFeasibly
      (.inr rfl) (.inl rfl) (by rfl) hruns.runs hruns'.runs hc hc'⟩

/-! ## What a sampled application brings -/

theorem sin_of_foundAt {application found : List Application}
    (hfresh : ∀ app ∈ application, app.Fresh) {k a : ℕ} (h : foundAt application k = .ok found)
    {s : SinApplication} (ha : application[a]? = some (.sin s)) :
    ∃ b, found[a]? = some (.sin b) ∧ s.FoundAt b k := by
  induction k generalizing found with
  | zero =>
    obtain ⟨started, hstarted, hupdated⟩ := Result.bind_eq_ok.mp h
    obtain ⟨app, happ, hstart⟩ := exists_getElem?_of_forall₂ (forEach_eq_ok.mp hstarted) ha
    obtain ⟨app', happ', hupdate⟩ := exists_getElem?_of_forall₂ (forEach_eq_ok.mp hupdated) happ
    obtain ⟨b, rfl, hfound⟩ :=
      SinApplication.foundAt_zero (hfresh _ (List.mem_of_getElem? ha)) hstart hupdate
    exact ⟨b, happ', hfound⟩
  | succ k ih =>
    obtain ⟨before, hbefore, hupdated⟩ := Result.bind_eq_ok.mp h
    obtain ⟨b, hb, hfound⟩ := ih hbefore
    have hdrained : (before.map (·.setPending []))[a]? =
        some ((Application.sin b).setPending []) := by
      rw [List.getElem?_map, hb]
      rfl
    obtain ⟨app, happ, hupdate⟩ := exists_getElem?_of_forall₂ (forEach_eq_ok.mp hupdated) hdrained
    obtain ⟨b', rfl, hb'⟩ := SinApplication.update_cases hupdate
    exact ⟨b', happ, hfound.next hb'⟩

/-- The computation number `k` of every run finds, of a sampled application, the packets of the
samples between two points of its walk. Those of all computations so far are the packets of the
samples up to the second point. -/
theorem pending_of_computation (hsolve : AnswersFeasibly env.solve)
    (htype : setup.strategyType = .roundRobin ∨ setup.strategyType = .reactive)
    (h : Runs env setup as x) {a : ℕ} {s : SinApplication}
    (ha : setup.application[a]? = some (.sin s)) :
    (∀ (k : ℕ) (c : Strategy × Strategy), (computations as)[k]? = some c →
        s.packetsBefore (SinApplication.samplesTakenBy k) + pendingAt c.1.applications a =
          s.packetsBefore (SinApplication.samplesTakenBy (k + 1))) ∧
      ∀ n ≤ (computations as).length,
        (((computations as).take n).map fun c => pendingAt c.1.applications a).sum =
          s.packetsBefore (SinApplication.samplesTakenBy n) := by
  have hone : ∀ (k : ℕ) (c : Strategy × Strategy), (computations as)[k]? = some c →
      s.packetsBefore (SinApplication.samplesTakenBy k) + pendingAt c.1.applications a =
        s.packetsBefore (SinApplication.samplesTakenBy (k + 1)) := by
    intro k c hc
    obtain ⟨b, hb, hfound⟩ := sin_of_foundAt setup.fresh
      ((findsWorkload_of_runs hsolve htype h).found k c hc) ha
    have hpending : pendingAt c.1.applications a = b.pendingpackets.length := by
      rw [pendingAt, hb]
      rfl
    rw [hpending]
    exact hfound.pending
  refine ⟨hone, fun n hn => ?_⟩
  induction n with
  | zero => rfl
  | succ n ih =>
    have hlt : n < (computations as).length := by omega
    have hlast := hone n _ (List.getElem?_eq_getElem hlt)
    rw [List.take_succ_eq_append_getElem hlt, List.map_append, List.sum_append,
      List.map_singleton, List.sum_singleton, ih (by omega), hlast]

theorem pending_of_computation_sample :
    ∃ as x, Runs sampleEnvironment { sinSetup 2048 with strategyType := .roundRobin } as x ∧
      ((computations as).map fun c => pendingAt c.1.applications 0).sum =
        (SinApplication.sampleSin 1).packetsBefore 3 := by
  obtain ⟨as, x, hruns, hlength⟩ := exists_timedRuns sampleEnvironment 0
    { sinSetup 2048 with strategyType := .roundRobin } [false, false, false, false]
    (fun s => (computations s.1).length) 2 (by decide +kernel)
  have hsum := (pending_of_computation (sound_offer _).answersFeasibly (.inl rfl) hruns.runs
    (a := 0) (s := SinApplication.sampleSin 1) rfl).2 2 hlength.ge
  rw [List.take_of_length_le hlength.le] at hsum
  exact ⟨as, x, hruns.runs, hsum⟩

end SenderApplication

end SdWan
