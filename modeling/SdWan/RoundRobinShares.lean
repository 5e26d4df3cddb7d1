import SdWan.Assigned
import SdWan.RoundRobinBalance

/-!
# What the interfaces get from round robin

A computation deals the packets of one application after those of the other, and each application
begins where the last one ended. Therefore every computation spreads every application evenly. Over
a run the first interfaces get more than the last ones, by one packet at most for every computation
that finds a number of packets they cannot share evenly.
-/

open IntegerProgram Rotation

namespace SdWan

/-- The packets of one application only. -/
theorem amountFrom_of_origin {packets : List SendPacketInfo} {applicationId : ℕ}
    (h : ∀ p ∈ packets, p.originatedFrom = applicationId) (id : ℕ) :
    amountFrom id packets = if applicationId = id then packets.length else 0 := by
  by_cases hid : applicationId = id
  · rw [if_pos hid, amountFrom, List.countP_eq_length]
    intro p hp
    rw [h p hp, decide_eq_true_iff]
    exact hid
  · rw [if_neg hid, amountFrom, List.countP_eq_zero]
    intro p hp
    rw [h p hp, decide_eq_true_iff]
    exact hid

theorem amountFrom_append (id : ℕ) (ps qs : List SendPacketInfo) :
    amountFrom id (ps ++ qs) = amountFrom id ps + amountFrom id qs :=
  List.countP_append

namespace RoundRobinStrategy

/-! ## One computation -/

/-- The packets of the application `id` that slot `q` gets, when the packets of `apps` are dealt to
`n` slots and the first one goes to slot `c`. -/
def share (n id q : ℕ) : ℕ → List Application → ℕ
  | _, [] => 0
  | c, app :: apps =>
    (if app.applicationId = id then dealt n c app.pendingpackets.length q else 0) +
      share n id q (c + app.pendingpackets.length) apps

theorem share_mod (n id q c : ℕ) (apps : List Application) :
    share n id q (c % n) apps = share n id q c apps := by
  induction apps generalizing c with
  | nil => rfl
  | cons app apps ih =>
    have hrest := ih (c % n + app.pendingpackets.length)
    rw [Nat.mod_add_mod, ih] at hrest
    rw [share, share, dealt_mod, ← hrest]

theorem share_of_notMem {apps : List Application} {id : ℕ}
    (h : id ∉ apps.map (·.applicationId)) (n q c : ℕ) : share n id q c apps = 0 := by
  induction apps generalizing c with
  | nil => rfl
  | cons app apps ih =>
    rw [List.map_cons, List.mem_cons, not_or] at h
    rw [share, if_neg (Ne.symm h.1), ih h.2]

/-- An application gets a round of its own. -/
theorem share_eq {apps : List Application} (hids : (apps.map (·.applicationId)).Nodup) {a : ℕ}
    {app : Application} (ha : apps[a]? = some app) (n q c : ℕ) :
    share n app.applicationId q c apps =
      dealt n (c + pendingTotal (apps.take a)) app.pendingpackets.length q := by
  induction apps generalizing a c with
  | nil => cases ha
  | cons first apps ih =>
    rw [List.map_cons, List.nodup_cons] at hids
    cases a with
    | zero =>
      cases ha
      rw [share, if_pos rfl, share_of_notMem hids.1]
      rfl
    | succ a =>
      rw [List.getElem?_cons_succ] at ha
      have hother : first.applicationId ≠ app.applicationId := by
        intro heq
        exact hids.1 (heq ▸ List.mem_map_of_mem (List.mem_of_getElem? ha))
      rw [share, if_neg hother, Nat.zero_add, ih hids.2 ha, List.take_succ_cons, Nat.add_assoc]
      rfl

/-- The loop over one application puts its own packets on the interfaces. -/
theorem drainPackets_shares (now : Time) (applicationId : ℕ) (pending : List ℕ) {n : ℕ}
    {s : DrainState} (hn : s.availableInterfaces.length = n) (hs : s.cursor < n) :
    ∃ s' f, drainPackets (fun currentIndex _ => .ok currentIndex)
        (fun currentIndex totalInterfacesAmount => (currentIndex + 1) % totalInterfacesAmount)
        now applicationId pending s = .ok s' ∧ Deals n pending.length s s' f ∧
      ∀ q, ∀ p ∈ f q, p.originatedFrom = applicationId := by
  induction pending generalizing s with
  | nil => exact ⟨s, _, rfl, .refl hs, fun q p hp => by cases hp⟩
  | cons x pending ih =>
    obtain ⟨iface, hi⟩ : ∃ iface, s.availableInterfaces[s.cursor]? = some iface :=
      ⟨_, List.getElem?_eq_getElem (hn ▸ hs)⟩
    have hone := Deals.put hi ⟨now, applicationId⟩
    rw [hn] at hone
    obtain ⟨s', f, hdrain, hdeals, horigin⟩ := ih
      (by rw [hone.availableInterfaces, length_appendAt, hn])
      (by rw [hone.cursor]; exact Nat.mod_lt _ (s.cursor.zero_le.trans_lt hs))
    have hall := hone.trans hdeals
    rw [Nat.add_comm, ← List.length_cons (a := x)] at hall
    refine ⟨s', _, ?_, hall, fun q p hp => ?_⟩
    · rw [drainPackets]
      simp only [hi, hn]
      exact hdrain
    · rcases List.mem_append.mp hp with hp | hp
      · split_ifs at hp
        · rw [List.mem_singleton.mp hp]
        · cases hp
      · exact horigin q p hp

theorem drainApplications_shares (now : Time) (apps : List Application) {n : ℕ} {s : DrainState}
    (hn : s.availableInterfaces.length = n) (hs : s.cursor < n) :
    ∃ apps' s' f, drainApplications (fun currentIndex _ => .ok currentIndex)
        (fun currentIndex totalInterfacesAmount => (currentIndex + 1) % totalInterfacesAmount)
        now apps s = .ok (apps', s') ∧ Deals n (pendingTotal apps) s s' f ∧
      ∀ id q, amountFrom id (f q) = share n id q s.cursor apps := by
  induction apps generalizing s with
  | nil => exact ⟨[], s, _, rfl, .refl hs, fun _ _ => rfl⟩
  | cons app apps ih =>
    obtain ⟨s₁, f₁, hfirst, hdeals₁, horigin⟩ :=
      drainPackets_shares now app.applicationId app.pendingpackets hn hs
    obtain ⟨apps', s', f₂, hrest, hdeals₂, hshares⟩ := ih
      (by rw [hdeals₁.availableInterfaces, length_appendAt, hn])
      (by rw [hdeals₁.cursor]; exact Nat.mod_lt _ (s.cursor.zero_le.trans_lt hs))
    refine ⟨app.setPending [] :: apps', s', _, ?_, hdeals₁.trans hdeals₂, fun id q => ?_⟩
    · rw [drainApplications, hfirst]
      simp only [hrest]
    · rw [amountFrom_append, amountFrom_of_origin (horigin q), hdeals₁.length, hshares,
        hdeals₁.cursor, share_mod, share]

/-- What a computation puts on an interface. -/
theorem compute_shares (now : Time) {s : Strategy} (hn : 0 < s.availableInterfaces.length) :
    ∃ s', compute now s = .ok s' ∧ ∀ q < s.availableInterfaces.length,
      (enqueued s.availableInterfaces s'.availableInterfaces q).length =
          dealt s.availableInterfaces.length 0 (pendingTotal s.applications) q ∧
        ∀ id, amountFrom id (enqueued s.availableInterfaces s'.availableInterfaces q) =
          share s.availableInterfaces.length id q 0 s.applications := by
  obtain ⟨apps', loop, f, hdrain, hdeals, hshares⟩ := drainApplications_shares now s.applications
    (s := ⟨0, 0, 0, s.availableInterfaces⟩) rfl hn
  refine ⟨s.recordDrained "outputRoundRobin.csv" apps' loop, ?_, fun q hq => ?_⟩
  · rw [compute, hdrain]
  · rw [Strategy.recordDrained, Strategy.availableInterfaces_printIfAllSent,
      hdeals.availableInterfaces, enqueued_appendAt _ _ hq, hdeals.length]
    exact ⟨rfl, fun id => hshares id q⟩

end RoundRobinStrategy

namespace SenderApplication

/-! ## The whole run -/

variable {env : Environment} {setup : Setup} {as : List Action} {x : SenderApplication}

theorem length_of_computations (h : Runs env setup as x) {c : Strategy × Strategy}
    (hc : c ∈ computations as) :
    c.1.availableInterfaces.length = x.strategy.availableInterfaces.length := by
  simpa using congrArg List.length (attributes_of_computations h c hc)

theorem shares_of_runs (hsolve : AnswersFeasibly env.solve)
    (htype : setup.strategyType = .roundRobin) (h : Runs env setup as x)
    {c : Strategy × Strategy} (hc : c ∈ computations as) {q : ℕ}
    (hq : q < x.strategy.availableInterfaces.length) :
    (enqueued c.1.availableInterfaces c.2.availableInterfaces q).length =
        dealt x.strategy.availableInterfaces.length 0 (pendingTotal c.1.applications) q ∧
      ∀ id, amountFrom id (enqueued c.1.availableInterfaces c.2.availableInterfaces q) =
        RoundRobinStrategy.share x.strategy.availableInterfaces.length id q 0
          c.1.applications := by
  obtain ⟨now, hcomputed⟩ := mem_computations.mp hc
  have hcompute := ((computesOn_of_runs hsolve h).2 now _ _ hcomputed).computed
  have hlength := length_of_computations h hc
  rw [htype] at hcompute
  obtain ⟨s', hs', hshares⟩ := RoundRobinStrategy.compute_shares now
    (s := c.1) (hlength ▸ q.zero_le.trans_lt hq)
  rw [Strategy.compute, hs'] at hcompute
  cases hcompute
  rw [← hlength]
  exact hshares q (hlength ▸ hq)

/-- Every computation spreads every application evenly. -/
theorem balanced_assigned (hsolve : AnswersFeasibly env.solve)
    (htype : setup.strategyType = .roundRobin)
    (hids : (setup.application.map (·.applicationId)).Nodup) (h : Runs env setup as x)
    {c : Strategy × Strategy} (hc : c ∈ computations as) (a : ℕ) :
    Rotation.Balanced x.strategy.availableInterfaces.length (assigned c a) := by
  obtain ⟨now, hcomputed⟩ := mem_computations.mp hc
  have hidsOf := ((computesOn_of_runs hsolve h).2 now _ _ hcomputed).ids
  cases happ : c.1.applications[a]? with
  | none =>
    intro q _ q' _
    rw [assigned, happ]
    exact Nat.zero_le _
  | some app =>
    have hassigned : ∀ q < x.strategy.availableInterfaces.length, assigned c a q =
        dealt x.strategy.availableInterfaces.length (0 + pendingTotal (c.1.applications.take a))
          app.pendingpackets.length q := by
      intro q hq
      rw [assigned, happ, Option.elim_some, (shares_of_runs hsolve htype h hc hq).2]
      exact RoundRobinStrategy.share_eq (hidsOf ▸ hids) happ _ q 0
    intro q hq q' hq'
    rw [hassigned q hq, hassigned q' hq']
    exact balanced_dealt _ _ _ q hq q' hq'

/-- What the computations of a run put on an interface. -/
theorem enqueuedOn_length (hsolve : AnswersFeasibly env.solve)
    (htype : setup.strategyType = .roundRobin) (h : Runs env setup as x) {q : ℕ}
    (hq : q < x.strategy.availableInterfaces.length) :
    (enqueuedOn as q).length = load x.strategy.availableInterfaces.length
      ((computations as).map fun c => pendingTotal c.1.applications) q := by
  rw [enqueuedOn, List.length_flatMap, load, List.map_map]
  congr 1
  apply List.map_congr_left
  intro c hc
  exact (shares_of_runs hsolve htype h hc hq).1

/-- Round robin spreads the packets of every application evenly in every computation. Over a run an
interface gets an equal share of every computation, and one packet more when it is among those that
the rest is dealt to, so that the interfaces ahead of another one get more than it, by one packet at
most for every computation whose packets cannot be shared evenly. -/
theorem roundRobin_shares (hsolve : AnswersFeasibly env.solve)
    (htype : setup.strategyType = .roundRobin)
    (hids : (setup.application.map (·.applicationId)).Nodup) (h : Runs env setup as x) :
    (∀ c ∈ computations as, ∀ a,
      Rotation.Balanced x.strategy.availableInterfaces.length (assigned c a)) ∧
    (∀ q < x.strategy.availableInterfaces.length, (enqueuedOn as q).length =
      ((computations as).map fun c =>
          pendingTotal c.1.applications / x.strategy.availableInterfaces.length).sum +
        (computations as).countP fun c => decide
          (q < pendingTotal c.1.applications % x.strategy.availableInterfaces.length)) ∧
    ∀ q q', q ≤ q' → q' < x.strategy.availableInterfaces.length →
      (enqueuedOn as q').length ≤ (enqueuedOn as q).length ∧
        (enqueuedOn as q).length ≤ (enqueuedOn as q').length +
          (computations as).countP fun c => decide
            (¬ x.strategy.availableInterfaces.length ∣ pendingTotal c.1.applications) := by
  refine ⟨fun c hc a => balanced_assigned hsolve htype hids h hc a, fun q hq => ?_,
    fun q q' hle hq' => ?_⟩
  · rw [enqueuedOn_length hsolve htype h hq, load_eq hq, List.map_map, List.countP_map]
    rfl
  · have hq := hle.trans_lt hq'
    rw [enqueuedOn_length hsolve htype h hq, enqueuedOn_length hsolve htype h hq']
    refine ⟨load_le_load hle hq' _, ?_⟩
    have huneven := load_le_add_unevenRounds hq hq'
      ((computations as).map fun c => pendingTotal c.1.applications)
    rwa [unevenRounds, List.countP_map] at huneven

theorem roundRobin_shares_sample :
    ∃ as x, Runs sampleEnvironment (sampleSetup .roundRobin) as x ∧
      (computations as).length = 2 ∧
      ∀ q q', q ≤ q' → q' < x.strategy.availableInterfaces.length →
        (enqueuedOn as q').length ≤ (enqueuedOn as q).length ∧
          (enqueuedOn as q).length ≤ (enqueuedOn as q').length +
            (computations as).countP fun c => decide
              (¬ x.strategy.availableInterfaces.length ∣ pendingTotal c.1.applications) := by
  obtain ⟨as, x, hruns, hlength⟩ := exists_timedRuns sampleEnvironment 0
    (sampleSetup .roundRobin) (List.replicate 6 false) (fun s => (computations s.1).length) 2
    (by decide +kernel)
  exact ⟨as, x, hruns.runs, hlength, (roundRobin_shares (sound_offer _).answersFeasibly rfl
    (by decide) hruns.runs).2.2⟩

end SenderApplication

end SdWan
