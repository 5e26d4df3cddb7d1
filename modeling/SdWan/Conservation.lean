import SdWan.SenderRuns

/-!
# No packet is lost or duplicated

Every packet that an application generated is pending, waits in the queue of an interface, or was
taken out by `SendData`; and an interface counts every packet that was taken out of its queue,
either as correct or as corrupt. Both hold after every event of every run. The counters are 32
bits wide, so the invariant relates them to the exact numbers modulo `2 ^ 32`.
-/

open IntegerProgram

namespace SdWan

/-! ## Counting packets by their origin -/

/-- The packets of an application in all queues. -/
def queuedFrom (applicationId : ℕ) (ifaces : List ISPInterface) : ℕ :=
  (ifaces.map fun i => amountFrom applicationId i.pendingpackets).sum

def isFrom (applicationId : ℕ) (p : SendPacketInfo) : ℕ :=
  if p.originatedFrom = applicationId then 1 else 0

theorem queuedFrom_eq (applicationId : ℕ) (ifaces : List ISPInterface) :
    queuedFrom applicationId ifaces = queuedTotal (fun _ => isFrom applicationId) ifaces := by
  simp only [queuedFrom, queuedTotal, amountFrom_eq_sum]
  rfl

/-- Nothing is queued when all queues are empty. -/
theorem queuedFrom_eq_zero {ifaces : List ISPInterface}
    (h : ∀ i ∈ ifaces, i.pendingpackets = []) (applicationId : ℕ) :
    queuedFrom applicationId ifaces = 0 := by
  apply List.sum_eq_zero
  intro n hn
  obtain ⟨i, hi, rfl⟩ := List.mem_map.mp hn
  rw [h i hi]
  rfl

/-- Among applications with different ids, only one has a given id. -/
theorem sum_pending_isFrom {apps : List Application}
    (hids : (apps.map (·.applicationId)).Nodup) (now : Time) {app : Application}
    (happ : app ∈ apps) :
    (apps.map fun b => b.pendingpackets.length *
      isFrom app.applicationId ⟨now, b.applicationId⟩).sum = app.pendingpackets.length := by
  induction apps with
  | nil => cases happ
  | cons b apps ih =>
    rw [List.map_cons, List.nodup_cons] at hids
    rw [List.map_cons, List.sum_cons]
    rcases List.mem_cons.mp happ with rfl | hmem
    · have hrest : (apps.map fun b => b.pendingpackets.length *
          isFrom app.applicationId ⟨now, b.applicationId⟩).sum = 0 := by
        apply List.sum_eq_zero
        intro n hn
        obtain ⟨b, hb, rfl⟩ := List.mem_map.mp hn
        have hne : b.applicationId ≠ app.applicationId := fun heq =>
          hids.1 (List.mem_map.mpr ⟨b, hb, heq⟩)
        rw [isFrom, if_neg hne, Nat.mul_zero]
      rw [hrest, isFrom, if_pos rfl, Nat.mul_one, Nat.add_zero]
    · have hne : b.applicationId ≠ app.applicationId := fun heq =>
        hids.1 (List.mem_map.mpr ⟨app, hmem, heq.symm⟩)
      rw [ih hids.2 hmem, isFrom, if_neg hne, Nat.mul_zero, Nat.zero_add]

theorem queuedTotal_set (w : ISPInterface.Attributes → SendPacketInfo → ℕ)
    {ifaces : List ISPInterface} {l : ℕ} {i : ISPInterface} (hl : ifaces[l]? = some i)
    (i' : ISPInterface) :
    queuedTotal w (ifaces.set l i') + (i.pendingpackets.map (w i.attributes)).sum =
      queuedTotal w ifaces + (i'.pendingpackets.map (w i'.attributes)).sum := by
  induction ifaces generalizing l with
  | nil => cases hl
  | cons head ifaces ih =>
    cases l with
    | zero =>
      rw [List.getElem?_cons_zero, Option.some.injEq] at hl
      subst hl
      simp only [queuedTotal, List.set_cons_zero, List.map_cons, List.sum_cons]
      omega
    | succ l =>
      rw [List.getElem?_cons_succ] at hl
      have hrest := ih hl
      simp only [queuedTotal, List.set_cons_succ, List.map_cons, List.sum_cons] at hrest ⊢
      omega

namespace SenderApplication

/-! ## The packets taken out -/

/-- The packets that `SendData` took out, with the interface and whether they were corrupt. -/
def takenPackets (as : List Action) : List (ℕ × SendPacketInfo × Bool) :=
  as.filterMap fun a => match a with
    | .taken _ l packetInfo isCorrupt => some (l, packetInfo, isCorrupt)
    | _ => none

def takenFrom (applicationId : ℕ) (as : List Action) : ℕ :=
  amountFrom applicationId ((takenPackets as).map fun t => t.2.1)

def takenAt (l : ℕ) (as : List Action) : ℕ := (takenPackets as).countP fun t => decide (t.1 = l)

theorem takenPackets_append (as bs : List Action) :
    takenPackets (as ++ bs) = takenPackets as ++ takenPackets bs :=
  List.filterMap_append

theorem takenFrom_append (applicationId : ℕ) (as bs : List Action) :
    takenFrom applicationId (as ++ bs) =
      takenFrom applicationId as + takenFrom applicationId bs := by
  simp only [takenFrom, takenPackets_append, List.map_append, amountFrom, List.countP_append]

theorem takenAt_append (l : ℕ) (as bs : List Action) :
    takenAt l (as ++ bs) = takenAt l as + takenAt l bs := by
  simp only [takenAt, takenPackets_append, List.countP_append]

/-! ## The invariant -/

structure Conserved (setup : Setup) (as : List Action) (x : SenderApplication) : Prop where
  ids : x.strategy.applications.map (·.applicationId) = setup.application.map (·.applicationId)
  generated : ∀ app ∈ x.strategy.applications, app.generatedPackets =
    uint32 (app.pendingpackets.length + queuedFrom app.applicationId x.strategy.availableInterfaces
      + takenFrom app.applicationId as)
  processed : ∀ l i, x.strategy.availableInterfaces[l]? = some i → ∃ correct corrupt,
    takenAt l as = correct + corrupt ∧ i.correctPackages = uint32 correct ∧
      i.corruptPackages = uint32 corrupt

theorem applicationId_of_generates {app app' : Application} {n : ℕ} (h : app.Generates app' n) :
    app'.applicationId = app.applicationId :=
  congrArg Application.Requirements.applicationId h.requirements

theorem map_applicationId_of_generates {apps apps' : List Application}
    (h : List.Forall₂ (fun app app' => ∃ n, app.Generates app' n) apps apps') :
    apps'.map (·.applicationId) = apps.map (·.applicationId) := by
  induction h with
  | nil => rfl
  | cons happ _ ih =>
    obtain ⟨n, hn⟩ := happ
    rw [List.map_cons, List.map_cons, ih, applicationId_of_generates hn]

/-- Whatever is generated is pending. -/
theorem generated_of_generates (elsewhere : ℕ → ℕ) {apps apps' : List Application}
    (h : List.Forall₂ (fun app app' => ∃ n, app.Generates app' n) apps apps')
    (hx : ∀ app ∈ apps, app.generatedPackets =
      uint32 (app.pendingpackets.length + elsewhere app.applicationId)) :
    ∀ app ∈ apps', app.generatedPackets =
      uint32 (app.pendingpackets.length + elsewhere app.applicationId) := by
  induction h with
  | nil =>
    intro app happ
    cases happ
  | @cons app app' apps apps' happ _ ih =>
    intro b hb
    rcases List.mem_cons.mp hb with rfl | hb
    · obtain ⟨n, hn⟩ := happ
      rw [hn.generated _ (hx app List.mem_cons_self), hn.pending, applicationId_of_generates hn]
      congr 1
      omega
    · exact ih (fun b hb => hx b (List.mem_cons_of_mem _ hb)) b hb

theorem updated_generates {apps apps' : List Application}
    (h : List.Forall₂ (fun app app' => app.update = .ok app') apps apps') :
    List.Forall₂ (fun app app' => ∃ n, app.Generates app' n) apps apps' :=
  h.imp fun _ _ happ => Application.update_generates happ

/-- Draining moves packets from the applications to the queues. -/
theorem generated_of_drains (taken : ℕ → ℕ) {now : Time} {s s' : Strategy}
    {f : ℕ → List SendPacketInfo} (h : Drains now s s' f)
    (hids : (s.applications.map (·.applicationId)).Nodup)
    (hs : ∀ app ∈ s.applications, app.generatedPackets = uint32 (app.pendingpackets.length +
      queuedFrom app.applicationId s.availableInterfaces + taken app.applicationId)) :
    ∀ app ∈ s'.applications, app.generatedPackets = uint32 (app.pendingpackets.length +
      queuedFrom app.applicationId s'.availableInterfaces + taken app.applicationId) := by
  intro app' happ'
  rw [h.applications] at happ'
  obtain ⟨app, happ, rfl⟩ := List.mem_map.mp happ'
  have hid : (app.setPending []).applicationId = app.applicationId :=
    congrArg Application.Requirements.applicationId (app.requirements_setPending [])
  rw [Application.generatedPackets_setPending, Application.pendingpackets_setPending, hid,
    hs app happ, queuedFrom_eq, queuedFrom_eq, h.availableInterfaces, queuedTotal_appendAt,
    h.moved, sum_pending_isFrom hids now happ, List.length_nil]
  congr 1
  omega

theorem processed_of_appendAt (taken : ℕ → ℕ) {ifaces : List ISPInterface}
    {f : ℕ → List SendPacketInfo}
    (h : ∀ l i, ifaces[l]? = some i → ∃ correct corrupt, taken l = correct + corrupt ∧
      i.correctPackages = uint32 correct ∧ i.corruptPackages = uint32 corrupt) :
    ∀ l i, (appendAt ifaces f)[l]? = some i → ∃ correct corrupt, taken l = correct + corrupt ∧
      i.correctPackages = uint32 correct ∧ i.corruptPackages = uint32 corrupt := by
  intro l i hl
  rw [getElem?_appendAt] at hl
  obtain ⟨i₀, hi₀, rfl⟩ := Option.map_eq_some_iff.mp hl
  exact h l i₀ hi₀

variable {env : Environment} {setup : Setup}

theorem Computes.map_applicationId (hsolve : AnswersFeasibly env.solve) {now : Time}
    {x y : SenderApplication} {before after : Strategy} (h : Computes env now x y before after) :
    y.strategy.applications.map (·.applicationId) =
      x.strategy.applications.map (·.applicationId) := by
  rw [← map_applicationId_of_generates (updated_generates h.updated), h.strategy]
  rcases Strategy.compute_effect hsolve h.computed with ⟨-, -, hsame⟩ | ⟨f, hdrains⟩
  · rw [hsame]
  · rw [hdrains.applications, List.map_map]
    apply List.map_congr_left
    intro app _
    exact congrArg Application.Requirements.applicationId (app.requirements_setPending [])

theorem Computes.conserved (hsolve : AnswersFeasibly env.solve) (hids : (setup.application.map
    (·.applicationId)).Nodup) {now : Time} {as : List Action} {x y : SenderApplication}
    {before after : Strategy} (h : Computes env now x y before after)
    (hx : Conserved setup as x) :
    Conserved setup (as ++ [.computed now before after]) y := by
  have hnone : ∀ id, takenFrom id [Action.computed now before after] = 0 := fun _ => rfl
  have hnoneAt : ∀ l, takenAt l [Action.computed now before after] = 0 := fun _ => rfl
  have hifaces : before.availableInterfaces = x.strategy.availableInterfaces := by
    rw [h.before_eq]
  have hbeforeIds : before.applications.map (·.applicationId) =
      setup.application.map (·.applicationId) :=
    (map_applicationId_of_generates (updated_generates h.updated)).trans hx.ids
  have hbefore : ∀ app ∈ before.applications, app.generatedPackets =
      uint32 (app.pendingpackets.length + queuedFrom app.applicationId before.availableInterfaces
        + takenFrom app.applicationId as) := by
    have hgenerated := generated_of_generates
      (fun id => queuedFrom id x.strategy.availableInterfaces + takenFrom id as)
      (updated_generates h.updated) (fun app happ => by rw [hx.generated app happ, Nat.add_assoc])
    intro app happ
    rw [hgenerated app happ, hifaces, Nat.add_assoc]
  rcases Strategy.compute_effect hsolve h.computed with ⟨-, -, hsame⟩ | ⟨f, hdrains⟩
  · subst hsame
    refine ⟨(h.map_applicationId hsolve).trans hx.ids, ?_, ?_⟩
    · intro app happ
      rw [h.strategy] at happ ⊢
      rw [takenFrom_append, hnone, Nat.add_zero]
      exact hbefore app happ
    · intro l i hl
      rw [h.strategy, hifaces] at hl
      rw [takenAt_append, hnoneAt, Nat.add_zero]
      exact hx.processed l i hl
  · refine ⟨(h.map_applicationId hsolve).trans hx.ids, ?_, ?_⟩
    · intro app happ
      rw [h.strategy] at happ ⊢
      rw [takenFrom_append, hnone, Nat.add_zero]
      exact generated_of_drains (fun id => takenFrom id as) hdrains (hbeforeIds ▸ hids) hbefore
        app happ
    · intro l i hl
      rw [h.strategy, hdrains.availableInterfaces, hifaces] at hl
      rw [takenAt_append, hnoneAt, Nat.add_zero]
      exact processed_of_appendAt (fun l => takenAt l as) hx.processed l i hl

/-- An event that takes no packet and computes nothing. -/
theorem Conserved.idle {as : List Action} {a : Action} {x y : SenderApplication}
    (hx : Conserved setup as x) (ha : takenPackets [a] = [])
    (hstrategy : y.strategy = x.strategy) : Conserved setup (as ++ [a]) y := by
  have hnone : ∀ id, takenFrom id [a] = 0 := by
    intro id
    rw [takenFrom, ha]
    rfl
  have hnoneAt : ∀ l, takenAt l [a] = 0 := by
    intro l
    rw [takenAt, ha]
    rfl
  constructor
  · rw [hstrategy]
    exact hx.ids
  · rw [hstrategy]
    intro app happ
    rw [takenFrom_append, hnone, Nat.add_zero]
    exact hx.generated app happ
  · rw [hstrategy]
    intro l i hl
    rw [takenAt_append, hnoneAt, Nat.add_zero]
    exact hx.processed l i hl

theorem processed_afterSend {i : ISPInterface} {taken correct corrupt : ℕ}
    (htaken : taken = correct + corrupt) (hcorrect : i.correctPackages = uint32 correct)
    (hcorrupt : i.corruptPackages = uint32 corrupt) (rest : List SendPacketInfo) (flowId : ℕ)
    (isCorrupt : Bool) :
    ∃ correct' corrupt', taken + 1 = correct' + corrupt' ∧
      (afterSend i rest flowId isCorrupt).correctPackages = uint32 correct' ∧
      (afterSend i rest flowId isCorrupt).corruptPackages = uint32 corrupt' := by
  cases isCorrupt with
  | true =>
    refine ⟨correct, corrupt + 1, by omega, hcorrect, ?_⟩
    change uint32 (i.corruptPackages + 1) = _
    rw [hcorrupt, uint32_add_left]
  | false =>
    refine ⟨correct + 1, corrupt, by omega, ?_, hcorrupt⟩
    change uint32 (i.correctPackages + 1) = _
    rw [hcorrect, uint32_add_left]

/-- A packet leaves its queue and joins the packets taken out. -/
theorem Conserved.taken {as : List Action} {x y : SenderApplication} (hx : Conserved setup as x)
    {now : Time} {l : ℕ} {i : ISPInterface} {packetInfo : SendPacketInfo}
    {rest : List SendPacketInfo} {isCorrupt : Bool}
    (hl : x.strategy.availableInterfaces[l]? = some i)
    (hqueue : i.pendingpackets = packetInfo :: rest)
    (hstrategy : y.strategy = { x.strategy with
      availableInterfaces := x.strategy.availableInterfaces.set l
        (afterSend i rest packetInfo.originatedFrom isCorrupt) }) :
    Conserved setup (as ++ [.taken now l packetInfo isCorrupt]) y := by
  have hone : ∀ id, takenFrom id [Action.taken now l packetInfo isCorrupt] =
      isFrom id packetInfo := by
    intro id
    rw [takenFrom, amountFrom_eq_sum]
    rfl
  have honeAt : ∀ l', takenAt l' [Action.taken now l packetInfo isCorrupt] =
      if l = l' then 1 else 0 := by
    intro l'
    change List.countP (fun t => decide (t.1 = l')) [(l, packetInfo, isCorrupt)] = _
    rw [List.countP_singleton]
    simp only [decide_eq_true_eq]
  constructor
  · rw [hstrategy]
    exact hx.ids
  · rw [hstrategy]
    intro app happ
    have hmoved := queuedTotal_set (fun _ => isFrom app.applicationId) hl
      (afterSend i rest packetInfo.originatedFrom isCorrupt)
    rw [hqueue, pendingpackets_afterSend, List.map_cons, List.sum_cons] at hmoved
    rw [hx.generated app happ, takenFrom_append, hone, queuedFrom_eq, queuedFrom_eq]
    congr 1
    dsimp only at hmoved ⊢
    omega
  · rw [hstrategy]
    intro l' i' hl'
    rw [takenAt_append, honeAt]
    rcases getElem?_set_eq_some hl' with ⟨rfl, rfl⟩ | ⟨hne, hl'⟩
    · obtain ⟨correct, corrupt, htaken, hcorrect, hcorrupt⟩ := hx.processed l' i hl
      rw [if_pos rfl]
      exact processed_afterSend htaken hcorrect hcorrupt rest _ isCorrupt
    · rw [if_neg hne.symm, Nat.add_zero]
      exact hx.processed l' i' hl'

theorem conserved_step (hsolve : AnswersFeasibly env.solve)
    (hids : (setup.application.map (·.applicationId)).Nodup) {as : List Action} {a : Action}
    {x y : SenderApplication} (hx : Conserved setup as x) (h : Step env x a y) :
    Conserved setup (as ++ [a]) y := by
  obtain ⟨now, poll, e, -, hrun⟩ := h
  rcases run_cases hrun with
    ⟨-, before, after, rfl, hcomputes⟩ | ⟨l, -, ⟨-, rfl, rfl⟩ | ⟨-, hsend⟩⟩
  · exact hcomputes.conserved hsolve hids ⟨hx.ids, hx.generated, hx.processed⟩
  · exact hx.idle rfl rfl
  · obtain ⟨i, hl, -, -, ⟨rfl, hstrategy, -⟩ | ⟨packetInfo, rest, hqueue, rfl, hstrategy⟩⟩ :=
      sendData_eq_ok hsend
    · exact hx.idle rfl hstrategy
    · exact hx.taken hl hqueue hstrategy

/-- A fresh application has generated nothing. -/
theorem fresh_generated {app : Application} (h : app.Fresh) :
    app.generatedPackets = 0 ∧ app.pendingpackets = [] := by
  cases app with
  | sin app => exact ⟨h.2.1, h.1⟩
  | static app => exact ⟨h.2, h.1⟩

theorem started_conserved {now : Time} {x : SenderApplication} (h : Started setup now x) :
    Conserved setup [] x := by
  have hgenerates : List.Forall₂ (fun app app' => ∃ n, app.Generates app' n) setup.application
      x.strategy.applications :=
    h.applications.imp fun _ _ happ => Application.onApplicationStart_generates happ
  have hqueued : ∀ id, queuedFrom id x.strategy.availableInterfaces = 0 := by
    intro id
    apply List.sum_eq_zero
    intro n hn
    obtain ⟨i, hi, rfl⟩ := List.mem_map.mp hn
    rw [h.created.pendingpackets i hi]
    rfl
  refine ⟨map_applicationId_of_generates hgenerates, ?_, ?_⟩
  · have hgenerated := generated_of_generates (fun _ => 0) hgenerates (fun app happ => by
      obtain ⟨hzero, hnil⟩ := fresh_generated (setup.fresh app happ)
      rw [hzero, hnil]
      rfl)
    intro app happ
    rw [hqueued]
    exact hgenerated app happ
  · intro l i hl
    have hmem := List.mem_of_getElem? hl
    exact ⟨0, 0, rfl, h.created.correctPackages i hmem, h.created.corruptPackages i hmem⟩

theorem conserved_of_runs (hsolve : AnswersFeasibly env.solve)
    (hids : (setup.application.map (·.applicationId)).Nodup) {as : List Action}
    {x : SenderApplication} (h : Runs env setup as x) : Conserved setup as x := by
  apply h.invariant
  · rintro a y ⟨now, hstart⟩
    obtain ⟨x, before, after, hstarted, rfl, hcomputes⟩ := startApplication_eq_ok hstart
    exact hcomputes.conserved hsolve hids (started_conserved hstarted)
  · intro as a x y _ hx hstep
    exact conserved_step hsolve hids hx hstep

/-! ## No pop on an empty queue -/

theorem computeStrategyAndContinue_ne_popOnEmptyQueue (hsolve : AnswersFeasibly env.solve)
    (now : Time) (x : SenderApplication) :
    computeStrategyAndContinue env now x ≠ .error .popOnEmptyQueue := by
  intro h
  rcases Result.bind_eq_error.mp h with h | ⟨applications, -, h⟩
  · obtain ⟨app, happ⟩ := forEach_eq_error h
    cases Application.update_eq_error happ
  · dsimp only at h
    split at h
    · rename_i e s' hcompute
      cases h
      exact Strategy.compute_ne_popOnEmptyQueue hsolve hcompute rfl
    · cases h

theorem startApplication_ne_popOnEmptyQueue (hsolve : AnswersFeasibly env.solve) (now : Time)
    (setup : Setup) : startApplication env now setup ≠ .error .popOnEmptyQueue := by
  intro h
  rcases Result.bind_eq_error.mp h with h | ⟨⟨availableInterfaces, lastId⟩, -, h⟩
  · obtain ⟨s, device, h⟩ := Result.foldlM_eq_error h
    obtain ⟨s, addr, h⟩ := Result.foldlM_eq_error h
    rcases Result.bind_eq_error.mp h with h | ⟨destinationAddress, -, h⟩
    · cases vectorAt_eq_error h
    · rcases Result.bind_eq_error.mp h with h | ⟨cost, -, h⟩
      · cases vectorAt_eq_error h
      · cases h
  · rcases Result.bind_eq_error.mp h with h | ⟨applications, -, h⟩
    · obtain ⟨app, happ⟩ := forEach_eq_error h
      cases Application.onApplicationStart_eq_error happ
    · exact computeStrategyAndContinue_ne_popOnEmptyQueue hsolve now _ h

theorem sendData_ne_popOnEmptyQueue (now : Time) (poll : Poll) (l : ℕ) (x : SenderApplication) :
    sendData now poll l x ≠ .error .popOnEmptyQueue := by
  intro h
  unfold sendData at h
  split at h
  · cases h
  rename_i i hl
  dsimp only at h
  by_cases hempty : (!i.getHasAnyAvailablePackage) = true
  · rw [if_pos hempty] at h
    cases h
  rw [if_neg hempty] at h
  by_cases htx : poll.txAvailable < Utils.packetSizeByte
  · rw [if_pos htx] at h
    cases h
  rw [if_neg htx] at h
  unfold ISPInterface.getNextPacket at h
  cases hqueue : i.pendingpackets with
  | nil => exact hempty (by simp [ISPInterface.getHasAnyAvailablePackage, hqueue])
  | cons packetInfo rest =>
    rw [hqueue] at h
    dsimp only at h
    split_ifs at h
    cases h

theorem run_ne_popOnEmptyQueue (hsolve : AnswersFeasibly env.solve) (now : Time) (poll : Poll)
    (e : EventQueue.Event Time Handler) (x : SenderApplication) :
    run env now poll e x ≠ .error .popOnEmptyQueue := by
  unfold run
  dsimp only
  split
  · exact computeStrategyAndContinue_ne_popOnEmptyQueue hsolve now _
  · unfold sendPacket
    split_ifs
    · exact fun h => by cases h
    · exact sendData_ne_popOnEmptyQueue now poll _ _

/-! ## Conservation -/

/-- After every event, what an application generated is pending, queued or taken out, and what was
taken out of a queue is counted as correct or corrupt; and no event pops from an empty queue. -/
theorem packets_conserved (env : Environment) (setup : Setup) (hsolve : Sound env.solve)
    (hids : (setup.application.map (·.applicationId)).Nodup) :
    (∀ as x, Runs env setup as x →
        x.strategy.applications.map (·.applicationId) =
            setup.application.map (·.applicationId) ∧
          (∀ app ∈ x.strategy.applications,
            app.pendingpackets.length +
                queuedFrom app.applicationId x.strategy.availableInterfaces +
                takenFrom app.applicationId as < 2 ^ 32 →
              app.generatedPackets = app.pendingpackets.length +
                queuedFrom app.applicationId x.strategy.availableInterfaces +
                takenFrom app.applicationId as) ∧
          (∀ l i, x.strategy.availableInterfaces[l]? = some i → takenAt l as < 2 ^ 32 →
            takenAt l as = i.correctPackages + i.corruptPackages) ∧
          ∀ now poll, ∀ e ∈ x.simulator.events, run env now poll e x ≠ .error .popOnEmptyQueue) ∧
      ∀ now, startApplication env now setup ≠ .error .popOnEmptyQueue := by
  refine ⟨fun as x h => ?_, fun now =>
    startApplication_ne_popOnEmptyQueue hsolve.answersFeasibly now setup⟩
  have hconserved := conserved_of_runs hsolve.answersFeasibly hids h
  refine ⟨hconserved.ids, fun app happ hlt => ?_, fun l i hl hlt => ?_,
    fun now poll e _ => run_ne_popOnEmptyQueue hsolve.answersFeasibly now poll e x⟩
  · rw [hconserved.generated app happ, uint32_of_lt hlt]
  · obtain ⟨correct, corrupt, htaken, hcorrect, hcorrupt⟩ := hconserved.processed l i hl
    rw [hcorrect, hcorrupt, uint32_of_lt (by omega), uint32_of_lt (by omega), htaken]

theorem packets_conserved_sample :
    ∃ as x, Runs sampleEnvironment (sampleSetup .reactive) as x ∧ takenFrom 1 as = 2 ∧
      ∀ app ∈ x.strategy.applications, app.generatedPackets = 3 := by
  obtain ⟨as, x, hruns, hobserved⟩ := exists_timedRuns sampleEnvironment 0
    (sampleSetup .reactive) [false, true] (fun s => (takenFrom 1 s.1,
      s.2.strategy.applications.map fun app => (app.applicationId, app.pendingpackets.length +
        queuedFrom app.applicationId s.2.strategy.availableInterfaces +
        takenFrom app.applicationId s.1))) (2, [(1, 3)]) (by decide +kernel)
  obtain ⟨htaken, happs⟩ := Prod.mk.inj hobserved
  obtain ⟨hall, -⟩ := packets_conserved sampleEnvironment
    (sampleSetup .reactive) (sound_offer _) (by decide)
  obtain ⟨-, hgenerated, -, -⟩ := hall as x hruns.runs
  refine ⟨as, x, hruns.runs, htaken, fun app happ => ?_⟩
  have hsum := List.mem_map_of_mem (f := fun app : Application => (app.applicationId,
    app.pendingpackets.length + queuedFrom app.applicationId x.strategy.availableInterfaces +
      takenFrom app.applicationId as)) happ
  rw [happs, List.mem_singleton] at hsum
  have hthree := (Prod.mk.inj hsum).2
  rw [hgenerated app happ (by omega), hthree]

end SenderApplication

end SdWan
