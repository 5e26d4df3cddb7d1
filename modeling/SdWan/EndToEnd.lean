import SdWan.Accounting
import SdWan.PacketCost
import SdWan.Refinement

/-!
# From the applications to the report

In every run of both ends each packet that an application generated is pending, queued, lost to the
error model, in flight or received. Once the sender has sent all data and everything has arrived,
the report of the run follows from the counters of the interfaces, and it agrees with the results
file of the strategy up to the corrupt packets.
-/

open IntegerProgram Framing Grouping

namespace SdWan

/-! ## The interfaces that packets are taken from -/

/-- A sum over the positions of a list. -/
theorem sum_map_range {α : Type} (xs : List α) {g : ℕ → ℕ} {h : α → ℕ}
    (hg : ∀ l x, xs[l]? = some x → g l = h x) :
    ((List.range xs.length).map g).sum = (xs.map h).sum := by
  congr 1
  apply List.ext_getElem
  · simp
  · intro l hl hl'
    rw [List.getElem_map, List.getElem_map, List.getElem_range]
    exact hg l _ (List.getElem?_eq_getElem _)

/-- What is filed under the positions below `n`, one position after the other. -/
theorem flatMap_range_perm {V : Type} (key : V → ℕ) {n : ℕ} {vs : List V}
    (hvs : ∀ v ∈ vs, key v < n) :
    ((List.range n).flatMap fun l => vs.filter fun v => decide (key v = l)).Perm vs := by
  have hperm := flatMap_filter_perm key vs (List.nodup_range : (List.range n).Nodup)
  rwa [List.filter_eq_self.mpr fun v hv =>
    decide_eq_true (List.mem_range.mpr (hvs v hv))] at hperm

namespace SenderApplication

variable {env : Environment} {setup : Setup} {as : List Action} {x : SenderApplication}

/-- Packets are taken from interfaces of the sender. -/
theorem taken_lt_of_runs (h : Runs env setup as x) :
    ∀ t ∈ takenPackets as, t.1 < x.strategy.availableInterfaces.length := by
  apply h.invariant (I := fun as x => ∀ t ∈ takenPackets as,
    t.1 < x.strategy.availableInterfaces.length)
  · rintro a y ⟨now, hstart⟩
    obtain ⟨x, before, after, -, rfl, -⟩ := startApplication_eq_ok hstart
    intro t ht
    cases ht
  · intro as a x y _ hx hstep
    have hlength := congrArg List.length (step_attributes hstep)
    rw [List.length_map, List.length_map] at hlength
    rw [takenPackets_append, List.forall_mem_append, hlength]
    refine ⟨hx, ?_⟩
    obtain ⟨now, poll, e, -, hrun⟩ := hstep
    rcases run_cases hrun with ⟨-, before, after, rfl, -⟩ | ⟨l, -, ⟨-, rfl, -⟩ | ⟨-, hsend⟩⟩
    · intro t ht
      cases ht
    · intro t ht
      cases ht
    · obtain ⟨i, hl, -, -, ⟨rfl, -⟩ | ⟨packetInfo, rest, -, rfl, -⟩⟩ := sendData_eq_ok hsend
      · intro t ht
        cases ht
      · intro t ht
        rw [List.mem_singleton.mp ht]
        exact (List.getElem?_eq_some_iff.mp hl).1

/-! ## What all computations put on the queues -/

theorem totalOver_congr_attributes (w : ISPInterface.Attributes → SendPacketInfo → ℕ)
    {ifaces ifaces' : List ISPInterface}
    (h : ifaces.map (·.attributes) = ifaces'.map (·.attributes)) (f : ℕ → List SendPacketInfo) :
    totalOver w ifaces f = totalOver w ifaces' f := by
  induction ifaces generalizing ifaces' f with
  | nil =>
    rw [List.map_nil, eq_comm, List.map_eq_nil_iff] at h
    rw [h]
  | cons i ifaces ih =>
    cases ifaces' with
    | nil => cases h
    | cons i' ifaces' =>
      obtain ⟨hhead, htail⟩ := List.cons.inj h
      have hattributes : i.attributes = i'.attributes := hhead
      rw [totalOver_cons, totalOver_cons, hattributes, ih htail]

/-- The links of every computation are those of the sender. -/
theorem attributes_of_computations (h : Runs env setup as x) :
    ∀ c ∈ computations as, c.1.availableInterfaces.map (·.attributes) =
      x.strategy.availableInterfaces.map (·.attributes) := by
  have hone : ∀ {now : Time} {x y : SenderApplication} {before after : Strategy},
      Computes env now x y before after → before.availableInterfaces.map (·.attributes) =
        y.strategy.availableInterfaces.map (·.attributes) := by
    intro now x y before after hcomputes
    rw [hcomputes.attributes, hcomputes.before_eq]
  apply h.invariant (I := fun as x => ∀ c ∈ computations as,
    c.1.availableInterfaces.map (·.attributes) = x.strategy.availableInterfaces.map (·.attributes))
  · rintro a y ⟨now, hstart⟩
    obtain ⟨x, before, after, -, rfl, hcomputes⟩ := startApplication_eq_ok hstart
    exact List.forall_mem_singleton.mpr (hone hcomputes)
  · intro as a x y _ hx hstep
    rw [computations_append, List.forall_mem_append, step_attributes hstep]
    refine ⟨hx, ?_⟩
    rw [← step_attributes hstep]
    obtain ⟨now, poll, e, -, hrun⟩ := hstep
    rcases run_cases hrun with
      ⟨-, before, after, rfl, hcomputes⟩ | ⟨l, -, ⟨-, rfl, rfl⟩ | ⟨-, hsend⟩⟩
    · exact List.forall_mem_singleton.mpr (hone hcomputes)
    · exact fun c hc => by cases hc
    · obtain ⟨i, -, -, -, ⟨rfl, -⟩ | ⟨packetInfo, rest, -, rfl, -⟩⟩ := sendData_eq_ok hsend
      · exact fun c hc => by cases hc
      · exact fun c hc => by cases hc

/-- The packets that all computations put on the queue of an interface. -/
def enqueuedOn (as : List Action) (l : ℕ) : List SendPacketInfo :=
  (computations as).flatMap fun c => enqueued c.1.availableInterfaces c.2.availableInterfaces l

/-- The computations together put on the queues what is in the histories of the interfaces. -/
theorem sum_computations (w : ISPInterface.Attributes → SendPacketInfo → ℕ)
    {cs : List (Strategy × Strategy)} {ifaces : List ISPInterface}
    (hlinks : ∀ c ∈ cs, c.1.availableInterfaces.map (·.attributes) =
      ifaces.map (·.attributes)) :
    (cs.map fun c => totalOver w c.1.availableInterfaces
      (enqueued c.1.availableInterfaces c.2.availableInterfaces)).sum =
      totalOver w ifaces fun l => cs.flatMap fun c =>
        enqueued c.1.availableInterfaces c.2.availableInterfaces l := by
  induction cs with
  | nil => exact (totalOver_nil w ifaces).symm
  | cons c cs ih =>
    rw [List.forall_mem_cons] at hlinks
    simp only [List.map_cons, List.sum_cons, List.flatMap_cons, totalOver_append, ih hlinks.2,
      totalOver_congr_attributes w hlinks.1]

/-! ## The counters of the interfaces -/

/-- The packets of an interface that were corrupt. -/
def corruptAt (l : ℕ) (as : List Action) : ℕ :=
  (takenPackets as).countP fun t => decide (t.1 = l) && t.2.2

theorem corruptAt_append (l : ℕ) (as bs : List Action) :
    corruptAt l (as ++ bs) = corruptAt l as + corruptAt l bs := by
  simp only [corruptAt, takenPackets_append, List.countP_append]

/-- The two counters of an interface count what its socket got and what was corrupt. -/
structure Counts (as : List Action) (x : SenderApplication) : Prop where
  correct : ∀ (l : ℕ) (i : ISPInterface), x.strategy.availableInterfaces[l]? = some i →
    i.correctPackages = uint32 i.socketInfo.sent.length
  corrupt : ∀ (l : ℕ) (i : ISPInterface), x.strategy.availableInterfaces[l]? = some i →
    i.corruptPackages = uint32 (corruptAt l as)

theorem Counts.idle {as : List Action} {a : Action} {x y : SenderApplication}
    (hx : Counts as x) (ha : takenPackets [a] = [])
    (hcounters : y.strategy.availableInterfaces.map (fun i =>
        (i.correctPackages, i.corruptPackages, i.socketInfo)) =
      x.strategy.availableInterfaces.map fun i =>
        (i.correctPackages, i.corruptPackages, i.socketInfo)) : Counts (as ++ [a]) y := by
  have hnone : ∀ l, corruptAt l (as ++ [a]) = corruptAt l as := by
    intro l
    rw [corruptAt_append]
    simp [corruptAt, ha]
  constructor
  · intro l i' hi'
    obtain ⟨i, hi, heq⟩ := Transfer.exists_of_map_eq hcounters hi'
    simp only [Prod.mk.injEq] at heq
    rw [heq.1, heq.2.2, hx.correct l i hi]
  · intro l i' hi'
    obtain ⟨i, hi, heq⟩ := Transfer.exists_of_map_eq hcounters hi'
    simp only [Prod.mk.injEq] at heq
    rw [heq.2.1, hnone, hx.corrupt l i hi]

theorem Counts.taken {as : List Action} {x y : SenderApplication} (hx : Counts as x) {now : Time}
    {l : ℕ} {i : ISPInterface} {packetInfo : SendPacketInfo} {rest : List SendPacketInfo}
    {isCorrupt : Bool} (hl : x.strategy.availableInterfaces[l]? = some i)
    (hifaces : y.strategy.availableInterfaces = x.strategy.availableInterfaces.set l
      (afterSend i rest packetInfo.originatedFrom isCorrupt)) :
    Counts (as ++ [.taken now l packetInfo isCorrupt]) y := by
  have hone : ∀ l', corruptAt l' [Action.taken now l packetInfo isCorrupt] =
      if l = l' ∧ isCorrupt = true then 1 else 0 := by
    intro l'
    change List.countP _ [(l, packetInfo, isCorrupt)] = _
    rw [List.countP_singleton]
    simp
  have hcorrect := hx.correct l i hl
  have hcorrupt := hx.corrupt l i hl
  constructor
  · intro l' i' hi'
    rw [hifaces] at hi'
    rcases getElem?_set_eq_some hi' with ⟨rfl, rfl⟩ | ⟨-, hi'⟩
    · cases isCorrupt with
      | true => exact hcorrect
      | false =>
        change uint32 (i.correctPackages + 1) = uint32 (i.socketInfo.sent ++ [_]).length
        rw [hcorrect, uint32_add_left, List.length_append, List.length_singleton]
    · exact hx.correct l' i' hi'
  · intro l' i' hi'
    rw [hifaces] at hi'
    rw [corruptAt_append, hone]
    rcases getElem?_set_eq_some hi' with ⟨rfl, rfl⟩ | ⟨hne, hi'⟩
    · cases isCorrupt with
      | true =>
        change uint32 (i.corruptPackages + 1) = _
        rw [hcorrupt, uint32_add_left, if_pos ⟨rfl, rfl⟩]
      | false =>
        rw [if_neg (by simp), Nat.add_zero]
        exact hcorrupt
    · rw [if_neg fun hand => hne hand.1.symm, Nat.add_zero]
      exact hx.corrupt l' i' hi'

theorem counts_of_runs (h : Runs env setup as x) : Counts as x := by
  apply h.invariant
  · rintro a y ⟨now, hstart⟩
    obtain ⟨x, before, after, hstarted, rfl, hcomputes⟩ := startApplication_eq_ok hstart
    have hfirst : Counts [] x := by
      constructor
      · intro l i hi
        have hmem := List.mem_of_getElem? hi
        rw [hstarted.created.correctPackages i hmem, hstarted.created.socketInfo i hmem]
        rfl
      · intro l i hi
        exact hstarted.created.corruptPackages i (List.mem_of_getElem? hi)
    exact hfirst.idle rfl (hcomputes.keeps fun _ _ => rfl)
  · intro as a x y _ hx hstep
    obtain ⟨now, poll, e, -, hrun⟩ := hstep
    rcases run_cases hrun with
      ⟨-, before, after, rfl, hcomputes⟩ | ⟨l, -, ⟨-, rfl, rfl⟩ | ⟨-, hsend⟩⟩
    · have hkeeps := hcomputes.keeps (g := fun i =>
        (i.correctPackages, i.corruptPackages, i.socketInfo)) fun _ _ => rfl
      exact hx.idle rfl hkeeps
    · exact hx.idle rfl rfl
    · obtain ⟨i, hl, -, -, ⟨rfl, hstrategy, -⟩ | ⟨packetInfo, rest, -, rfl, hstrategy⟩⟩ :=
        sendData_eq_ok hsend
      · exact hx.idle rfl (by rw [hstrategy])
      · exact hx.taken hl (congrArg Strategy.availableInterfaces hstrategy)

end SenderApplication

namespace Transfer

variable {env : Environment} {setup : Setup} {events : List Event} {s : Transfer}

/-- What the sender did. -/
def actions (events : List Event) : List Action :=
  events.filterMap fun e => match e with
    | .sender a => some a
    | _ => none

theorem actions_concat (events : List Event) (e : Event) :
    actions (events ++ [e]) = actions events ++ actions [e] :=
  List.filterMap_append

theorem runs_of_transfers (h : Transfers env setup events s) :
    SenderApplication.Runs env setup (actions events) s.sender := by
  induction h with
  | start hinit =>
    obtain ⟨a, x, hx, rfl, rfl⟩ := hinit
    exact .start hx
  | step _ hstep ih =>
    rw [actions_concat]
    cases hstep with
    | sender hsender => exact ih.step hsender
    | delivered => exact (List.append_nil _).symm ▸ ih
    | read => exact (List.append_nil _).symm ▸ ih

/-- The taken packets, as the links see them. -/
def taken (events : List Event) : List (ℕ × ℕ × Bool) :=
  (SenderApplication.takenPackets (actions events)).map fun t => (t.1, t.2.1.originatedFrom, t.2.2)

theorem taken_concat (events : List Event) (e : Event) :
    taken (events ++ [e]) = taken events ++ taken [e] := by
  rw [taken, actions_concat, SenderApplication.takenPackets_append, List.map_append]
  rfl

theorem takenOn_eq (l : ℕ) (events : List Event) :
    takenOn l events = ((taken events).filter fun t => decide (t.1 = l)).map Prod.snd := by
  induction events using List.reverseRecOn with
  | nil => rfl
  | append_singleton events e ih =>
    have hone : e.takenOn l = ((taken [e]).filter fun t => decide (t.1 = l)).map Prod.snd := by
      cases e with
      | delivered | read => rfl
      | sender a =>
        cases a with
        | computed | ended | idle => rfl
        | taken now l' packetInfo isCorrupt =>
          by_cases hl : l' = l <;> simp [Event.takenOn, taken, actions,
            SenderApplication.takenPackets, hl]
    rw [takenOn_concat, taken_concat, List.filter_append, List.map_append, ih, hone]

/-- Every taken packet was taken from one interface. -/
theorem flatMap_takenOn_perm (h : Transfers env setup events s) :
    ((List.range s.sender.strategy.availableInterfaces.length).flatMap fun l =>
      takenOn l events).Perm ((taken events).map Prod.snd) := by
  have hlt : ∀ t ∈ taken events, t.1 < s.sender.strategy.availableInterfaces.length := by
    intro t ht
    obtain ⟨u, hu, rfl⟩ := List.mem_map.mp ht
    exact SenderApplication.taken_lt_of_runs (runs_of_transfers h) u hu
  have hperm := (flatMap_range_perm Prod.fst hlt).map Prod.snd
  rw [List.map_flatMap] at hperm
  simpa only [takenOn_eq] using hperm

/-! ## Where the packets of an application are -/

/-- The packets of an application that were corrupt. -/
def lostFrom (applicationId : ℕ) (events : List Event) : ℕ :=
  ((taken events).map Prod.snd).count (applicationId, true)

/-- The packets of an application that were sent and that `handleRead` has not attributed. -/
def inFlightFrom (applicationId : ℕ) (s : Transfer) : ℕ :=
  ((List.range s.sender.strategy.availableInterfaces.length).map fun l =>
    (s.links.flight l).count applicationId).sum

theorem takenFrom_eq (applicationId : ℕ) (events : List Event) :
    SenderApplication.takenFrom applicationId (actions events) =
      (((taken events).map Prod.snd).map Prod.fst).count applicationId := by
  simp only [SenderApplication.takenFrom, amountFrom, taken, List.map_map, List.count,
    List.countP_map, Function.comp_def, beq_eq_decide]

/-- The received packets of an application, one interface after the other. -/
theorem length_packetsFrom (h : Transfers env setup events s)
    (hsolve : AnswersFeasibly env.solve) (applicationId : ℕ) :
    (packetsFrom applicationId s.receiver.receivedPacketInfo).length =
      ((List.range s.sender.strategy.availableInterfaces.length).map fun l =>
        (s.links.arrived l).count applicationId).sum := by
  have hperm := flatMap_range_perm ReceivedPacketInfo.fromInterface
    (known_of_transfers hsolve h).received
  rw [packetsFrom, ← List.countP_eq_length_filter, ← hperm.countP_eq, List.countP_flatMap]
  simp only [links, ReceiverApplication.receivedFrom, List.count, List.countP_map,
    Function.comp_def, beq_eq_decide]

/-- A taken packet was corrupt, is in flight or has been received. -/
theorem takenFrom_eq_add (h : Transfers env setup events s) (hsolve : AnswersFeasibly env.solve)
    (applicationId : ℕ) :
    SenderApplication.takenFrom applicationId (actions events) =
      lostFrom applicationId events + inFlightFrom applicationId s +
        (packetsFrom applicationId s.receiver.receivedPacketInfo).length := by
  have hperm := flatMap_takenOn_perm h
  have hlost : lostFrom applicationId events =
      ((List.range s.sender.strategy.availableInterfaces.length).map fun l =>
        (takenOn l events).count (applicationId, true)).sum := by
    rw [lostFrom, ← hperm.count_eq, List.count_flatMap]
    rfl
  have hone : ∀ l, ((takenOn l events).map Prod.fst).count applicationId =
      (s.links.arrived l).count applicationId + (s.links.flight l).count applicationId +
        (takenOn l events).count (applicationId, true) := by
    intro l
    rw [← LossyLinks.count_survivors_add, survivors_takenOn hsolve h, List.count_append]
  rw [takenFrom_eq, ← (hperm.map _).count_eq, List.map_flatMap, List.count_flatMap, hlost,
    length_packetsFrom h hsolve, inFlightFrom]
  simp only [Function.comp_def, hone, List.sum_map_add]
  omega

/-- In every state of every run a generated packet of an application is pending, waits in a queue,
was lost to the error model, is in flight or has been received; and nothing else is received. -/
theorem packets_accounted (hsolve : AnswersFeasibly env.solve)
    (hids : (setup.application.map (·.applicationId)).Nodup) (h : Transfers env setup events s) :
    (∀ app ∈ s.sender.strategy.applications,
      app.generatedPackets = uint32 (app.pendingpackets.length +
        queuedFrom app.applicationId s.sender.strategy.availableInterfaces +
        lostFrom app.applicationId events + inFlightFrom app.applicationId s +
        (packetsFrom app.applicationId s.receiver.receivedPacketInfo).length)) ∧
      ∀ p ∈ s.receiver.receivedPacketInfo, ∃ app ∈ s.sender.strategy.applications,
        p.fromApplication = app.applicationId := by
  have hconserved := SenderApplication.conserved_of_runs hsolve hids (runs_of_transfers h)
  constructor
  · intro app happ
    rw [hconserved.generated app happ, takenFrom_eq_add h hsolve]
    congr 1
    omega
  · intro p hp
    obtain ⟨app, happ, hid⟩ := List.mem_map.mp (received_of_transfers hsolve h p hp).2
    exact ⟨app, happ, hid.symm⟩

/-! ## Once everything has arrived -/

/-- The sender has sent all data, and what it sent has arrived and has been read. -/
structure Delivered (s : Transfer) : Prop where
  allSent : s.sender.strategy.getAllDataHasBeenSent = true
  arrived : ∀ (l : ℕ) (i : ISPInterface) (c : Connection),
    s.sender.strategy.availableInterfaces[l]? = some i → s.connections[l]? = some c →
      c.delivered = i.socketInfo.bytes.length ∧ c.callbackDue = false

/-- A connection delivers no more than what was sent. -/
theorem delivered_le_of_transfers (h : Transfers env setup events s) {l : ℕ} {i : ISPInterface}
    {c : Connection} (hi : s.sender.strategy.availableInterfaces[l]? = some i)
    (hc : s.connections[l]? = some c) : c.delivered ≤ i.socketInfo.bytes.length := by
  have hmatched := matched_of_transfers h
  obtain ⟨read, hreceives, -⟩ := (hmatched.aligned l c hc).reads
  rw [bytes_eq_stream (hmatched.sent l i hi), length_stream]
  exact hreceives.delivered_le

/-- Whatever the sender has sent can still arrive and be read, without another step of the sender. -/
theorem exists_allArrived (h : Transfers env setup events s) :
    ∃ rest s', Transfers env setup (events ++ rest) s' ∧ s'.sender = s.sender ∧
      actions rest = [] ∧ ∀ (l : ℕ) (i : ISPInterface) (c : Connection),
        s'.sender.strategy.availableInterfaces[l]? = some i → s'.connections[l]? = some c →
          c.delivered = i.socketInfo.bytes.length ∧ c.callbackDue = false := by
  -- The connections are served one after the other; the invariant is about those below `n`.
  have hserved : ∀ n ≤ s.connections.length, ∃ rest s', Transfers env setup (events ++ rest) s' ∧
      s'.sender = s.sender ∧ actions rest = [] ∧ ∀ (l : ℕ) (i : ISPInterface) (c : Connection),
        l < n → s'.sender.strategy.availableInterfaces[l]? = some i →
          s'.connections[l]? = some c →
          c.delivered = i.socketInfo.bytes.length ∧ c.callbackDue = false := by
    intro n hn
    induction n with
    | zero => exact ⟨[], s, (List.append_nil events).symm ▸ h, rfl, rfl, fun l i c hl => by omega⟩
    | succ n ih =>
      obtain ⟨rest, s', hs', hsender, hrest, hdone⟩ := ih (by omega)
      have hlengths := (matched_of_transfers hs').length_eq
      have hlength := (matched_of_transfers h).length_eq
      rw [hsender] at hlengths
      obtain ⟨c, hc⟩ : ∃ c, s'.connections[n]? = some c :=
        ⟨_, List.getElem?_eq_getElem (by omega)⟩
      obtain ⟨i, hi⟩ : ∃ i, s'.sender.strategy.availableInterfaces[n]? = some i :=
        ⟨_, List.getElem?_eq_getElem (by rw [hsender]; omega)⟩
      obtain ⟨k, hk⟩ := Nat.exists_eq_add_of_le (delivered_le_of_transfers hs' hi hc)
      have hdelivered := hs'.step (.delivered hi hc hk.ge)
      have hset := List.getElem?_set_self (a := c.deliver i.socketInfo.bytes k)
        (show n < s'.connections.length by omega)
      have hread := hdelivered.step (.read 0 hset)
      rw [List.append_assoc, List.append_assoc] at hread
      refine ⟨_, _, hread, hsender, ?_, ?_⟩
      · rw [← List.append_assoc, actions_concat, actions_concat, hrest]
        rfl
      · intro l i' c' hl hi' hc'
        rcases getElem?_set_eq_some hc' with ⟨rfl, rfl⟩ | ⟨hne, hc'⟩
        · cases hi.symm.trans hi'
          exact ⟨hk.symm, rfl⟩
        · rcases getElem?_set_eq_some hc' with ⟨rfl, rfl⟩ | ⟨-, hc'⟩
          · exact absurd rfl hne
          · exact hdone l i' c' (by omega) hi' hc'
  obtain ⟨rest, s', hs', hsender, hrest, hdone⟩ := hserved _ le_rfl
  refine ⟨rest, s', hs', hsender, hrest, fun l i c hi hc => hdone l i c ?_ hi hc⟩
  rw [(matched_of_transfers h).length_eq, ← hsender]
  exact (List.getElem?_eq_some_iff.mp hi).1

/-- All packets that the socket of an interface got have been attributed to it. -/
theorem Delivered.length_receivedFrom (hs : Delivered s) (h : Transfers env setup events s)
    {l : ℕ} {i : ISPInterface} (hi : s.sender.strategy.availableInterfaces[l]? = some i) :
    (s.receiver.receivedFrom l).length = i.socketInfo.sent.length := by
  have hmatched := matched_of_transfers h
  have hl : l < s.connections.length := by
    rw [hmatched.length_eq]
    exact (List.getElem?_eq_some_iff.mp hi).1
  have hc := List.getElem?_eq_getElem hl
  obtain ⟨hdelivered, hdue⟩ := hs.arrived l i _ hi hc
  have haligned := hmatched.aligned l _ hc
  obtain ⟨read, hreceives, hreceived⟩ := haligned.reads
  obtain ⟨hread, -⟩ := hreceives.read_eq (haligned.rest_lt hdue)
  have hsent := hmatched.sent l i hi
  have hlength : i.socketInfo.sent.length = (sentOn l events).length := by
    rw [hsent, List.length_map]
  rw [hdelivered, bytes_eq_stream hsent, length_stream, List.length_map,
    Nat.mul_div_cancel _ (by decide)] at hread
  rw [hreceived, hread, List.take_length, List.length_map, hlength]

theorem Delivered.flight_eq_nil (hs : Delivered s) (h : Transfers env setup events s) (l : ℕ) :
    s.links.flight l = [] := by
  cases hi : s.sender.strategy.availableInterfaces[l]? with
  | none => simp only [links, hi, Option.elim_none, List.drop_nil]
  | some i =>
    simp only [links, hi, Option.elim_some, hs.length_receivedFrom h hi]
    rw [← List.length_map (·.flowId), List.drop_length]

theorem Delivered.inFlightFrom_eq_zero (hs : Delivered s) (h : Transfers env setup events s)
    (applicationId : ℕ) : inFlightFrom applicationId s = 0 := by
  apply List.sum_eq_zero
  intro n hn
  obtain ⟨l, -, rfl⟩ := List.mem_map.mp hn
  rw [hs.flight_eq_nil h, List.count_nil]

theorem Delivered.queue_eq_nil (hs : Delivered s) (l : ℕ) : s.links.queue l = [] := by
  cases hi : s.sender.strategy.availableInterfaces[l]? with
  | none => simp only [links, hi, Option.elim_none]
  | some i =>
    have hqueues := ((Strategy.getAllDataHasBeenSent_iff _).mp hs.allSent).2
    simp only [links, hi, Option.elim_some, hqueues i (List.mem_of_getElem? hi), List.map_nil]

/-- The packets taken from an interface were sent or were corrupt. -/
theorem length_takenOn (hsolve : AnswersFeasibly env.solve) (h : Transfers env setup events s)
    {l : ℕ} {i : ISPInterface} (hi : s.sender.strategy.availableInterfaces[l]? = some i) :
    (takenOn l events).length =
      i.socketInfo.sent.length + SenderApplication.corruptAt l (actions events) := by
  have hcorrupt : (takenOn l events).countP (·.2) =
      SenderApplication.corruptAt l (actions events) := by
    rw [takenOn_eq, List.countP_map, List.countP_filter, taken, List.countP_map]
    simp only [SenderApplication.corruptAt, Function.comp_def, Bool.and_comm]
  rw [← LossyLinks.length_survivors_add, hcorrupt, survivors_takenOn hsolve h,
    arrived_append_flight h hi, List.length_map]

/-- The packets that all interfaces together have taken. -/
theorem length_taken (h : Transfers env setup events s) :
    ((List.range s.sender.strategy.availableInterfaces.length).map fun l =>
      (takenOn l events).length).sum = (taken events).length := by
  have hlength := (flatMap_takenOn_perm h).length_eq
  rwa [List.length_flatMap, List.length_map] at hlength

/-- The counters of the interfaces, when they have not wrapped around. -/
theorem counters_eq (hsolve : AnswersFeasibly env.solve) (h : Transfers env setup events s)
    (hfits : (taken events).length < 2 ^ 32) {l : ℕ} {i : ISPInterface}
    (hi : s.sender.strategy.availableInterfaces[l]? = some i) :
    i.correctPackages = i.socketInfo.sent.length ∧
      i.corruptPackages = SenderApplication.corruptAt l (actions events) := by
  have hcounts := SenderApplication.counts_of_runs (runs_of_transfers h)
  have hle : (takenOn l events).length ≤ (taken events).length := by
    rw [takenOn_eq, List.length_map]
    exact List.length_filter_le _ _
  rw [length_takenOn hsolve h hi] at hle
  constructor
  · rw [hcounts.correct l i hi, uint32_of_lt (by omega)]
  · rw [hcounts.corrupt l i hi, uint32_of_lt (by omega)]

/-! ## The report of a run -/

section

variable (hsolve : AnswersFeasibly env.solve) (h : Transfers env setup events s)
  (hs : Delivered s)

include hsolve h

/-- The received packets, one interface after the other. -/
theorem receivedFrom_perm :
    ((List.range s.sender.strategy.availableInterfaces.length).flatMap fun l =>
      s.receiver.receivedFrom l).Perm s.receiver.receivedPacketInfo :=
  flatMap_range_perm ReceivedPacketInfo.fromInterface (known_of_transfers hsolve h).received

include hs

/-- A sum over the received packets is a sum over the correct packets of the interfaces. -/
theorem sum_received (hfits : (taken events).length < 2 ^ 32) (g : ISPInterface → ℕ) :
    (s.receiver.receivedPacketInfo.map fun p =>
        (s.sender.strategy.availableInterfaces[p.fromInterface]?).elim 0 g).sum =
      (s.sender.strategy.availableInterfaces.map fun i => g i * i.correctPackages).sum := by
  rw [← ((receivedFrom_perm hsolve h).map _).sum_eq, List.map_flatMap, List.flatMap,
    List.sum_flatten, List.map_map]
  apply sum_map_range
  intro l i hi
  rw [(counters_eq hsolve h hfits hi).1, ← hs.length_receivedFrom h hi]
  have hsame : ∀ p ∈ s.receiver.receivedFrom l,
      (s.sender.strategy.availableInterfaces[p.fromInterface]?).elim 0 g = g i := by
    intro p hp
    have hl : p.fromInterface = l := of_decide_eq_true (List.mem_filter.mp hp).2
    rw [hl, hi, Option.elim_some]
  rw [Function.comp_apply, List.map_congr_left hsame, List.map_const', List.sum_replicate,
    smul_eq_mul, Nat.mul_comm]

theorem length_received (hfits : (taken events).length < 2 ^ 32) :
    s.receiver.receivedPacketInfo.length =
      (s.sender.strategy.availableInterfaces.map (·.correctPackages)).sum := by
  have hsum := sum_received hsolve h hs hfits fun _ => 1
  simp only [Nat.one_mul] at hsum
  rw [← hsum]
  have hone : ∀ p ∈ s.receiver.receivedPacketInfo,
      (s.sender.strategy.availableInterfaces[p.fromInterface]?).elim 0 (fun _ => 1) = 1 := by
    intro p hp
    rw [List.getElem?_eq_getElem ((known_of_transfers hsolve h).received p hp), Option.elim_some]
  rw [List.map_congr_left hone, List.map_const', List.sum_replicate, smul_eq_mul, Nat.mul_one]

theorem length_received_le : s.receiver.receivedPacketInfo.length ≤ (taken events).length := by
  rw [← (receivedFrom_perm hsolve h).length_eq, List.length_flatMap, ← length_taken h]
  apply List.sum_le_sum
  intro l hl
  rw [List.mem_range] at hl
  have hi := List.getElem?_eq_getElem hl
  rw [hs.length_receivedFrom h hi, length_takenOn hsolve h hi]
  exact Nat.le_add_right _ _

/-- Every generated packet of an application was lost to the error model or has been received. -/
theorem generatedPackets_of_delivered (hids : (setup.application.map (·.applicationId)).Nodup)
    (hfits : (taken events).length < 2 ^ 32) {app : Application}
    (happ : app ∈ s.sender.strategy.applications) :
    app.generatedPackets = lostFrom app.applicationId events +
      (packetsFrom app.applicationId s.receiver.receivedPacketInfo).length := by
  have hconserved := SenderApplication.conserved_of_runs hsolve hids (runs_of_transfers h)
  obtain ⟨happs, hqueues⟩ := (Strategy.getAllDataHasBeenSent_iff _).mp hs.allSent
  have hqueued := queuedFrom_eq_zero hqueues app.applicationId
  have hflight := hs.inFlightFrom_eq_zero h app.applicationId
  have hle : SenderApplication.takenFrom app.applicationId (actions events) ≤
      (taken events).length := by
    rw [takenFrom_eq]
    refine List.count_le_length.trans ?_
    rw [List.length_map, List.length_map]
  rw [hconserved.generated app happ, (happs app happ).1, hqueued, List.length_nil, Nat.zero_add,
    uint32_of_lt (by omega), takenFrom_eq_add h hsolve, hflight, Nat.add_zero]

variable {sort : List ReceivedPacketInfo → List ReceivedPacketInfo}
  (hsort : SortsByApplication sort) (runParameters : RunParameters)

include hsort

theorem totalPackets_of_delivered (hfits : (taken events).length < 2 ^ 32) :
    (runInfo s.sender.strategy.applications s.sender.strategy.availableInterfaces sort
      s.receiver.receivedPacketInfo runParameters).totalAmountOfPackets =
        (s.sender.strategy.availableInterfaces.map (·.correctPackages)).sum := by
  rw [runInfo_eq hsort]
  change uint32 s.receiver.receivedPacketInfo.length = _
  rw [uint32_of_lt ((length_received_le hsolve h hs).trans_lt hfits)]
  exact length_received hsolve h hs hfits

theorem totalCost_of_delivered (hfits : (taken events).length < 2 ^ 32) :
    (runInfo s.sender.strategy.applications s.sender.strategy.availableInterfaces sort
      s.receiver.receivedPacketInfo runParameters).totalCost =
        (s.sender.strategy.availableInterfaces.map fun i => i.cost * i.correctPackages).sum := by
  rw [totalCost_runInfo hsort fun p hp => (received_of_transfers hsolve h p hp).2]
  exact sum_received hsolve h hs hfits (·.cost)

/-- The applications of which a packet was received. -/
theorem flows_of_delivered
    (hids : (setup.application.map (·.applicationId)).Pairwise (· < ·))
    (hfits : (taken events).length < 2 ^ 32) :
    flowsOf s.sender.strategy.applications (group ReceivedPacketInfo.fromApplication
        (sort s.receiver.receivedPacketInfo)).toList =
      (s.sender.strategy.applications.filter fun app =>
        decide (lostFrom app.applicationId events < app.generatedPackets)).map fun app =>
          (app, packetsFrom app.applicationId (sort s.receiver.receivedPacketInfo)) := by
  have hnodup : (setup.application.map (·.applicationId)).Nodup := hids.imp Nat.ne_of_lt
  have hincreasing : s.sender.strategy.applications.Pairwise fun a b =>
      a.applicationId < b.applicationId := by
    rw [← (SenderApplication.conserved_of_runs hsolve hnodup (runs_of_transfers h)).ids] at hids
    exact List.pairwise_map.mp hids
  rw [flowsOf_group hincreasing]
  congr 1
  refine List.filter_congr fun app happ => ?_
  have hgenerated := generatedPackets_of_delivered hsolve h hs hnodup hfits happ
  have hlength : (packetsFrom app.applicationId (sort s.receiver.receivedPacketInfo)).length =
      (packetsFrom app.applicationId s.receiver.receivedPacketInfo).length :=
    ((hsort.perm _).filter _).length_eq
  rw [decide_eq_decide, ← List.length_pos_iff, hlength, hgenerated]
  omega

theorem errorRates_of_delivered
    (hids : (setup.application.map (·.applicationId)).Pairwise (· < ·))
    (hfits : (taken events).length < 2 ^ 32) :
    (runInfo s.sender.strategy.applications s.sender.strategy.availableInterfaces sort
      s.receiver.receivedPacketInfo runParameters).applicationErrorRates =
        (s.sender.strategy.applications.filter fun app =>
          decide (lostFrom app.applicationId events < app.generatedPackets)).map fun app =>
            100 * (lostFrom app.applicationId events : ℚ) / app.generatedPackets := by
  have hnodup : (setup.application.map (·.applicationId)).Nodup := hids.imp Nat.ne_of_lt
  rw [runInfo_eq hsort]
  dsimp only
  rw [flows_of_delivered hsolve h hs hsort hids hfits, List.map_map]
  refine List.map_congr_left fun app happ => ?_
  obtain ⟨hmem, hlt⟩ := List.mem_filter.mp happ
  have hlength : (packetsFrom app.applicationId (sort s.receiver.receivedPacketInfo)).length =
      (packetsFrom app.applicationId s.receiver.receivedPacketInfo).length :=
    ((hsort.perm _).filter _).length_eq
  have hpos : (app.generatedPackets : ℚ) ≠ 0 := by
    have := of_decide_eq_true hlt
    exact_mod_cast (by omega : app.generatedPackets ≠ 0)
  have hsum : (app.generatedPackets : ℚ) = lostFrom app.applicationId events +
      (packetsFrom app.applicationId s.receiver.receivedPacketInfo).length := by
    exact_mod_cast generatedPackets_of_delivered hsolve h hs hnodup hfits hmem
  rw [Function.comp_apply, hlength, eq_div_iff hpos, sub_mul, div_mul_eq_mul_div,
    div_mul_cancel₀ _ hpos, hsum]
  ring

end

theorem dispatchedOn_eq_enqueuedOn (l : ℕ) (events : List Event) :
    dispatchedOn l events =
      (SenderApplication.enqueuedOn (actions events) l).map (·.originatedFrom) := by
  induction events using List.reverseRecOn with
  | nil => rfl
  | append_singleton events e ih =>
    have hone : e.dispatchedOn l =
        (SenderApplication.enqueuedOn (actions [e]) l).map (·.originatedFrom) := by
      cases e with
      | delivered | read => rfl
      | sender a =>
        cases a with
        | taken | ended | idle => rfl
        | computed now before after => simp [Event.dispatchedOn, actions,
            SenderApplication.enqueuedOn, SenderApplication.computations]
    rw [dispatchedOn_concat, actions_concat, SenderApplication.enqueuedOn,
      SenderApplication.computations_append, List.flatMap_append, List.map_append, ih, hone]
    rfl

/-- Once everything has arrived, an interface has sent or lost whatever was dispatched to it. -/
theorem Delivered.length_enqueuedOn (hs : Delivered s) (hsolve : AnswersFeasibly env.solve)
    (h : Transfers env setup events s) (hfits : (taken events).length < 2 ^ 32) {l : ℕ}
    {i : ISPInterface} (hi : s.sender.strategy.availableInterfaces[l]? = some i) :
    (SenderApplication.enqueuedOn (actions events) l).length =
      i.correctPackages + i.corruptPackages := by
  obtain ⟨hcorrect, hcorrupt⟩ := counters_eq hsolve h hfits hi
  have hlength := congrArg List.length (dispatchedOn_eq hsolve h l)
  rw [hs.queue_eq_nil, List.append_nil, List.length_map, length_takenOn hsolve h hi,
    dispatchedOn_eq_enqueuedOn, List.length_map] at hlength
  rw [hlength, hcorrect, hcorrupt]

theorem Delivered.sum_computations (hs : Delivered s) (hsolve : AnswersFeasibly env.solve)
    (h : Transfers env setup events s) (hfits : (taken events).length < 2 ^ 32)
    (g : ISPInterface.Attributes → ℕ) :
    ((SenderApplication.computations (actions events)).map fun c =>
        totalOver (fun i _ => g i) c.1.availableInterfaces
          (enqueued c.1.availableInterfaces c.2.availableInterfaces)).sum =
      (s.sender.strategy.availableInterfaces.map fun i =>
        g i.attributes * (i.correctPackages + i.corruptPackages)).sum := by
  rw [SenderApplication.sum_computations _
    (SenderApplication.attributes_of_computations (runs_of_transfers h)), totalOver]
  congr 1
  apply List.ext_getElem
  · rw [List.length_mapIdx, List.length_map]
  · intro l hl hl'
    rw [List.length_map] at hl'
    rw [List.getElem_mapIdx, List.getElem_map, List.map_const', List.sum_replicate, smul_eq_mul,
      Nat.mul_comm, ← hs.length_enqueuedOn hsolve h hfits (List.getElem?_eq_getElem hl')]
    rfl

/-- Once everything has arrived, the results file of the strategy and the report of the run differ
by the packets that the interfaces counted as corrupt. -/
theorem results_files_agree (hsolve : Sound env.solve)
    (htype : setup.strategyType = .roundRobin ∨ setup.strategyType = .reactive)
    (h : Transfers env setup events s) (hs : Delivered s)
    (hfits : (taken events).length < 2 ^ 32)
    (hcost : (s.sender.strategy.availableInterfaces.map fun i =>
      i.cost * (i.correctPackages + i.corruptPackages)).sum < 2 ^ 32)
    {sort : List ReceivedPacketInfo → List ReceivedPacketInfo} (hsort : SortsByApplication sort)
    (runParameters : RunParameters) {result : RunInfo}
    (hresult : result = runInfo s.sender.strategy.applications
      s.sender.strategy.availableInterfaces sort s.receiver.receivedPacketInfo runParameters)
    {last : StrategyDataPoint} (hlast : s.sender.strategy.strategyData.getLast? = some last) :
    last.totalAmountOfPackets = result.totalAmountOfPackets +
        (s.sender.strategy.availableInterfaces.map (·.corruptPackages)).sum ∧
      last.totalCost = result.totalCost +
        (s.sender.strategy.availableInterfaces.map fun i => i.cost * i.corruptPackages).sum := by
  subst hresult
  have hanswers := hsolve.answersFeasibly
  have haccounted := SenderApplication.accounted_of_runs hsolve htype (runs_of_transfers h)
  obtain ⟨hcosts, hamounts⟩ := SenderApplication.sums_of_describes haccounted.points
  have hcostSum := hs.sum_computations hanswers h hfits (·.cost)
  have hamountSum := hs.sum_computations hanswers h hfits fun _ => 1
  simp only [Nat.one_mul] at hamountSum
  have htaken : (s.sender.strategy.availableInterfaces.map fun i =>
      i.correctPackages + i.corruptPackages).sum = (taken events).length := by
    rw [← length_taken h]
    refine (sum_map_range _ fun l i hi => ?_).symm
    obtain ⟨hcorrect, hcorrupt⟩ := counters_eq hanswers h hfits hi
    rw [length_takenOn hanswers h hi, hcorrect, hcorrupt]
  have hamountLt : ((SenderApplication.computations (actions events)).map enqueuedAmount).sum <
      2 ^ 32 := hamountSum.trans htaken ▸ hfits
  have hcostLt : ((SenderApplication.computations (actions events)).map enqueuedCost).sum <
      2 ^ 32 := hcostSum ▸ hcost
  have hpackets := haccounted.totals.packets.last hlast
  have hmoney := haccounted.totals.cost.last hlast
  rw [hamounts hamountLt] at hpackets
  rw [hcosts hcostLt] at hmoney
  constructor
  · rw [runInfo_eq hsort]
    dsimp only
    rw [uint32_of_lt ((length_received_le hanswers h hs).trans_lt hfits),
      length_received hanswers h hs hfits, ← List.sum_map_add]
    exact (hpackets hamountLt).trans hamountSum
  · rw [totalCost_runInfo hsort fun p hp => (received_of_transfers hanswers h p hp).2,
      totalCostOf]
    simp only [Nat.mul_add, List.sum_map_add] at hcostSum
    rw [hmoney hcostLt]
    refine hcostSum.trans ?_
    congr 1
    exact (sum_received hanswers h hs hfits (·.cost)).symm

/-! ## A run that ends -/

set_option synthInstance.maxSize 512 in
/-- The small sender sends two of its three packets and loses the other one. -/
theorem exists_sampleDelivered :
    ∃ events s, Transfers SenderApplication.sampleEnvironment
        (SenderApplication.sampleSetup .reactive) events s ∧ Delivered s ∧
      taken events = [(0, 1, false), (1, 1, false), (0, 1, true)] ∧
      s.sender.strategy.availableInterfaces.map (fun i =>
        (i.correctPackages, i.corruptPackages, i.cost)) = [(1, 1, 1), (1, 0, 3)] ∧
      s.sender.strategy.applications.map (fun app =>
        (app.applicationId, app.generatedPackets)) = [(1, 3)] ∧
      s.sender.strategy.strategyData.getLast? = some ⟨5, 0, 3, 0⟩ := by
  obtain ⟨as, x, hruns, hobserved⟩ := SenderApplication.exists_timedRuns
    SenderApplication.sampleEnvironment 0 (SenderApplication.sampleSetup .reactive)
    [false, false, true, false, false, false]
    (fun s => (s.2.strategy.getAllDataHasBeenSent,
      (SenderApplication.takenPackets s.1).map fun t => (t.1, t.2.1.originatedFrom, t.2.2),
      s.2.strategy.availableInterfaces.map fun i =>
        (i.correctPackages, i.corruptPackages, i.cost),
      s.2.strategy.applications.map fun app => (app.applicationId, app.generatedPackets),
      s.2.strategy.strategyData.getLast?))
    (true, [(0, 1, false), (1, 1, false), (0, 1, true)], [(1, 1, 1), (1, 0, 3)], [(1, 3)],
      some ⟨5, 0, 3, 0⟩) (by decide +kernel)
  simp only [Prod.mk.injEq] at hobserved
  obtain ⟨hsent, htaken, hinterfaces, happs, hlast⟩ := hobserved
  obtain ⟨s, hs, rfl, -, -⟩ := transfers_of_runs hruns.runs
  obtain ⟨rest, s', hs', hsender, hrest, harrived⟩ := exists_allArrived hs
  have hactions : actions (as.map .sender ++ rest) = as := by
    rw [actions, List.filterMap_append, ← actions, ← actions, hrest, List.append_nil, actions,
      List.filterMap_map]
    exact List.filterMap_some
  refine ⟨_, s', hs', ⟨hsender ▸ hsent, harrived⟩, ?_, ?_, ?_, ?_⟩
  · rw [taken, hactions, htaken]
  · rw [hsender, hinterfaces]
  · rw [hsender, happs]
  · rw [hsender, hlast]

theorem packets_accounted_sample :
    ∃ events s, Transfers SenderApplication.sampleEnvironment
        (SenderApplication.sampleSetup .reactive) events s ∧
      lostFrom 1 events = 1 ∧ ∀ app ∈ s.sender.strategy.applications, app.generatedPackets = 3 ∧
        app.generatedPackets = uint32 (app.pendingpackets.length +
          queuedFrom app.applicationId s.sender.strategy.availableInterfaces +
          lostFrom app.applicationId events + inFlightFrom app.applicationId s +
          (packetsFrom app.applicationId s.receiver.receivedPacketInfo).length) := by
  obtain ⟨events, s, hs, -, htaken, -, happs, -⟩ := exists_sampleDelivered
  refine ⟨events, s, hs, ?_, fun app happ => ⟨?_, (packets_accounted
    (sound_offer _).answersFeasibly (by decide) hs).1 app happ⟩⟩
  · rw [lostFrom, htaken]
    rfl
  · have hpair := List.mem_map_of_mem (f := fun app : Application =>
      (app.applicationId, app.generatedPackets)) happ
    rw [happs, List.mem_singleton] at hpair
    exact (Prod.mk.inj hpair).2

theorem results_files_agree_sample :
    ∃ events s, Transfers SenderApplication.sampleEnvironment
        (SenderApplication.sampleSetup .reactive) events s ∧
      3 = (runInfo s.sender.strategy.applications s.sender.strategy.availableInterfaces
        sortByApplication s.receiver.receivedPacketInfo sampleParameters).totalAmountOfPackets +
        (s.sender.strategy.availableInterfaces.map (·.corruptPackages)).sum := by
  obtain ⟨events, s, hs, hdelivered, htaken, hinterfaces, -, hlast⟩ := exists_sampleDelivered
  have hsum := congrArg (fun xs => (xs.map fun t : ℕ × ℕ × ℕ => t.2.2 * (t.1 + t.2.1)).sum)
    hinterfaces
  rw [List.map_map] at hsum
  exact ⟨events, s, hs, (results_files_agree (sound_offer _) (.inr rfl) hs hdelivered
    (by rw [htaken]; decide) (hsum.trans_lt (by decide)) sortsByApplication_sortByApplication
    sampleParameters rfl hlast).1⟩

end Transfer

end SdWan
