import SdWan.Draining

/-!
# The random strategy

Random values come from an engine, whose state is the number of values drawn so far: `rng k` is
the value of draw `k`, and `shuffle k` permutes a vector with the engine in state `k` and returns
the state afterwards. The loop that fills the vector of indexes runs once too often.
-/

namespace SdWan.RandomStrategy

/-- `indexes[i] = i` for `i = 0, …, size`, on a vector of `size` elements. -/
def fillIndexes (size : ℕ) : Result (List ℕ) :=
  (List.range (size + 1)).foldlM (fun indexes i =>
    if i < indexes.length then .ok (indexes.set i i) else .error .writeOutOfBounds)
    (List.replicate size 0)

/-- The applications are visited in their own order: the shuffled index is read and not used. -/
def compute (shuffle : ℕ → List ℕ → List ℕ × ℕ) (rng : ℕ → ℕ) (now : Time) (s : Strategy) :
    Call Strategy :=
  match fillIndexes s.applications.length with
  | .error e => .error (e, s)
  | .ok indexes =>
    match drainApplications
        (fun rngDraws amountOfInterfaces =>
          if amountOfInterfaces = 0 then .error .divisionByZero
          else .ok (rng rngDraws % amountOfInterfaces))
        (fun rngDraws _ => rngDraws + 1) now s.applications
        ⟨(shuffle s.rngDraws indexes).2, 0, 0, s.availableInterfaces⟩ with
    | .error (e, applications, loop) =>
      .error (e, { s with
        applications := applications
        availableInterfaces := loop.availableInterfaces
        rngDraws := loop.cursor })
    | .ok (applications, loop) =>
      .ok ({ s with rngDraws := loop.cursor }.recordDrained "outputRandom.csv" applications loop)

theorem fillIndexes_eq (size : ℕ) : fillIndexes size = .error .writeOutOfBounds := by
  have hfill : ∀ n ≤ size, ∃ indexes : List ℕ, indexes.length = size ∧
      (List.range n).foldlM (fun (indexes : List ℕ) i =>
        if i < indexes.length then Except.ok (indexes.set i i)
        else .error Fault.writeOutOfBounds) (List.replicate size 0) = .ok indexes := by
    intro n hn
    induction n with
    | zero => exact ⟨_, List.length_replicate, rfl⟩
    | succ n ih =>
      obtain ⟨indexes, hlen, hfold⟩ := ih (by omega)
      refine ⟨indexes.set n n, by rw [List.length_set, hlen], ?_⟩
      rw [List.range_succ, List.foldlM_append, hfold]
      simp [hlen, show n < size by omega]
  obtain ⟨indexes, hlen, hfold⟩ := hfill size le_rfl
  rw [fillIndexes, List.range_succ, List.foldlM_append, hfold]
  simp [hlen]

/-- Every computation writes behind the vector of indexes. -/
theorem compute_eq (shuffle : ℕ → List ℕ → List ℕ × ℕ) (rng : ℕ → ℕ) (now : Time)
    (s : Strategy) : compute shuffle rng now s = .error (.writeOutOfBounds, s) := by
  rw [compute, fillIndexes_eq]

/-! ## The order of dispatch -/

/-- The packets of the applications at the positions `order`, one application after the other. -/
def packetsInOrder (now : Time) (apps : List Application) (order : List ℕ) :
    List SendPacketInfo :=
  (order.filterMap fun i => apps[i]?).flatMap fun app =>
    List.replicate app.pendingpackets.length ⟨now, app.applicationId⟩

/-- What interface `q` receives of `packets`, when the packet of draw `k` goes to `target k` and
the first packet is that of draw `draws`. -/
def received (target : ℕ → ℕ) (q : ℕ) : ℕ → List SendPacketInfo → List SendPacketInfo
  | _, [] => []
  | draws, p :: packets =>
    (if target draws = q then [p] else []) ++ received target q (draws + 1) packets

theorem received_append (target : ℕ → ℕ) (q draws : ℕ) (ps ps' : List SendPacketInfo) :
    received target q draws (ps ++ ps') =
      received target q draws ps ++ received target q (draws + ps.length) ps' := by
  induction ps generalizing draws with
  | nil => rfl
  | cons p ps ih =>
    have hdraws : draws + 1 + ps.length = draws + (p :: ps).length := by
      rw [List.length_cons]
      omega
    rw [List.cons_append, received, received, ih, List.append_assoc, hdraws]

/-- The applications at the positions `order` are drained one after the other, and every packet
goes to the interface of its draw. -/
structure DispatchesInOrder (order : List ℕ) (target : ℕ → ℕ) (draws : ℕ) (now : Time)
    (s s' : Strategy) : Prop where
  target_lt : ∀ k, target k < s.availableInterfaces.length
  drained : s'.applications = s.applications.map (·.setPending [])
  queues : s'.availableInterfaces = appendAt s.availableInterfaces fun q =>
    received target q draws (packetsInOrder now s.applications order)

/-- The rest of a computation, once the vector of indexes has been filled. -/
def computeFrom (shuffle : ℕ → List ℕ → List ℕ × ℕ) (rng : ℕ → ℕ) (now : Time) (s : Strategy)
    (indexes : List ℕ) : Call Strategy :=
  match drainApplications
      (fun rngDraws amountOfInterfaces =>
        if amountOfInterfaces = 0 then .error .divisionByZero
        else .ok (rng rngDraws % amountOfInterfaces))
      (fun rngDraws _ => rngDraws + 1) now s.applications
      ⟨(shuffle s.rngDraws indexes).2, 0, 0, s.availableInterfaces⟩ with
  | .error (e, applications, loop) =>
    .error (e, { s with
      applications := applications
      availableInterfaces := loop.availableInterfaces
      rngDraws := loop.cursor })
  | .ok (applications, loop) =>
    .ok ({ s with rngDraws := loop.cursor }.recordDrained "outputRandom.csv" applications loop)

theorem compute_eq_computeFrom (shuffle : ℕ → List ℕ → List ℕ × ℕ) (rng : ℕ → ℕ) (now : Time)
    (s : Strategy) : compute shuffle rng now s =
      match fillIndexes s.applications.length with
      | .error e => .error (e, s)
      | .ok indexes => computeFrom shuffle rng now s indexes := rfl

/-- The loop has sent `packets` to the interfaces of their draws. -/
structure Sends (target : ℕ → ℕ) (s s' : DrainState) (packets : List SendPacketInfo) : Prop where
  cursor : s'.cursor = s.cursor + packets.length
  availableInterfaces : s'.availableInterfaces = appendAt s.availableInterfaces fun q =>
    received target q s.cursor packets

section

variable {n : ℕ} {s s' s'' : DrainState} {packets packets' : List SendPacketInfo}

theorem Sends.refl (target : ℕ → ℕ) (s : DrainState) : Sends target s s [] where
  cursor := rfl
  availableInterfaces := (appendAt_nil _).symm

theorem Sends.trans {target : ℕ → ℕ} (h : Sends target s s' packets)
    (h' : Sends target s' s'' packets') : Sends target s s'' (packets ++ packets') where
  cursor := by rw [h'.cursor, h.cursor, List.length_append, Nat.add_assoc]
  availableInterfaces := by
    rw [h'.availableInterfaces, h.availableInterfaces, appendAt_appendAt, h.cursor]
    simp only [received_append]

theorem Sends.put {target : ℕ → ℕ} {iface : ISPInterface}
    (hi : s.availableInterfaces[target s.cursor]? = some iface) (p : SendPacketInfo) :
    Sends target s (s.put (target s.cursor) iface p (s.cursor + 1)) [p] where
  cursor := rfl
  availableInterfaces := by
    simp only [received, List.append_nil]
    exact set_eq_appendAt hi [p]

theorem drainPackets_sends (rng : ℕ → ℕ) (now : Time) (applicationId : ℕ) (pending : List ℕ)
    (hn : 0 < n) (hs : s.availableInterfaces.length = n) :
    ∃ s', drainPackets
        (fun rngDraws amountOfInterfaces =>
          if amountOfInterfaces = 0 then .error .divisionByZero
          else .ok (rng rngDraws % amountOfInterfaces))
        (fun rngDraws _ => rngDraws + 1) now applicationId pending s = .ok s' ∧
      Sends (rng · % n) s s' (List.replicate pending.length ⟨now, applicationId⟩) := by
  induction pending generalizing s with
  | nil => exact ⟨s, rfl, .refl _ s⟩
  | cons x pending ih =>
    obtain ⟨iface, hi⟩ : ∃ iface, s.availableInterfaces[rng s.cursor % n]? = some iface :=
      ⟨_, List.getElem?_eq_getElem (hs.symm ▸ Nat.mod_lt _ hn)⟩
    have hone : Sends (rng · % n) s _ _ := Sends.put hi ⟨now, applicationId⟩
    obtain ⟨s', hdrain, hsends⟩ := ih (by rw [hone.availableInterfaces, length_appendAt, hs])
    refine ⟨s', ?_, hone.trans hsends⟩
    rw [drainPackets]
    simp only [hs, hn.ne', if_false, hi]
    exact hdrain

theorem drainApplications_sends (rng : ℕ → ℕ) (now : Time) (apps : List Application)
    (hn : 0 < n) (hs : s.availableInterfaces.length = n) :
    ∃ s', drainApplications
        (fun rngDraws amountOfInterfaces =>
          if amountOfInterfaces = 0 then .error .divisionByZero
          else .ok (rng rngDraws % amountOfInterfaces))
        (fun rngDraws _ => rngDraws + 1) now apps s =
          .ok (apps.map (·.setPending []), s') ∧
      Sends (rng · % n) s s' (apps.flatMap fun app =>
        List.replicate app.pendingpackets.length ⟨now, app.applicationId⟩) := by
  induction apps generalizing s with
  | nil => exact ⟨s, rfl, .refl _ s⟩
  | cons app apps ih =>
    obtain ⟨s₁, hfirst, hsends₁⟩ :=
      drainPackets_sends rng now app.applicationId app.pendingpackets hn hs
    obtain ⟨s', hrest, hsends₂⟩ := ih
      (by rw [hsends₁.availableInterfaces, length_appendAt, hs])
    refine ⟨s', ?_, ?_⟩
    · rw [drainApplications, hfirst]
      simp only [hrest, List.map_cons]
    · rw [List.flatMap_cons]
      exact hsends₁.trans hsends₂

end

/-- Whatever the vector holds, the applications are drained in the order of their list. -/
theorem computeFrom_inOrder (shuffle : ℕ → List ℕ → List ℕ × ℕ) (rng : ℕ → ℕ) (now : Time)
    {s : Strategy} (hs : s.availableInterfaces ≠ []) (indexes : List ℕ) :
    ∃ s', computeFrom shuffle rng now s indexes = .ok s' ∧
      DispatchesInOrder (List.range s.applications.length)
        (rng · % s.availableInterfaces.length) (shuffle s.rngDraws indexes).2 now s s' := by
  have hn := List.length_pos_iff.mpr hs
  obtain ⟨loop, hdrain, hsends⟩ := drainApplications_sends rng now s.applications
    (s := ⟨(shuffle s.rngDraws indexes).2, 0, 0, s.availableInterfaces⟩) hn rfl
  refine ⟨_, by rw [computeFrom, hdrain], ?_, ?_, ?_⟩
  · exact fun k => Nat.mod_lt _ hn
  · rw [Strategy.recordDrained, Strategy.applications_printIfAllSent]
  · rw [Strategy.recordDrained, Strategy.availableInterfaces_printIfAllSent,
      hsends.availableInterfaces, packetsInOrder, filterMap_range]

/-- The computation stays within the vector of indexes, ends, and has drained the applications in
the order into which the vector was shuffled. -/
def ComputesInShuffledOrder (shuffle : ℕ → List ℕ → List ℕ × ℕ) (rng : ℕ → ℕ) (now : Time)
    (s : Strategy) : Prop :=
  ∃ indexes s', fillIndexes s.applications.length = .ok indexes ∧
    compute shuffle rng now s = .ok s' ∧
    DispatchesInOrder (shuffle s.rngDraws indexes).1 (rng · % s.availableInterfaces.length)
      (shuffle s.rngDraws indexes).2 now s s'

/-- No computation stays within the vector of indexes. What follows the write behind it drains the
applications in the order of their list, whatever the shuffled vector says. -/
theorem not_computesInShuffledOrder (shuffle : ℕ → List ℕ → List ℕ × ℕ) (rng : ℕ → ℕ)
    (now : Time) {s : Strategy} (hs : s.availableInterfaces ≠ []) :
    ¬ ComputesInShuffledOrder shuffle rng now s ∧
      ∀ indexes, ∃ s', computeFrom shuffle rng now s indexes = .ok s' ∧
        DispatchesInOrder (List.range s.applications.length)
          (rng · % s.availableInterfaces.length) (shuffle s.rngDraws indexes).2 now s s' := by
  constructor
  · rintro ⟨indexes, s', hfill, -⟩
    rw [fillIndexes_eq] at hfill
    cases hfill
  · exact computeFrom_inOrder shuffle rng now hs

/-- Two applications with one packet each, and one link. -/
def sampleStrategy : Strategy where
  applications := [1, 2].map fun id => .static {
    applicationId := id
    requiredDelay := 100
    errorRate := 5
    pendingpackets := [0]
    generatedPackets := 1
    amountOfPacketsToSend := 1
    requiredDataRate := 1024
    allPacketsGenerated := true }
  availableInterfaces := [{
    interfaceId := 1
    netDevice := ⟨2048, 10, 0⟩
    outgoingAddress := ⟨1, Utils.connectionPort⟩
    destinationAddress := ⟨0, Utils.connectionPort⟩
    errorModel := 0
    cost := 1 }]

theorem not_computesInShuffledOrder_sample :
    ¬ ComputesInShuffledOrder (fun draws indexes => (indexes.reverse, draws + 1)) id 0
      sampleStrategy :=
  (not_computesInShuffledOrder _ _ _ (List.cons_ne_nil _ _)).1

/-- The third write into a vector of two indexes. Even after it the packet of the first
application is sent before that of the second, which comes first in the shuffled order. -/
theorem computesInShuffledOrder_counterexample :
    ¬ ComputesInShuffledOrder (fun draws indexes => (indexes.reverse, draws + 1)) id 0
        sampleStrategy ∧
      compute (fun draws indexes => (indexes.reverse, draws + 1)) id 0 sampleStrategy =
        .error (.writeOutOfBounds, sampleStrategy) ∧
      (computeFrom (fun draws indexes => (indexes.reverse, draws + 1)) id 0 sampleStrategy
        [0, 1]).toOption.map (fun s' => s'.availableInterfaces.map (·.pendingpackets)) =
          some [[⟨0, 1⟩, ⟨0, 2⟩]] := by
  refine ⟨?_, compute_eq _ _ _ _, by decide⟩
  rintro ⟨indexes, s', -, hcompute, -⟩
  rw [compute_eq] at hcompute
  cases hcompute

end SdWan.RandomStrategy
