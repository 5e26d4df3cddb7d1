import SdWan.RoundRobinStrategy
import SdWan.Library.Rotation

/-!
# The balance of the round robin strategy

One computation deals the pending packets to the interfaces in turn. The next one begins with the
first interface again, wherever the last one ended.
-/

open Rotation

namespace SdWan.RoundRobinStrategy

/-- The loop has dealt `k` packets to `n` interfaces, `f q` to interface `q`. -/
structure Deals (n k : ℕ) (s s' : DrainState) (f : ℕ → List SendPacketInfo) : Prop where
  cursor : s'.cursor = (s.cursor + k) % n
  availableInterfaces : s'.availableInterfaces = appendAt s.availableInterfaces f
  length : ∀ q, (f q).length = dealt n s.cursor k q

theorem Deals.refl {n : ℕ} {s : DrainState} (hs : s.cursor < n) :
    Deals n 0 s s (fun _ => []) where
  cursor := (Nat.mod_eq_of_lt hs).symm
  availableInterfaces := (appendAt_nil _).symm
  length q := (dealt_zero n _ q).symm

theorem Deals.trans {n k k' : ℕ} {s s' s'' : DrainState} {f g : ℕ → List SendPacketInfo}
    (h : Deals n k s s' f) (h' : Deals n k' s' s'' g) :
    Deals n (k + k') s s'' (fun q => f q ++ g q) where
  cursor := by rw [h'.cursor, h.cursor, Nat.mod_add_mod, Nat.add_assoc]
  availableInterfaces := by
    rw [h'.availableInterfaces, h.availableInterfaces, appendAt_appendAt]
  length q := by
    rw [List.length_append, h.length, h'.length, h.cursor, dealt_add]

theorem Deals.put {s : DrainState} {iface : ISPInterface}
    (hi : s.availableInterfaces[s.cursor]? = some iface) (p : SendPacketInfo) :
    Deals s.availableInterfaces.length 1 s
      (s.put s.cursor iface p ((s.cursor + 1) % s.availableInterfaces.length))
      (fun q => if s.cursor = q then [p] else []) where
  cursor := rfl
  availableInterfaces := set_eq_appendAt hi [p]
  length q := by
    rw [dealt_one (List.getElem?_eq_some_iff.mp hi).1]
    split_ifs <;> rfl

/-- The cursor stays a position among the interfaces, so no access fails. -/
theorem drainPackets_deals (now : Time) (applicationId : ℕ) (pending : List ℕ) {n : ℕ}
    {s : DrainState} (hn : s.availableInterfaces.length = n) (hs : s.cursor < n) :
    ∃ s' f, drainPackets (fun currentIndex _ => .ok currentIndex)
        (fun currentIndex totalInterfacesAmount => (currentIndex + 1) % totalInterfacesAmount)
        now applicationId pending s = .ok s' ∧ Deals n pending.length s s' f := by
  induction pending generalizing s with
  | nil => exact ⟨s, _, rfl, .refl hs⟩
  | cons x pending ih =>
    obtain ⟨iface, hi⟩ : ∃ iface, s.availableInterfaces[s.cursor]? = some iface :=
      ⟨_, List.getElem?_eq_getElem (hn ▸ hs)⟩
    have hone := Deals.put hi ⟨now, applicationId⟩
    rw [hn] at hone
    obtain ⟨s', f, hdrain, hdeals⟩ := ih
      (by rw [hone.availableInterfaces, length_appendAt, hn])
      (by rw [hone.cursor]; exact Nat.mod_lt _ (s.cursor.zero_le.trans_lt hs))
    have hall := hone.trans hdeals
    rw [Nat.add_comm, ← List.length_cons (a := x)] at hall
    refine ⟨s', _, ?_, hall⟩
    rw [drainPackets]
    simp only [hi, hn]
    exact hdrain

theorem drainApplications_deals (now : Time) (apps : List Application) {n : ℕ} {s : DrainState}
    (hn : s.availableInterfaces.length = n) (hs : s.cursor < n) :
    ∃ apps' s' f, drainApplications (fun currentIndex _ => .ok currentIndex)
        (fun currentIndex totalInterfacesAmount => (currentIndex + 1) % totalInterfacesAmount)
        now apps s = .ok (apps', s') ∧ Deals n (pendingTotal apps) s s' f := by
  induction apps generalizing s with
  | nil => exact ⟨[], s, _, rfl, .refl hs⟩
  | cons app apps ih =>
    obtain ⟨s₁, f₁, hfirst, hdeals₁⟩ :=
      drainPackets_deals now app.applicationId app.pendingpackets hn hs
    obtain ⟨apps', s', f₂, hrest, hdeals₂⟩ := ih
      (by rw [hdeals₁.availableInterfaces, length_appendAt, hn])
      (by rw [hdeals₁.cursor]; exact Nat.mod_lt _ (s.cursor.zero_le.trans_lt hs))
    refine ⟨app.setPending [] :: apps', s', _, ?_, hdeals₁.trans hdeals₂⟩
    rw [drainApplications, hfirst]
    simp only [hrest]

/-- A computation deals all pending packets to the interfaces, the first one to the first. -/
theorem compute_deals (now : Time) {s : Strategy} (hn : 0 < s.availableInterfaces.length) :
    ∃ s', compute now s = .ok s' ∧ ∀ q < s.availableInterfaces.length,
      (enqueued s.availableInterfaces s'.availableInterfaces q).length =
        dealt s.availableInterfaces.length 0 (pendingTotal s.applications) q := by
  obtain ⟨apps', loop, f, hdrain, hdeals⟩ := drainApplications_deals now s.applications
    (s := ⟨0, 0, 0, s.availableInterfaces⟩) rfl hn
  refine ⟨s.recordDrained "outputRoundRobin.csv" apps' loop, ?_, fun q hq => ?_⟩
  · rw [compute, hdrain]
  · rw [Strategy.recordDrained, Strategy.availableInterfaces_printIfAllSent,
      hdeals.availableInterfaces, enqueued_appendAt _ _ hq, hdeals.length]

/-! ## Many computations -/

/-- Computations of one strategy, one after the other, with the number of packets that each
interface was assigned so far. -/
def computeAll : List ComputeCall → (ℕ → ℕ) × Strategy →
    Except (Fault × Strategy) ((ℕ → ℕ) × Strategy)
  | [], t => .ok t
  | c :: calls, (assigned, s) =>
    match compute c.now { s with
        applications := c.applications, availableInterfaces := c.availableInterfaces } with
    | .error e => .error e
    | .ok s =>
      computeAll calls (fun q => assigned q +
        (enqueued c.availableInterfaces s.availableInterfaces q).length, s)

theorem computeAll_load {n : ℕ} (hn : 0 < n) {calls : List ComputeCall}
    (hlength : ∀ c ∈ calls, c.availableInterfaces.length = n) (assigned : ℕ → ℕ) (s : Strategy) :
    ∃ assigned' s', computeAll calls (assigned, s) = .ok (assigned', s') ∧ ∀ q < n,
      assigned' q = assigned q + load n (calls.map fun c => pendingTotal c.applications) q := by
  induction calls generalizing assigned s with
  | nil => exact ⟨assigned, s, rfl, fun q _ => rfl⟩
  | cons c calls ih =>
    have hc := hlength c List.mem_cons_self
    obtain ⟨s₁, hcompute, hdealt⟩ := compute_deals c.now (s := { s with
      applications := c.applications, availableInterfaces := c.availableInterfaces })
      (hc.symm ▸ hn)
    obtain ⟨assigned', s', hrest, hload⟩ := ih
      (fun c' hc' => hlength c' (List.mem_cons_of_mem _ hc'))
      (fun q => assigned q + (enqueued c.availableInterfaces s₁.availableInterfaces q).length) s₁
    refine ⟨assigned', s', ?_, fun q hq => ?_⟩
    · rw [computeAll, hcompute]
      exact hrest
    · have hfirst := hdealt q (hc.symm ▸ hq)
      dsimp only at hfirst
      rw [hload q hq, hfirst, hc, load, load, List.map_cons, List.map_cons, List.sum_cons,
        Nat.add_assoc]

/-- The packets assigned so far stay balanced after every computation exactly when at most one
computation finds a number of packets that the interfaces cannot share evenly. -/
theorem computeAll_balanced_iff {n : ℕ} (hn : 0 < n) {calls : List ComputeCall}
    (hlength : ∀ c ∈ calls, c.availableInterfaces.length = n) (s : Strategy) :
    (∀ t ≤ calls.length, ∃ assigned s',
        computeAll (calls.take t) (fun _ => 0, s) = .ok (assigned, s') ∧ Balanced n assigned) ↔
      unevenRounds n (calls.map fun c => pendingTotal c.applications) ≤ 1 := by
  have hcongr : ∀ {load load' : ℕ → ℕ}, (∀ q < n, load q = load' q) →
      (Balanced n load ↔ Balanced n load') := by
    intro load load' h
    constructor
    · intro hb q hq q' hq'
      rw [← h q hq, ← h q' hq']
      exact hb q hq q' hq'
    · intro hb q hq q' hq'
      rw [h q hq, h q' hq']
      exact hb q hq q' hq'
  have hall : ∀ t, ∃ assigned s',
      computeAll (calls.take t) (fun _ => 0, s) = .ok (assigned, s') ∧
        (Balanced n assigned ↔
          unevenRounds n ((calls.take t).map fun c => pendingTotal c.applications) ≤ 1) := by
    intro t
    obtain ⟨assigned, s', hok, hload⟩ := computeAll_load hn
      (fun c hc => hlength c (List.mem_of_mem_take hc)) (fun _ => 0) s
    refine ⟨assigned, s', hok, ?_⟩
    rw [← balanced_load_iff hn]
    exact hcongr fun q hq => (hload q hq).trans (Nat.zero_add _)
  constructor
  · intro h
    obtain ⟨assigned, s', hok, hbalanced⟩ := h calls.length le_rfl
    obtain ⟨assigned', s'', hok', hiff⟩ := hall calls.length
    rw [hok] at hok'
    cases hok'
    rw [List.take_length] at hiff
    exact hiff.mp hbalanced
  · intro h t _
    obtain ⟨assigned, s', hok, hiff⟩ := hall t
    refine ⟨assigned, s', hok, hiff.mpr (le_trans ?_ h)⟩
    exact (List.Sublist.map _ (List.take_sublist t calls)).countP_le

/-- One application with some packets, and two links. -/
def sampleCall (packets : ℕ) : ComputeCall where
  now := 0
  applications := [.static {
    applicationId := 1
    requiredDelay := 100
    errorRate := 5
    pendingpackets := List.range packets
    generatedPackets := packets
    amountOfPacketsToSend := packets
    requiredDataRate := 1024
    allPacketsGenerated := true }]
  availableInterfaces := [1, 2].map fun id => {
    interfaceId := id
    netDevice := ⟨2048, 10, 0⟩
    outgoingAddress := ⟨id, Utils.connectionPort⟩
    destinationAddress := ⟨0, Utils.connectionPort⟩
    errorModel := 0
    cost := id }

theorem computeAll_balanced_iff_sample :
    ∃ assigned s', computeAll [sampleCall 2, sampleCall 3]
        (fun _ => 0, { applications := [], availableInterfaces := [] }) = .ok (assigned, s') ∧
      Balanced 2 assigned := by
  have hlength : ∀ c ∈ [sampleCall 2, sampleCall 3], c.availableInterfaces.length = 2 := by
    simp [sampleCall]
  exact (computeAll_balanced_iff (by decide) hlength _).mpr (by decide) 2 le_rfl

/-- One packet in each of two computations: both go to the first interface. -/
theorem computeAll_balanced_counterexample :
    ∃ assigned s', computeAll [sampleCall 1, sampleCall 1]
        (fun _ => 0, { applications := [], availableInterfaces := [] }) = .ok (assigned, s') ∧
      assigned 0 = 2 ∧ assigned 1 = 0 ∧ ¬ Balanced 2 assigned := by
  refine ⟨_, _, rfl, rfl, rfl, fun h => ?_⟩
  have hle := h 0 (by decide) 1 (by decide)
  exact absurd hle (by decide)

end SdWan.RoundRobinStrategy
