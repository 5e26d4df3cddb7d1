import SdWan.SenderRuns
import SdWan.Library.FirstOccurrences

/-!
# The interfaces of the sender

The start opens one socket for every address of the node, in the order of the devices. An address
that has one already is left alone. What is fixed then never changes.
-/

open FirstOccurrences

namespace SdWan.SenderApplication

/-- One address of a device, and the number of the device. -/
structure Endpoint where
  device : NetDevice
  source : Address
  index : ℕ

/-- The calls of `InitSocket`, in order. -/
def endpoints (setup : Setup) : List Endpoint :=
  setup.devices.zipIdx.flatMap fun devicei =>
    devicei.1.2.map fun addr => ⟨devicei.1.1, ⟨addr, Utils.connectionPort⟩, devicei.2⟩

/-- The loop body of the start, for one address. -/
def initEndpoint (setup : Setup) (s : List ISPInterface × ℕ) (e : Endpoint) :
    Result (List ISPInterface × ℕ) := do
  let destinationAddress ← vectorAt setup.addresses e.index
  let cost ← vectorAt setup.costs e.index
  .ok (initSocket e.device e.source destinationAddress cost s)

theorem initSockets_eq (setup : Setup) :
    initSockets setup = (endpoints setup).foldlM (initEndpoint setup) ([], 100) := by
  unfold initSockets endpoints
  generalize setup.devices.zipIdx = devices
  generalize (([], 100) : List ISPInterface × ℕ) = s
  induction devices generalizing s with
  | nil => rfl
  | cons devicei devices ih =>
    rw [List.foldlM_cons, List.flatMap_cons, List.foldlM_append, List.foldlM_map]
    exact congrArg _ (funext fun s => ih s)

/-- What the interface number `k` is, opened for the endpoint `e`. -/
structure OpenedFor (setup : Setup) (k : ℕ) (e : Endpoint) (i : ISPInterface) : Prop where
  interfaceId : i.interfaceId = uint32 (101 + k)
  netDevice : i.netDevice = e.device
  outgoingAddress : i.outgoingAddress = e.source
  destinationAddress : setup.addresses[e.index]? = some i.destinationAddress
  errorModel : i.errorModel = e.device.receiveErrorModel
  cost : setup.costs[e.index]? = some i.cost

/-- The state of the start after the calls for `es`. -/
structure Opens (setup : Setup) (es : List Endpoint) (s : List ISPInterface × ℕ) : Prop where
  length : s.1.length = (firsts Endpoint.source es).length
  lastId : s.2 = uint32 (100 + s.1.length)
  opened : ∀ k e i, (firsts Endpoint.source es)[k]? = some e → s.1[k]? = some i →
    OpenedFor setup k e i

variable {setup : Setup}

theorem opens_nil : Opens setup [] ([], 100) where
  length := rfl
  lastId := rfl
  opened k e i he := by cases he

theorem Opens.hasAlreadyInitSocket_iff {es : List Endpoint} {s : List ISPInterface × ℕ}
    (h : Opens setup es s) (source : Address) :
    hasAlreadyInitSocket s.1 source = true ↔ source ∈ es.map Endpoint.source := by
  have hsources : s.1.map (·.outgoingAddress) = (firsts Endpoint.source es).map Endpoint.source := by
    apply List.ext_getElem
    · rw [List.length_map, List.length_map, h.length]
    · intro k hk hk'
      rw [List.length_map] at hk hk'
      rw [List.getElem_map, List.getElem_map]
      exact (h.opened k _ _ (List.getElem?_eq_getElem hk')
        (List.getElem?_eq_getElem hk)).outgoingAddress
  rw [← mem_map_firsts Endpoint.source, ← hsources, hasAlreadyInitSocket, List.any_eq_true,
    List.mem_map]
  simp only [decide_eq_true_eq]

/-- One call opens an interface for an address that has none. -/
theorem Opens.concat {es : List Endpoint} {e : Endpoint} {s s' : List ISPInterface × ℕ}
    (hs : Opens setup es s) (h : initEndpoint setup s e = .ok s') :
    Opens setup (es ++ [e]) s' := by
  obtain ⟨destinationAddress, hdestination, h⟩ := Result.bind_eq_ok.mp h
  obtain ⟨cost, hcost, h⟩ := Result.bind_eq_ok.mp h
  cases h
  have hfirsts := firsts_concat Endpoint.source es e
  unfold initSocket
  by_cases hseen : e.source ∈ es.map Endpoint.source
  · rw [if_pos ((hs.hasAlreadyInitSocket_iff _).mpr hseen)]
    rw [if_pos hseen] at hfirsts
    exact ⟨hfirsts ▸ hs.length, hs.lastId, hfirsts ▸ hs.opened⟩
  · rw [if_neg ((hs.hasAlreadyInitSocket_iff _).not.mpr hseen)]
    rw [if_neg hseen] at hfirsts
    have hid : uint32 (s.2 + 1) = uint32 (101 + s.1.length) := by
      rw [hs.lastId]
      unfold uint32
      omega
    constructor
    · rw [hfirsts, List.length_append, List.length_append, hs.length]
      rfl
    · dsimp only
      rw [hid, List.length_append, List.length_singleton]
      congr 1
      omega
    · intro k e' i he' hi
      dsimp only at hi
      rw [hfirsts] at he'
      have hends := hs.length
      rcases getElem?_concat_cases hi with hi | ⟨hk, rfl⟩
      · have hlt := (List.getElem?_eq_some_iff.mp hi).1
        rw [List.getElem?_append_left (hends ▸ hlt)] at he'
        exact hs.opened k e' i he' hi
      · rw [hk, hends, List.getElem?_concat_length, Option.some.injEq] at he'
        subst he' hk
        exact ⟨hid, rfl, rfl, vectorAt_eq_ok.mp hdestination, rfl, vectorAt_eq_ok.mp hcost⟩

theorem opens_foldlM {es es' : List Endpoint} {s s' : List ISPInterface × ℕ}
    (hs : Opens setup es s) (h : es'.foldlM (initEndpoint setup) s = .ok s') :
    Opens setup (es ++ es') s' := by
  induction es' generalizing es s with
  | nil =>
    cases h
    rwa [List.append_nil]
  | cons e es' ih =>
    rw [List.foldlM_cons] at h
    obtain ⟨t, ht, h⟩ := Result.bind_eq_ok.mp h
    have hall := ih (hs.concat ht) h
    rwa [List.append_assoc] at hall

theorem initSockets_opens {s : List ISPInterface × ℕ} (h : initSockets setup = .ok s) :
    Opens setup (endpoints setup) s :=
  opens_foldlM opens_nil (initSockets_eq setup ▸ h)

/-! ## When the start opens them -/

/-- The vectors of the sender have an entry for the device. -/
def Endpoint.Configured (setup : Setup) (e : Endpoint) : Prop :=
  e.index < setup.addresses.length ∧ e.index < setup.costs.length

theorem exists_initEndpoint_iff {e : Endpoint} {s : List ISPInterface × ℕ} :
    (∃ s', initEndpoint setup s e = .ok s') ↔ e.Configured setup := by
  constructor
  · rintro ⟨s', h⟩
    obtain ⟨destinationAddress, hdestination, h⟩ := Result.bind_eq_ok.mp h
    obtain ⟨cost, hcost, -⟩ := Result.bind_eq_ok.mp h
    exact ⟨exists_vectorAt_iff.mp ⟨_, hdestination⟩, exists_vectorAt_iff.mp ⟨_, hcost⟩⟩
  · rintro ⟨hdestination, hcost⟩
    obtain ⟨destinationAddress, hdestination⟩ := exists_vectorAt_iff.mpr hdestination
    obtain ⟨cost, hcost⟩ := exists_vectorAt_iff.mpr hcost
    exact ⟨_, Result.bind_eq_ok.mpr ⟨_, hdestination, Result.bind_eq_ok.mpr ⟨_, hcost, rfl⟩⟩⟩

theorem exists_foldlM_initEndpoint_iff {es : List Endpoint} (s : List ISPInterface × ℕ) :
    (∃ s', es.foldlM (initEndpoint setup) s = .ok s') ↔ ∀ e ∈ es, e.Configured setup := by
  induction es generalizing s with
  | nil =>
    refine ⟨fun _ e he => ?_, fun _ => ⟨s, rfl⟩⟩
    cases he
  | cons e es ih =>
    rw [List.forall_mem_cons, List.foldlM_cons]
    constructor
    · rintro ⟨s', h⟩
      obtain ⟨t, ht, h⟩ := Result.bind_eq_ok.mp h
      exact ⟨exists_initEndpoint_iff.mp ⟨t, ht⟩, (ih t).mp ⟨s', h⟩⟩
    · rintro ⟨he, hes⟩
      obtain ⟨t, ht⟩ := (exists_initEndpoint_iff (s := s)).mpr he
      obtain ⟨s', h⟩ := (ih t).mpr hes
      exact ⟨s', Result.bind_eq_ok.mpr ⟨t, ht, h⟩⟩

/-- Every device with an address needs a destination and a cost. -/
theorem exists_initSockets_iff :
    (∃ s, initSockets setup = .ok s) ↔ ∀ e ∈ endpoints setup, e.Configured setup := by
  rw [initSockets_eq]
  exact exists_foldlM_initEndpoint_iff _

/-! ## In every run -/

variable {env : Environment} {as : List Action} {x : SenderApplication}

/-- The links of a run are those that the start opened. -/
theorem links_of_runs (h : Runs env setup as x) :
    ∃ s, initSockets setup = .ok s ∧
      x.strategy.availableInterfaces.map (·.attributes) = s.1.map (·.attributes) := by
  apply h.invariant (I := fun _ x => ∃ s, initSockets setup = .ok s ∧
    x.strategy.availableInterfaces.map (·.attributes) = s.1.map (·.attributes))
  · rintro a y ⟨now, hstart⟩
    obtain ⟨s, hsockets, hstart⟩ := Result.bind_eq_ok.mp hstart
    obtain ⟨applications, -, hstart⟩ := Result.bind_eq_ok.mp hstart
    obtain ⟨before, after, -, hcomputes⟩ := computeStrategyAndContinue_eq_ok hstart
    exact ⟨s, hsockets, hcomputes.attributes⟩
  · rintro as a x y - ⟨s, hsockets, hlinks⟩ hstep
    exact ⟨s, hsockets, (step_attributes hstep).trans hlinks⟩

theorem OpenedFor.of_attributes {k : ℕ} {e : Endpoint} {i i' : ISPInterface}
    (h : OpenedFor setup k e i) (hsame : i'.attributes = i.attributes) :
    OpenedFor setup k e i' where
  interfaceId := (congrArg ISPInterface.Attributes.interfaceId hsame).trans h.interfaceId
  netDevice := (congrArg ISPInterface.Attributes.netDevice hsame).trans h.netDevice
  outgoingAddress :=
    (congrArg ISPInterface.Attributes.outgoingAddress hsame).trans h.outgoingAddress
  destinationAddress := h.destinationAddress.trans
    (congrArg (fun i => some (ISPInterface.Attributes.destinationAddress i)) hsame).symm
  errorModel := (congrArg ISPInterface.Attributes.errorModel hsame).trans h.errorModel
  cost := h.cost.trans (congrArg (fun i => some (ISPInterface.Attributes.cost i)) hsame).symm

/-- In every state of every run there is one interface for each address of the node, in the order
in which the addresses first occur, numbered from 101, and with the device, the error model, the
destination and the cost of the device that has it. A run begins only if every device with an
address has a destination and a cost. -/
theorem interfaces_of_runs (h : Runs env setup as x) :
    (∀ e ∈ endpoints setup, e.Configured setup) ∧
      x.strategy.availableInterfaces.length =
        (firsts Endpoint.source (endpoints setup)).length ∧
      (∀ k e i, (firsts Endpoint.source (endpoints setup))[k]? = some e →
        x.strategy.availableInterfaces[k]? = some i → OpenedFor setup k e i) ∧
      ∀ e ∈ endpoints setup, ∃! i,
        i ∈ x.strategy.availableInterfaces ∧ i.outgoingAddress = e.source := by
  obtain ⟨s, hsockets, hlinks⟩ := links_of_runs h
  have hopens := initSockets_opens hsockets
  have hlength : x.strategy.availableInterfaces.length = s.1.length := by
    simpa using congrArg List.length hlinks
  have hopened : ∀ k e i, (firsts Endpoint.source (endpoints setup))[k]? = some e →
      x.strategy.availableInterfaces[k]? = some i → OpenedFor setup k e i := by
    intro k e i he hi
    have hk := (List.getElem?_eq_some_iff.mp hi).1
    have hget := congrArg (fun attributes => attributes[k]?) hlinks
    rw [List.getElem?_map, List.getElem?_map, hi,
      List.getElem?_eq_getElem (hlength ▸ hk)] at hget
    exact (hopens.opened k e _ he (List.getElem?_eq_getElem (hlength ▸ hk))).of_attributes
      (Option.some.inj hget)
  have hdistinct : (x.strategy.availableInterfaces.map (·.outgoingAddress)).Nodup := by
    have hsources := congrArg (List.map ISPInterface.Attributes.outgoingAddress) hlinks
    rw [List.map_map, List.map_map] at hsources
    exact hsources ▸ (initSockets_created hsockets).distinct
  refine ⟨exists_initSockets_iff.mp ⟨s, hsockets⟩, hlength.trans hopens.length, hopened,
    fun e he => ?_⟩
  obtain ⟨e', he', hsource⟩ := List.mem_map.mp
    ((mem_map_firsts Endpoint.source).mpr (List.mem_map_of_mem he))
  obtain ⟨k, hk, rfl⟩ := List.getElem_of_mem he'
  have hk' : k < x.strategy.availableInterfaces.length := by rwa [hlength, hopens.length]
  have hi := hopened k _ _ (List.getElem?_eq_getElem hk) (List.getElem?_eq_getElem hk')
  refine ⟨_, ⟨List.getElem_mem hk', hi.outgoingAddress.trans hsource⟩, fun i ⟨hmem, heq⟩ => ?_⟩
  exact List.inj_on_of_nodup_map hdistinct hmem (List.getElem_mem hk')
    (heq.trans (hi.outgoingAddress.trans hsource).symm)

theorem interfaces_of_runs_sample :
    ∃ as x, Runs sampleEnvironment (sampleSetup .reactive) as x ∧
      ∀ k e i, (firsts Endpoint.source (endpoints (sampleSetup .reactive)))[k]? = some e →
        x.strategy.availableInterfaces[k]? = some i →
          OpenedFor (sampleSetup .reactive) k e i := by
  obtain ⟨as, x, hruns, -⟩ := exists_timedRuns sampleEnvironment 0 (sampleSetup .reactive)
    [false, true] (fun s => s.1.length) 3 (by decide +kernel)
  exact ⟨as, x, hruns.runs, (interfaces_of_runs hruns.runs).2.2.1⟩

end SdWan.SenderApplication
