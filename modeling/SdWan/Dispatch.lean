import Mathlib.Data.List.Indexes
import SdWan.OptimizationMeaning
import SdWan.Strategy

/-!
# The dispatch loop of the optimising strategies

For every application and every interface of the solution, packets are popped from the queue of
the application and enqueued on the interface. The two strategies differ in what happens on an
empty queue: `ReactiveStrategy` throws, `LinearStrategy` pops all the same.

When every line of the solution adds up to the pending packets of its application the loop cannot
fail: it empties the applications and appends to each interface the packets of its column.
-/

namespace SdWan

section Loops

variable (onEmpty : Fault) (now : Time)

def movePackets : ℕ → Application × ISPInterface → Call (Application × ISPInterface)
  | 0, s => .ok s
  | packets + 1, (app, iface) =>
    match app.pendingpackets with
    | [] => .error (onEmpty, app, iface)
    | _ :: rest =>
      movePackets packets (app.setPending rest, iface.enqueuePacket ⟨now, app.applicationId⟩)

/-- The loop over the interfaces of a solution, given by their positions. -/
def dispatchApplication : List ℕ → List ℕ → Application × List ISPInterface →
    Call (Application × List ISPInterface)
  | [], _, s => .ok s
  | _ :: _, [], s => .error (.outOfRange, s)
  | p :: ps, packets :: packetsForApplication, (app, ifaces) =>
    match ifaces[p]? with
    | none => .error (.outOfRange, app, ifaces)
    | some iface =>
      match movePackets onEmpty now packets (app, iface) with
      | .error (e, app, iface) => .error (e, app, ifaces.set p iface)
      | .ok (app, iface) => dispatchApplication ps packetsForApplication (app, ifaces.set p iface)

def dispatch (interfaces : List ℕ) : List (List ℕ) → List Application × List ISPInterface →
    Call (List Application × List ISPInterface)
  | [], s => .ok s
  | _ :: _, ([], ifaces) => .error (.outOfRange, [], ifaces)
  | packetsForApplication :: solutionValues, (app :: apps, ifaces) =>
    match dispatchApplication onEmpty now interfaces packetsForApplication (app, ifaces) with
    | .error (e, app, ifaces) => .error (e, app :: apps, ifaces)
    | .ok (app, ifaces) =>
      match dispatch interfaces solutionValues (apps, ifaces) with
      | .error (e, apps, ifaces) => .error (e, app :: apps, ifaces)
      | .ok (apps, ifaces) => .ok (app :: apps, ifaces)

end Loops

/-! ## Appending to the queues -/

/-- Interface `q` receives the packets `f q`. -/
def appendAt (ifaces : List ISPInterface) (f : ℕ → List SendPacketInfo) : List ISPInterface :=
  ifaces.mapIdx fun q iface => iface.enqueueAll (f q)

@[simp] theorem length_appendAt (ifaces : List ISPInterface) (f : ℕ → List SendPacketInfo) :
    (appendAt ifaces f).length = ifaces.length := by simp [appendAt]

theorem getElem?_appendAt (ifaces : List ISPInterface) (f : ℕ → List SendPacketInfo) (q : ℕ) :
    (appendAt ifaces f)[q]? = ifaces[q]?.map (·.enqueueAll (f q)) := by simp [appendAt]

theorem appendAt_nil (ifaces : List ISPInterface) : appendAt ifaces (fun _ => []) = ifaces := by
  apply List.ext_getElem?
  intro q
  rw [getElem?_appendAt]
  cases ifaces[q]? <;> simp

theorem appendAt_appendAt (ifaces : List ISPInterface) (f g : ℕ → List SendPacketInfo) :
    appendAt (appendAt ifaces f) g = appendAt ifaces (fun q => f q ++ g q) := by
  apply List.ext_getElem?
  intro q
  simp only [getElem?_appendAt]
  cases ifaces[q]? <;> simp

theorem set_eq_appendAt {ifaces : List ISPInterface} {p : ℕ} {iface : ISPInterface}
    (hp : ifaces[p]? = some iface) (ps : List SendPacketInfo) :
    ifaces.set p (iface.enqueueAll ps) = appendAt ifaces (fun q => if p = q then ps else []) := by
  apply List.ext_getElem?
  intro q
  rw [getElem?_appendAt, List.getElem?_set]
  by_cases h : p = q
  · subst h
    obtain ⟨hlt, -⟩ := List.getElem?_eq_some_iff.mp hp
    rw [if_pos rfl, if_pos hlt, hp, if_pos rfl, Option.map_some]
  · rw [if_neg h, if_neg h]
    cases ifaces[q]? <;> simp

/-! ## What enqueuing leaves alone -/

section Keeps

variable {γ : Type*} {g : ISPInterface → γ}

theorem map_set_of_eq {ifaces : List ISPInterface} {p : ℕ} {iface iface' : ISPInterface}
    (hp : ifaces[p]? = some iface) (h : g iface' = g iface) :
    (ifaces.set p iface').map g = ifaces.map g := by
  rw [List.map_set, h]
  apply List.ext_getElem?
  intro q
  rw [List.getElem?_set]
  split_ifs with hq hlen
  · rw [← hq, List.getElem?_map, hp, Option.map_some]
  · subst hq
    rw [List.getElem?_eq_none (by omega)]
  · rfl

theorem map_appendAt (hg : ∀ i p, g (i.enqueuePacket p) = g i) (ifaces : List ISPInterface)
    (f : ℕ → List SendPacketInfo) : (appendAt ifaces f).map g = ifaces.map g := by
  have hall : ∀ ps i, g (i.enqueueAll ps) = g i := by
    intro ps
    induction ps with
    | nil => intro i; rw [ISPInterface.enqueueAll_nil]
    | cons p ps ih => intro i; rw [ISPInterface.enqueueAll_cons, ih, hg]
  apply List.ext_getElem?
  intro q
  simp only [List.getElem?_map, getElem?_appendAt]
  cases ifaces[q]? <;> simp [hall]

theorem movePackets_keeps (hg : ∀ i p, g (i.enqueuePacket p) = g i) {onEmpty : Fault} {now : Time}
    {k : ℕ} {app app' : Application} {iface iface' : ISPInterface}
    (h : movePackets onEmpty now k (app, iface) = .ok (app', iface')) : g iface' = g iface := by
  induction k generalizing app iface with
  | zero => cases h; rfl
  | succ k ih =>
    rw [movePackets] at h
    split at h
    · cases h
    · rw [ih h, hg]

theorem dispatchApplication_keeps (hg : ∀ i p, g (i.enqueuePacket p) = g i) {onEmpty : Fault}
    {now : Time} {ps ks : List ℕ} {app app' : Application} {ifaces ifaces' : List ISPInterface}
    (h : dispatchApplication onEmpty now ps ks (app, ifaces) = .ok (app', ifaces')) :
    ifaces'.map g = ifaces.map g := by
  induction ps generalizing ks app ifaces with
  | nil => cases h; rfl
  | cons p ps ih =>
    cases ks with
    | nil => cases h
    | cons k ks =>
      rw [dispatchApplication] at h
      split at h
      · cases h
      rename_i iface hp
      split at h
      · cases h
      rename_i app₁ iface₁ hmove
      rw [ih h, map_set_of_eq hp (movePackets_keeps hg hmove)]

theorem dispatch_keeps (hg : ∀ i p, g (i.enqueuePacket p) = g i) {onEmpty : Fault} {now : Time}
    {ps : List ℕ} {rows : List (List ℕ)} {apps apps' : List Application}
    {ifaces ifaces' : List ISPInterface}
    (h : dispatch onEmpty now ps rows (apps, ifaces) = .ok (apps', ifaces')) :
    ifaces'.map g = ifaces.map g := by
  induction rows generalizing apps apps' ifaces ifaces' with
  | nil => cases h; rfl
  | cons row rows ih =>
    cases apps with
    | nil => cases h
    | cons app apps =>
      rw [dispatch] at h
      split at h
      · cases h
      rename_i app₁ ifaces₁ hfirst
      split at h
      · cases h
      rename_i apps₂ ifaces₂ hrest
      cases h
      rw [ih hrest, dispatchApplication_keeps hg hfirst]

end Keeps

/-! ## The loops when the solution matches the queues -/

theorem movePackets_eq (onEmpty : Fault) (now : Time) (k : ℕ) (app : Application)
    (iface : ISPInterface) (h : k ≤ app.pendingpackets.length) :
    movePackets onEmpty now k (app, iface) =
      .ok (app.setPending (app.pendingpackets.drop k),
        iface.enqueueAll (List.replicate k ⟨now, app.applicationId⟩)) := by
  induction k generalizing app iface with
  | zero => simp [movePackets]
  | succ k ih =>
    cases hq : app.pendingpackets with
    | nil => rw [hq, List.length_nil] at h; omega
    | cons x rest =>
      have hk : k ≤ (app.setPending rest).pendingpackets.length := by
        rw [hq, List.length_cons] at h
        rw [Application.pendingpackets_setPending]
        omega
      have hid : (app.setPending rest).applicationId = app.applicationId :=
        congrArg Application.Requirements.applicationId (app.requirements_setPending rest)
      rw [movePackets, hq]
      simp only [ih _ _ hk, Application.pendingpackets_setPending,
        Application.setPending_setPending, hid, List.drop_succ_cons, List.replicate_succ,
        ISPInterface.enqueueAll_cons]

/-- What one line of the solution sends to interface `q`. -/
def contribution (now : Time) (ps ks : List ℕ) (app : Application) (q : ℕ) :
    List SendPacketInfo :=
  (ps.zip ks).flatMap fun (p, k) =>
    if p = q then List.replicate k ⟨now, app.applicationId⟩ else []

theorem contribution_setPending (now : Time) (ps ks : List ℕ) (app : Application)
    (pending : List ℕ) :
    contribution now ps ks (app.setPending pending) = contribution now ps ks app := by
  have hid : (app.setPending pending).applicationId = app.applicationId :=
    congrArg Application.Requirements.applicationId (app.requirements_setPending pending)
  funext q
  simp only [contribution, hid]

theorem dispatchApplication_eq (onEmpty : Fault) (now : Time) (ps ks : List ℕ)
    (app : Application) (ifaces : List ISPInterface) (hlen : ks.length = ps.length)
    (hps : ∀ p ∈ ps, p < ifaces.length) (hsum : ks.sum ≤ app.pendingpackets.length) :
    dispatchApplication onEmpty now ps ks (app, ifaces) =
      .ok (app.setPending (app.pendingpackets.drop ks.sum),
        appendAt ifaces (contribution now ps ks app)) := by
  induction ps generalizing ks app ifaces with
  | nil =>
    have hks : ks = [] := List.length_eq_zero_iff.mp hlen
    subst hks
    have hnone : contribution now [] [] app = fun _ => [] := rfl
    rw [hnone, appendAt_nil, List.sum_nil, List.drop_zero, Application.setPending_self]
    rfl
  | cons p ps ih =>
    cases ks with
    | nil => cases hlen
    | cons k ks =>
      rw [List.sum_cons] at hsum
      obtain ⟨iface, hp⟩ : ∃ iface, ifaces[p]? = some iface :=
        ⟨_, List.getElem?_eq_getElem (hps p List.mem_cons_self)⟩
      have hmove := movePackets_eq onEmpty now k app iface (by omega)
      have hrest := ih ks (app.setPending (app.pendingpackets.drop k))
        (ifaces.set p (iface.enqueueAll (List.replicate k ⟨now, app.applicationId⟩)))
        (by simpa using hlen)
        (fun q hq => by simpa using hps q (List.mem_cons_of_mem _ hq))
        (by rw [Application.pendingpackets_setPending, List.length_drop]; omega)
      simp only [dispatchApplication, hp, hmove, hrest]
      rw [contribution_setPending, set_eq_appendAt hp, appendAt_appendAt]
      simp only [Application.pendingpackets_setPending, Application.setPending_setPending,
        List.drop_drop, List.sum_cons]
      rfl

/-- What a whole solution sends to interface `q`. -/
def contributions (now : Time) (ps : List ℕ) (rows : List (List ℕ)) (apps : List Application)
    (q : ℕ) : List SendPacketInfo :=
  (rows.zip apps).flatMap fun (row, app) => contribution now ps row app q

theorem dispatch_eq (onEmpty : Fault) (now : Time) (ps : List ℕ) (rows : List (List ℕ))
    (apps : List Application) (ifaces : List ISPInterface) (hps : ∀ p ∈ ps, p < ifaces.length)
    (hrows : List.Forall₂ (fun (row : List ℕ) (app : Application) =>
      row.length = ps.length ∧ row.sum = app.pendingpackets.length) rows apps) :
    dispatch onEmpty now ps rows (apps, ifaces) =
      .ok (apps.map (·.setPending []), appendAt ifaces (contributions now ps rows apps)) := by
  induction hrows generalizing ifaces with
  | nil =>
    have hnone : contributions now ps [] [] = fun _ => [] := rfl
    rw [hnone, appendAt_nil]
    rfl
  | @cons row app rows apps hrow hrest ih =>
    have hfirst := dispatchApplication_eq onEmpty now ps row app ifaces hrow.1 hps hrow.2.le
    rw [hrow.2, List.drop_length] at hfirst
    have htail := ih (appendAt ifaces (contribution now ps row app))
      (fun p hp => by simpa using hps p hp)
    simp only [dispatch, hfirst, htail, appendAt_appendAt]
    rfl

/-! ## Totals over the packets appended -/

section Totals

variable (w : ISPInterface.Attributes → SendPacketInfo → ℕ)

/-- The sum of `w` over the packets that the queues of `ifaces` hold. -/
def queuedTotal (ifaces : List ISPInterface) : ℕ :=
  (ifaces.map fun iface => (iface.pendingpackets.map (w iface.attributes)).sum).sum

/-- The sum of `w` over packets `f q` destined for each interface `q`. -/
def totalOver (ifaces : List ISPInterface) (f : ℕ → List SendPacketInfo) : ℕ :=
  (ifaces.mapIdx fun q iface => ((f q).map (w iface.attributes)).sum).sum

theorem totalOver_cons (iface : ISPInterface) (ifaces : List ISPInterface)
    (f : ℕ → List SendPacketInfo) :
    totalOver w (iface :: ifaces) f =
      ((f 0).map (w iface.attributes)).sum + totalOver w ifaces (fun q => f (q + 1)) := by
  simp only [totalOver, List.mapIdx_cons, List.sum_cons]

theorem appendAt_cons (iface : ISPInterface) (ifaces : List ISPInterface)
    (f : ℕ → List SendPacketInfo) :
    appendAt (iface :: ifaces) f =
      iface.enqueueAll (f 0) :: appendAt ifaces (fun q => f (q + 1)) := by
  simp only [appendAt, List.mapIdx_cons]

theorem queuedTotal_appendAt (ifaces : List ISPInterface) (f : ℕ → List SendPacketInfo) :
    queuedTotal w (appendAt ifaces f) = queuedTotal w ifaces + totalOver w ifaces f := by
  induction ifaces generalizing f with
  | nil => rfl
  | cons iface ifaces ih =>
    have htail := ih (fun q => f (q + 1))
    rw [appendAt_cons, totalOver_cons]
    simp only [queuedTotal, List.map_cons, List.sum_cons] at htail ⊢
    rw [htail, ISPInterface.attributes_enqueueAll, ISPInterface.enqueueAll, List.map_append,
      List.sum_append]
    omega

theorem totalOver_appendAt (ifaces : List ISPInterface) (f g : ℕ → List SendPacketInfo) :
    totalOver w (appendAt ifaces f) g = totalOver w ifaces g := by
  induction ifaces generalizing f g with
  | nil => rfl
  | cons iface ifaces ih =>
    rw [appendAt_cons, totalOver_cons, totalOver_cons, ih, ISPInterface.attributes_enqueueAll]

theorem totalOver_append (ifaces : List ISPInterface) (f g : ℕ → List SendPacketInfo) :
    totalOver w ifaces (fun q => f q ++ g q) = totalOver w ifaces f + totalOver w ifaces g := by
  induction ifaces generalizing f g with
  | nil => rfl
  | cons iface ifaces ih =>
    rw [totalOver_cons, totalOver_cons, totalOver_cons, ih, List.map_append, List.sum_append]
    omega

theorem totalOver_nil (ifaces : List ISPInterface) : totalOver w ifaces (fun _ => []) = 0 := by
  induction ifaces with
  | nil => rfl
  | cons iface ifaces ih => rw [totalOver_cons, ih]; rfl

theorem totalOver_congr {ifaces : List ISPInterface} {f g : ℕ → List SendPacketInfo}
    (h : ∀ q < ifaces.length, f q = g q) : totalOver w ifaces f = totalOver w ifaces g := by
  induction ifaces generalizing f g with
  | nil => rfl
  | cons iface ifaces ih =>
    rw [totalOver_cons, totalOver_cons, h 0 (Nat.succ_pos _),
      ih fun q hq => h (q + 1) (Nat.succ_lt_succ hq)]

end Totals

/-- The packets that a call added to the queue of interface `q`. -/
def enqueued (before after : List ISPInterface) (q : ℕ) : List SendPacketInfo :=
  match before[q]?, after[q]? with
  | some i, some i' => i'.pendingpackets.drop i.pendingpackets.length
  | _, _ => []

theorem enqueued_appendAt (ifaces : List ISPInterface) (f : ℕ → List SendPacketInfo) {q : ℕ}
    (hq : q < ifaces.length) : enqueued ifaces (appendAt ifaces f) q = f q := by
  have hi : ifaces[q]? = some ifaces[q] := List.getElem?_eq_getElem hq
  rw [enqueued, getElem?_appendAt, hi]
  exact List.drop_left

theorem totalOver_enqueued (w : ISPInterface.Attributes → SendPacketInfo → ℕ)
    (ifaces : List ISPInterface) (f : ℕ → List SendPacketInfo) :
    totalOver w ifaces (enqueued ifaces (appendAt ifaces f)) = totalOver w ifaces f :=
  totalOver_congr w fun _ hq => enqueued_appendAt ifaces f hq

/-! ## The packets of a table -/

section Table

variable (now : Time) (apps : List Application) {nL : ℕ} (x : Fin apps.length → Fin nL → ℕ)

/-- What an assignment sends over interface `q`: the packets of the first application, then those
of the second, and so on. -/
def packetsOf (q : ℕ) : List SendPacketInfo :=
  if h : q < nL then
    (List.finRange apps.length).flatMap fun a =>
      List.replicate (x a ⟨q, h⟩) ⟨now, apps[a].applicationId⟩
  else []

theorem packetsOf_fin (l : Fin nL) :
    packetsOf now apps x l = (List.finRange apps.length).flatMap fun a =>
      List.replicate (x a l) ⟨now, (getElem apps a a.isLt).applicationId⟩ :=
  dif_pos l.isLt

theorem dateEnqueued_packetsOf (q : ℕ) : ∀ p ∈ packetsOf now apps x q, p.dateEnqueued = now := by
  intro p hp
  unfold packetsOf at hp
  split_ifs at hp
  · obtain ⟨a, -, hpa⟩ := List.mem_flatMap.mp hp
    rw [List.eq_of_mem_replicate hpa]
  · cases hp

theorem sum_map_packetsOf (l : Fin nL) (g : SendPacketInfo → ℕ) :
    ((packetsOf now apps x l).map g).sum =
      ∑ a, x a l * g ⟨now, (getElem apps a a.isLt).applicationId⟩ := by
  rw [packetsOf_fin, List.map_flatMap, List.flatMap_def, List.sum_flatten, List.map_map,
    ← List.ofFn_eq_map, List.sum_ofFn]
  simp

end Table

theorem totalOver_packetsOf (w : ISPInterface.Attributes → SendPacketInfo → ℕ) (now : Time)
    (apps : List Application) (ifaces : List ISPInterface)
    (x : Fin apps.length → Fin ifaces.length → ℕ) :
    totalOver w ifaces (packetsOf now apps x) =
      ∑ a, ∑ l, x a l * w (getElem ifaces l l.isLt).attributes
        ⟨now, (getElem apps a a.isLt).applicationId⟩ := by
  rw [totalOver, List.mapIdx_eq_ofFn, List.sum_ofFn, Finset.sum_comm]
  apply Finset.sum_congr rfl
  intro l _
  exact sum_map_packetsOf now apps x l _

/-! ## Dispatching a decoded solution -/

theorem contribution_range (now : Time) {n : ℕ} (g : ℕ → ℕ) (app : Application) {q : ℕ}
    (hq : q < n) :
    contribution now (List.range n) ((List.range n).map g) app q =
      List.replicate (g q) ⟨now, app.applicationId⟩ := by
  have hzip : (List.range n).zip ((List.range n).map g) =
      (List.range n).map fun i => (i, g i) := by
    rw [← List.zip_map', List.map_id']
  have hothers : ∀ m ≤ q, ((List.range m).flatMap fun i =>
      if i = q then List.replicate (g i) (⟨now, app.applicationId⟩ : SendPacketInfo) else []) =
        [] := by
    intro m hm
    apply List.flatMap_eq_nil_iff.mpr
    intro i hi
    exact if_neg (by have := List.mem_range.mp hi; omega)
  rw [contribution, hzip, List.flatMap_map]
  induction n with
  | zero => omega
  | succ n ih =>
    rw [List.range_succ, List.flatMap_append, List.flatMap_singleton]
    by_cases h : n = q
    · subst h
      rw [hothers n le_rfl, List.nil_append]
      exact if_pos rfl
    · rw [ih (by omega) (by rw [← List.zip_map', List.map_id'])]
      simp only [if_neg h, List.append_nil]

theorem contributions_decodeSolution (now : Time) (apps : List Application) {nL : ℕ}
    (value : ℕ → ℚ) {q : ℕ} (hq : q < nL) :
    contributions now (List.range nL) (decodeSolution apps.length nL value) apps q =
      packetsOf now apps (tableOf apps.length nL value) q := by
  have hzip : (decodeSolution apps.length nL value).zip apps =
      (List.finRange apps.length).map fun (a : Fin apps.length) => ((List.range nL).map fun i =>
        ⌊value (a + i * apps.length)⌋₊, apps[a]) := by
    apply List.ext_getElem
    · simp [decodeSolution]
    · intro i h₁ h₂
      simp [decodeSolution]
  have hrow := packetsOf_fin now apps (tableOf apps.length nL value) ⟨q, hq⟩
  rw [contributions, hzip, List.flatMap_map]
  simp only [contribution_range now _ _ hq]
  exact hrow.symm

/-- The lines of a decoded solution add up to the pending packets. -/
theorem forall₂_decodeSolution {apps : List Application} {nL : ℕ} {value : ℕ → ℚ}
    (hsent : ∀ a : Fin apps.length,
      ∑ l, tableOf apps.length nL value a l = (getElem apps a a.isLt).pendingpackets.length) :
    List.Forall₂ (fun (row : List ℕ) (app : Application) =>
        row.length = (List.range nL).length ∧ row.sum = app.pendingpackets.length)
      (decodeSolution apps.length nL value) apps := by
  rw [List.forall₂_iff_get]
  refine ⟨by simp [decodeSolution], fun i h₁ h₂ => ?_⟩
  have hi : i < apps.length := h₂
  simp only [decodeSolution, List.get_eq_getElem, List.getElem_map, List.getElem_range,
    List.length_map, List.length_range, true_and]
  rw [sum_range_map]
  exact hsent ⟨i, hi⟩

/-- A feasible table is dispatched without a fault. -/
theorem dispatch_decodeSolution (onEmpty : Fault) (now : Time) (apps : List Application)
    (ifaces : List ISPInterface) {value : ℕ → ℚ} (hsent : ∀ a : Fin apps.length,
      ∑ l, tableOf apps.length ifaces.length value a l =
        (getElem apps a a.isLt).pendingpackets.length) :
    dispatch onEmpty now (List.range ifaces.length)
        (decodeSolution apps.length ifaces.length value) (apps, ifaces) =
      .ok (apps.map (·.setPending []),
        appendAt ifaces (packetsOf now apps (tableOf apps.length ifaces.length value))) := by
  rw [dispatch_eq onEmpty now _ _ _ _ (fun p hp => List.mem_range.mp hp)
    (forall₂_decodeSolution hsent)]
  congr 2
  apply List.ext_getElem?
  intro q
  rw [getElem?_appendAt, getElem?_appendAt]
  by_cases hq : q < ifaces.length
  · rw [contributions_decodeSolution now apps value hq]
  · rw [List.getElem?_eq_none (by omega), Option.map_none, Option.map_none]

/-! ## Draining the applications -/

/-- A computation that moves every pending packet to a queue, `f q` to that of interface `q`. -/
structure Drains (now : Time) (s s' : Strategy) (f : ℕ → List SendPacketInfo) : Prop where
  applications : s'.applications = s.applications.map (·.setPending [])
  availableInterfaces : s'.availableInterfaces = appendAt s.availableInterfaces f
  enqueuedNow : ∀ q, ∀ p ∈ f q, p.dateEnqueued = now
  moved : ∀ g : SendPacketInfo → ℕ, totalOver (fun _ => g) s.availableInterfaces f =
    (s.applications.map fun app => app.pendingpackets.length * g ⟨now, app.applicationId⟩).sum

theorem totalOver_packetsOf_of_allSent (now : Time) (apps : List Application)
    (ifaces : List ISPInterface) {x : Fin apps.length → Fin ifaces.length → ℕ}
    (hsent : ∀ a, ∑ l, x a l = (getElem apps a a.isLt).pendingpackets.length)
    (g : SendPacketInfo → ℕ) :
    totalOver (fun _ => g) ifaces (packetsOf now apps x) =
      (apps.map fun app => app.pendingpackets.length * g ⟨now, app.applicationId⟩).sum := by
  have hlist : (apps.map fun app => app.pendingpackets.length * g ⟨now, app.applicationId⟩) =
      List.ofFn fun a : Fin apps.length =>
        apps[a].pendingpackets.length * g ⟨now, apps[a].applicationId⟩ := by
    apply List.ext_getElem
    · simp
    · intro i h₁ h₂
      simp
  rw [totalOver_packetsOf, hlist, List.sum_ofFn]
  apply Finset.sum_congr rfl
  intro a _
  rw [← Finset.sum_mul, hsent]

end SdWan
