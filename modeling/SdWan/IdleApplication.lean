import SdWan.OptimizationMeaning

/-!
# An application with nothing to send

Inserting an application without pending packets shifts the variables of the others. The reactive
strategy leaves its bandwidth row out, and then nothing changes for the others. The linear strategy
keeps the row, whose coefficients are all zero: it can only be met when the application requires no
data rate.
-/

open Finset IntegerProgram

namespace SdWan

/-! ## Points without one application -/

/-- The position of an application once another one has been inserted at position `i`. -/
def skip (i a : ℕ) : ℕ := if a < i then a else a + 1

/-- A point of a program with one application more, at position `i`, on the variables of the
others. -/
def withoutApplication (i amountOfApplications : ℕ) (x : ℕ → ℚ) (v : ℕ) : ℚ :=
  x (skip i (v % amountOfApplications) + v / amountOfApplications * (amountOfApplications + 1))

theorem skip_injective (i : ℕ) : Function.Injective (skip i) := by
  intro a b h
  unfold skip at h
  split_ifs at h <;> omega

theorem skip_lt {i a n : ℕ} (h : a < n) : skip i a < n + 1 := by
  unfold skip
  split_ifs <;> omega

theorem exists_skip {i n k : ℕ} (hi : i < n + 1) (hk : k < n + 1) (hne : k ≠ i) :
    ∃ a < n, skip i a = k := by
  rcases Nat.lt_or_gt_of_ne hne with h | h
  · exact ⟨k, by omega, if_pos h⟩
  · exact ⟨k - 1, by omega, by unfold skip; split_ifs <;> omega⟩

theorem withoutApplication_natural {i n nL : ℕ} {x : ℕ → ℚ}
    (hx : ∀ v < (n + 1) * nL, x v = (⌊x v⌋₊ : ℚ)) :
    ∀ v < n * nL, withoutApplication i n x v = (⌊withoutApplication i n x v⌋₊ : ℚ) := by
  intro v hv
  have hn : 0 < n := Nat.pos_of_mul_pos_right (v.zero_le.trans_lt hv)
  exact hx _ (variable_lt (skip_lt (Nat.mod_lt v hn)) (Nat.div_lt_of_lt_mul hv))

theorem tableOf_withoutApplication {i n nL N : ℕ} (hN : N = n + 1) {e : Fin n ↪ Fin N}
    (he : ∀ a, (e a).val = skip i a) (x : ℕ → ℚ) :
    tableOf n nL (withoutApplication i n x) = fun a => tableOf N nL x (e a) := by
  subst hN
  funext a l
  rw [tableOf, tableOf, withoutApplication, variable_mod a.isLt, variable_div a.isLt, he]

/-- The program `P` has one application more than `P'`, at position `i`, that does not matter. -/
structure Uninfluenced (i amountOfApplications amountOfInterfaces : ℕ) (P P' : Program) :
    Prop where
  feasible : (∃ x, P.Feasible x) ↔ ∃ y, P'.Feasible y
  optimalCost : ∀ c, (∃ x, P.Optimal x ∧ P.cost x = c) ↔ ∃ y, P'.Optimal y ∧ P'.cost y = c
  sendsNothing : ∀ x, P.Feasible x →
    ∀ l < amountOfInterfaces, x (i + l * (amountOfApplications + 1)) = 0
  restricts : ∀ x, P.Feasible x → P'.Feasible (withoutApplication i amountOfApplications x)

theorem Uninfluenced.of_infeasible {i nA nL : ℕ} {P P' : Program} (hP : ∀ x, ¬ P.Feasible x)
    (hP' : ∀ y, ¬ P'.Feasible y) : Uninfluenced i nA nL P P' where
  feasible := ⟨fun ⟨x, hx⟩ => absurd hx (hP x), fun ⟨y, hy⟩ => absurd hy (hP' y)⟩
  optimalCost _ := ⟨fun ⟨x, hx, _⟩ => absurd hx.feasible (hP x),
    fun ⟨y, hy, _⟩ => absurd hy.feasible (hP' y)⟩
  sendsNothing x hx := absurd hx (hP x)
  restricts x hx := absurd hx (hP x)

/-! ## Programs that express an assignment problem -/

/-- The feasible points of `P` are the tables of the admissible assignments of `Q`, unless the
condition `C`, which is not about the assignment, fails. -/
structure Expresses {nA nL : ℕ} (P : Program) (Q : AssignmentProblem (Fin nA) (Fin nL))
    (C : Prop) : Prop where
  feasible : ∀ x, P.Feasible x ↔
    (∀ v < nA * nL, x v = (⌊x v⌋₊ : ℚ)) ∧ Q.Admissible (tableOf nA nL x) ∧ C
  cost : ∀ x, P.Feasible x → P.cost x = Q.totalCost (tableOf nA nL x)

theorem ReactiveStrategy.expresses (now : Time) (apps : List Application)
    (ifaces : List ISPInterface) :
    Expresses (ReactiveStrategy.program now apps ifaces)
      (ReactiveStrategy.problem now apps ifaces) True where
  feasible x := by rw [ReactiveStrategy.feasible_iff, and_true]
  cost _ hx := ReactiveStrategy.cost_eq hx

theorem forall_fin_iff_forall_mem {α : Type} {xs : List α} {p : α → Prop} :
    (∀ a : Fin xs.length, p (getElem xs a a.isLt)) ↔ ∀ x ∈ xs, p x := by
  rw [List.forall_mem_iff_getElem]
  exact ⟨fun h i hi => h ⟨i, hi⟩, fun h a => h a a.isLt⟩

theorem LinearStrategy.expresses (apps : List Application) (ifaces : List ISPInterface) :
    Expresses (LinearStrategy.program apps ifaces) (LinearStrategy.problem apps ifaces)
      (∀ app ∈ apps, app.pendingpackets = [] → app.getRequiredDataRate = 0) where
  feasible x := by
    rw [LinearStrategy.feasible_iff, ← forall_fin_iff_forall_mem]
  cost _ hx := LinearStrategy.cost_eq hx

section

variable {N nA nL i : ℕ} {P P' : Program} {Q : AssignmentProblem (Fin N) (Fin nL)} {C C' : Prop}
  {e : Fin nA ↪ Fin N}

theorem Expresses.exists_feasible_iff (hP : Expresses P Q C) :
    (∃ x, P.Feasible x) ↔ (∃ y, Q.Admissible y) ∧ C := by
  constructor
  · rintro ⟨x, hx⟩
    obtain ⟨-, hadmissible, hc⟩ := (hP.feasible x).mp hx
    exact ⟨⟨_, hadmissible⟩, hc⟩
  · rintro ⟨⟨y, hy⟩, hc⟩
    exact ⟨pointOf y, (hP.feasible _).mpr
      ⟨fun v _ => natural_pointOf y v, (tableOf_pointOf y).symm ▸ hy, hc⟩⟩

theorem Expresses.restrict (hP : Expresses P Q C) (hP' : Expresses P' (Q.onApplications e) C')
    (hN : N = nA + 1) (he : ∀ a, (e a).val = skip i a) (hC : C → C') {x : ℕ → ℚ}
    (hx : P.Feasible x) : P'.Feasible (withoutApplication i nA x) := by
  obtain ⟨hnatural, hadmissible, hc⟩ := (hP.feasible x).mp hx
  rw [hP'.feasible, tableOf_withoutApplication hN he]
  exact ⟨withoutApplication_natural (hN ▸ hnatural), hadmissible.restrict, hC hc⟩

theorem Expresses.extend (hP : Expresses P Q C) (hP' : Expresses P' (Q.onApplications e) C')
    (hidle : ∀ a, (∀ a', e a' ≠ a) → Q.pending a = 0) (hC : C' → C) {y : ℕ → ℚ}
    (hy : P'.Feasible y) : ∃ x, P.Feasible x ∧ P.cost x = P'.cost y := by
  obtain ⟨-, hadmissible, hc⟩ := (hP'.feasible y).mp hy
  have hx : P.Feasible
      (pointOf (AssignmentProblem.extendApplications e (tableOf nA nL y))) := by
    rw [hP.feasible, tableOf_pointOf]
    exact ⟨fun v _ => natural_pointOf _ v, hadmissible.extendApplications hidle, hC hc⟩
  refine ⟨_, hx, ?_⟩
  rw [hP.cost _ hx, tableOf_pointOf, AssignmentProblem.totalCost_extendApplications,
    hP'.cost _ hy]

theorem Expresses.uninfluenced (hP : Expresses P Q C)
    (hP' : Expresses P' (Q.onApplications e) C') (hN : N = nA + 1)
    (he : ∀ a, (e a).val = skip i a) (hi : i < N) (hpending : Q.pending ⟨i, hi⟩ = 0)
    (hC : C ↔ C') : Uninfluenced i nA nL P P' := by
  have hidle : ∀ a, (∀ a', e a' ≠ a) → Q.pending a = 0 := by
    intro a ha
    by_cases hai : a.val = i
    · rwa [show a = ⟨i, hi⟩ from Fin.ext hai]
    · obtain ⟨a', ha', hskip⟩ := exists_skip (n := nA) (by omega) (by omega) hai
      exact absurd (Fin.ext ((he ⟨a', ha'⟩).trans hskip)) (ha ⟨a', ha'⟩)
  have hforth : ∀ x, P.Feasible x → ∃ y, P'.Feasible y ∧ P'.cost y = P.cost x := by
    intro x hx
    have hy := hP.restrict hP' hN he hC.mp hx
    refine ⟨_, hy, ?_⟩
    rw [hP'.cost _ hy, hP.cost _ hx, tableOf_withoutApplication hN he]
    exact congrArg Nat.cast (((hP.feasible x).mp hx).2.1.totalCost_restrict hidle)
  have hback : ∀ y, P'.Feasible y → ∃ x, P.Feasible x ∧ P.cost x = P'.cost y :=
    fun y hy => hP.extend hP' hidle hC.mpr hy
  constructor
  · constructor
    · rintro ⟨x, hx⟩
      exact ⟨_, hP.restrict hP' hN he hC.mp hx⟩
    · rintro ⟨y, hy⟩
      obtain ⟨x, hx, -⟩ := hback y hy
      exact ⟨x, hx⟩
  · intro c
    constructor
    · rintro ⟨x, hx, rfl⟩
      exact hx.exists_of_correspondence hforth hback
    · rintro ⟨y, hy, rfl⟩
      exact hy.exists_of_correspondence hback hforth
  · intro x hx l hl
    obtain ⟨hnatural, hadmissible, -⟩ := (hP.feasible x).mp hx
    have hzero : tableOf N nL x ⟨i, hi⟩ ⟨l, hl⟩ = 0 := hadmissible.eq_zero hpending ⟨l, hl⟩
    rw [← hN, hnatural _ (variable_lt hi hl)]
    exact_mod_cast hzero
  · exact fun x hx => hP.restrict hP' hN he hC.mp hx

end

/-! ## Inserting an application -/

section

variable (before after : List Application) (b : Application)

theorem getElem?_skip {α : Type} (before after : List α) (b : α) (a : ℕ) :
    (before ++ b :: after)[skip before.length a]? = (before ++ after)[a]? := by
  unfold skip
  split_ifs with h
  · rw [List.getElem?_append_left h, List.getElem?_append_left h]
  · have hright : a + 1 - before.length = (a - before.length) + 1 := by omega
    rw [List.getElem?_append_right (by omega), List.getElem?_append_right (by omega), hright,
      List.getElem?_cons_succ]

theorem length_inserted : (before ++ b :: after).length = (before ++ after).length + 1 := by
  simp only [List.length_append, List.length_cons, Nat.add_assoc]

/-- Where the other applications are once `b` has been inserted. -/
def others : Fin (before ++ after).length ↪ Fin (before ++ b :: after).length where
  toFun a := ⟨skip before.length a, length_inserted before after b ▸ skip_lt a.isLt⟩
  inj' _ _ h := Fin.ext (skip_injective before.length (congrArg Fin.val h))

theorem getElem_others (a : Fin (before ++ after).length) :
    (before ++ b :: after)[others before after b a] = (before ++ after)[a] := by
  have h := getElem?_skip before after b a
  rw [List.getElem?_eq_getElem a.isLt] at h
  exact (List.getElem?_eq_some_iff.mp h).2

variable {before after b}

/-- The condition of the linear program on the applications without packets. -/
theorem idle_requirements_iff (hidle : b.pendingpackets = []) :
    (∀ app ∈ before ++ b :: after, app.pendingpackets = [] → app.getRequiredDataRate = 0) ↔
      b.getRequiredDataRate = 0 ∧
        ∀ app ∈ before ++ after, app.pendingpackets = [] → app.getRequiredDataRate = 0 := by
  simp only [List.mem_append, List.mem_cons]
  constructor
  · intro h
    exact ⟨h b (.inr (.inl rfl)) hidle, fun app happ => h app (happ.imp_right .inr)⟩
  · rintro ⟨hb, h⟩ app (happ | rfl | happ) hnone
    · exact h app (.inl happ) hnone
    · exact hb
    · exact h app (.inr happ) hnone

/-- An application without packets has no influence on the reactive program. It has none on the
linear program exactly when it requires no data rate, unless the others have no solution either. -/
theorem uninfluenced_by_idle (now : Time) (ifaces : List ISPInterface)
    (hidle : b.pendingpackets = []) :
    Uninfluenced before.length (before ++ after).length ifaces.length
        (ReactiveStrategy.program now (before ++ b :: after) ifaces)
        (ReactiveStrategy.program now (before ++ after) ifaces) ∧
      (Uninfluenced before.length (before ++ after).length ifaces.length
          (LinearStrategy.program (before ++ b :: after) ifaces)
          (LinearStrategy.program (before ++ after) ifaces) ↔
        ((∃ y, (LinearStrategy.problem (before ++ after) ifaces).Admissible y) →
          (∀ app ∈ before ++ after, app.pendingpackets = [] → app.getRequiredDataRate = 0) →
            b.getRequiredDataRate = 0)) := by
  have hlength := length_inserted before after b
  have hb : before.length < (before ++ b :: after).length := by
    simp only [List.length_append, List.length_cons]
    omega
  have hpending : (before ++ b :: after)[before.length].pendingpackets.length = 0 := by
    simp [hidle]
  have hreactive : ReactiveStrategy.problem now (before ++ after) ifaces =
      (ReactiveStrategy.problem now (before ++ b :: after) ifaces).onApplications
        (others before after b) := by
    simp only [ReactiveStrategy.problem, AssignmentProblem.onApplications, getElem_others]
  have hlinear : LinearStrategy.problem (before ++ after) ifaces =
      (LinearStrategy.problem (before ++ b :: after) ifaces).onApplications
        (others before after b) := by
    simp only [LinearStrategy.problem, AssignmentProblem.onApplications, getElem_others]
  have hP := LinearStrategy.expresses (before ++ b :: after) ifaces
  have hP' := LinearStrategy.expresses (before ++ after) ifaces
  constructor
  · exact (ReactiveStrategy.expresses now _ ifaces).uninfluenced
      (hreactive ▸ ReactiveStrategy.expresses now _ ifaces) hlength (fun _ => rfl) hb hpending
      Iff.rfl
  by_cases hrate : b.getRequiredDataRate = 0
  · refine ⟨fun _ _ _ => hrate, fun _ => ?_⟩
    refine hP.uninfluenced (hlinear ▸ hP') hlength (fun _ => rfl) hb hpending ?_
    rw [idle_requirements_iff hidle, and_iff_right hrate]
  · have hnone : ∀ x, ¬ (LinearStrategy.program (before ++ b :: after) ifaces).Feasible x :=
      fun x hx => hrate ((idle_requirements_iff hidle).mp ((hP.feasible x).mp hx).2.2).1
    constructor
    · intro h hadmissible hzero
      obtain ⟨x, hx⟩ := h.feasible.mpr (hP'.exists_feasible_iff.mpr ⟨hadmissible, hzero⟩)
      exact absurd hx (hnone x)
    · intro h
      refine .of_infeasible hnone fun y hy => ?_
      obtain ⟨hadmissible, hzero⟩ := hP'.exists_feasible_iff.mp ⟨y, hy⟩
      exact hrate (h hadmissible hzero)

/-- An application without packets, which requires `requiredDataRate`. -/
def idleApplication (requiredDataRate : ℕ) : Application :=
  .static {
    applicationId := 1
    requiredDelay := 100
    errorRate := 5
    amountOfPacketsToSend := 0
    requiredDataRate := requiredDataRate
    allPacketsGenerated := true }

def sampleLink : ISPInterface where
  interfaceId := 1
  netDevice := ⟨2048, 10, 0⟩
  outgoingAddress := ⟨1, Utils.connectionPort⟩
  destinationAddress := ⟨0, Utils.connectionPort⟩
  errorModel := 0
  cost := 1

theorem uninfluenced_by_idle_sample :
    Uninfluenced 0 0 1 (ReactiveStrategy.program 1 [idleApplication 1024] [sampleLink])
        (ReactiveStrategy.program 1 [] [sampleLink]) ∧
      (Uninfluenced 0 0 1 (LinearStrategy.program [idleApplication 1024] [sampleLink])
          (LinearStrategy.program [] [sampleLink]) ↔
        ((∃ y, (LinearStrategy.problem [] [sampleLink]).Admissible y) →
          (∀ app : Application, app ∈ [] → app.pendingpackets = [] →
            app.getRequiredDataRate = 0) →
              (idleApplication 1024).getRequiredDataRate = 0)) :=
  @uninfluenced_by_idle [] [] (idleApplication 1024) 1 [sampleLink] rfl

/-- The bandwidth row of the only application reads `1024 ≤ 0`. -/
theorem uninfluenced_by_idle_counterexample :
    (idleApplication 1024).pendingpackets = [] ∧
      (∃ y, (LinearStrategy.program [] [sampleLink]).Feasible y) ∧
      ¬ ∃ x, (LinearStrategy.program [idleApplication 1024] [sampleLink]).Feasible x := by
  refine ⟨rfl, ⟨fun _ => 0, ?_⟩, ?_⟩
  · rw [LinearStrategy.feasible_iff]
    exact ⟨fun v hv => absurd hv (by simp), ⟨fun a => a.elim0, fun _ => le_top,
      fun a => a.elim0, fun a => a.elim0, fun a => a.elim0⟩, fun a => a.elim0⟩
  · rintro ⟨x, hx⟩
    obtain ⟨-, -, hzero⟩ := (LinearStrategy.feasible_iff _ _ _).mp hx
    exact absurd (hzero ⟨0, by decide⟩ rfl) (by decide)

end

end SdWan
