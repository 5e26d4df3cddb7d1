import Mathlib.Tactic

/-!
# Grouping by a key

The values with the same key are collected in an ordered map, in which only the keys that occur
have an entry.
-/

namespace Grouping

/-- Collecting the values of some distinct keys, one key after the other, permutes them. -/
theorem flatMap_filter_perm {K V : Type} [DecidableEq K] (key : V → K) (vs : List V)
    {ks : List K} (hks : ks.Nodup) :
    (ks.flatMap fun k => vs.filter fun v => decide (key v = k)).Perm
      (vs.filter fun v => decide (key v ∈ ks)) := by
  induction ks with
  | nil => simp
  | cons k ks ih =>
    obtain ⟨hk, hks⟩ := List.nodup_cons.mp hks
    have hfirst : (vs.filter fun v => decide (key v ∈ k :: ks)).filter
        (fun v => decide (key v = k)) = vs.filter fun v => decide (key v = k) := by
      rw [List.filter_filter]
      refine List.filter_congr fun v _ => ?_
      by_cases hv : key v = k <;> simp [hv]
    have hrest : (vs.filter fun v => decide (key v ∈ k :: ks)).filter
        (fun v => !decide (key v = k)) = vs.filter fun v => decide (key v ∈ ks) := by
      rw [List.filter_filter]
      refine List.filter_congr fun v _ => ?_
      by_cases hv : key v = k <;> simp [hv, hk]
    have hsplit := List.filter_append_perm (fun v => decide (key v = k))
      (vs.filter fun v => decide (key v ∈ k :: ks))
    rw [hfirst, hrest] at hsplit
    rw [List.flatMap_cons]
    exact ((ih hks).append_left _).trans hsplit

variable {K V : Type} [Ord K] [Std.TransOrd K] [Std.LawfulEqOrd K]

def pushBack (key : V → K) (groups : Std.TreeMap K (List V)) (v : V) : Std.TreeMap K (List V) :=
  groups.insert (key v) (groups.getD (key v) [] ++ [v])

def group (key : V → K) (vs : List V) : Std.TreeMap K (List V) := vs.foldl (pushBack key) ∅

theorem mem_foldl_pushBack (key : V → K) (vs : List V) (groups : Std.TreeMap K (List V))
    (k : K) : k ∈ vs.foldl (pushBack key) groups ↔ k ∈ groups ∨ ∃ v ∈ vs, key v = k := by
  induction vs generalizing groups with
  | nil => simp
  | cons v vs ih =>
    rw [List.foldl_cons, ih, pushBack, Std.TreeMap.mem_insert, Std.compare_eq_iff_eq,
      List.exists_mem_cons_iff]
    tauto

theorem mem_group {key : V → K} {vs : List V} {k : K} :
    k ∈ group key vs ↔ ∃ v ∈ vs, key v = k := by
  rw [group, mem_foldl_pushBack]
  simp

variable [DecidableEq K]

theorem getD_foldl_pushBack (key : V → K) (vs : List V) (groups : Std.TreeMap K (List V))
    (k : K) : (vs.foldl (pushBack key) groups).getD k [] =
      groups.getD k [] ++ vs.filter fun v => decide (key v = k) := by
  induction vs generalizing groups with
  | nil => simp
  | cons v vs ih =>
    rw [List.foldl_cons, ih, pushBack, Std.TreeMap.getD_insert]
    by_cases hk : key v = k
    · rw [if_pos (Std.compare_eq_iff_eq.mpr hk), List.filter_cons_of_pos (by simpa using hk),
        List.append_assoc, List.singleton_append, hk]
    · rw [if_neg (fun h => hk (Std.compare_eq_iff_eq.mp h)),
        List.filter_cons_of_neg (by simpa using hk)]

/-- The entry of a key are the values with the key, in their order, if there are any. -/
theorem getElem?_group (key : V → K) (vs : List V) (k : K) :
    (group key vs)[k]? =
      if ∃ v ∈ vs, key v = k then some (vs.filter fun v => decide (key v = k)) else none := by
  have hgetD : (group key vs).getD k [] = vs.filter fun v => decide (key v = k) := by
    rw [group, getD_foldl_pushBack, Std.TreeMap.getD_emptyc, List.nil_append]
  split_ifs with hk
  · rw [Std.TreeMap.getElem?_eq_some_getD (mem_group.mpr hk), hgetD]
  · exact Std.TreeMap.getElem?_eq_none fun hmem => hk (mem_group.mp hmem)

theorem mem_toList_group {key : V → K} {vs g : List V} {k : K} :
    (k, g) ∈ (group key vs).toList ↔
      (∃ v ∈ vs, key v = k) ∧ g = vs.filter fun v => decide (key v = k) := by
  rw [Std.TreeMap.mem_toList_iff_getElem?_eq_some, getElem?_group]
  split_ifs with hk
  · rw [Option.some.injEq, eq_comm]
    exact (and_iff_right hk).symm
  · exact iff_of_false (by simp) fun h => hk h.1

theorem toList_group (key : V → K) (vs : List V) :
    (group key vs).toList =
      (group key vs).keys.map fun k => (k, vs.filter fun v => decide (key v = k)) := by
  rw [← Std.TreeMap.map_fst_toList_eq_keys, List.map_map]
  refine (List.map_id _).symm.trans (List.map_congr_left fun g hg => ?_)
  exact Prod.ext rfl (mem_toList_group.mp hg).2

/-- Every value is in one group. -/
theorem flatMap_toList_group (key : V → K) (vs : List V) :
    ((group key vs).toList.flatMap Prod.snd).Perm vs := by
  have hall : (vs.filter fun v => decide (key v ∈ (group key vs).keys)) = vs := by
    refine List.filter_eq_self.mpr fun v hv => decide_eq_true ?_
    exact Std.TreeMap.mem_keys.mpr (mem_group.mpr ⟨v, hv, rfl⟩)
  have hperm := flatMap_filter_perm key vs (group key vs).nodup_keys
  rw [hall] at hperm
  rw [toList_group, List.flatMap_map]
  exact hperm

end Grouping
