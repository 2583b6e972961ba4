import Subhost.Lib.Map
/-!
# Bucketed collections and their indexes

A collection kept as a map from a key to the list of the elements filed under it, the way
`entry(k).or_default().push(a)` builds one. `contents` is the collection itself, and the operations
are described by what they do to it: filing an element adds it, thinning the buckets out filters it.

An index is a second map that gives, for every element, one of its values under one of its keys.
`Indexes` says so by a single equivalence, and is kept by the matching operations on both sides.
-/
namespace Buckets

variable {K α : Type} [Ord K] [Std.TransOrd K]

/-- All elements, bucket by bucket. -/
def contents (m : Map K (List α)) : List α := m.toList.flatMap Prod.snd

/-- `entry(k).or_default().push(a)`. -/
def push (m : Map K (List α)) (k : K) (a : α) : Map K (List α) := m.insert k (m[k]?.getD [] ++ [a])

variable [Std.LawfulEqOrd K]

theorem mem_contents {m : Map K (List α)} {a : α} :
    a ∈ contents m ↔ ∃ (k : K) (l : List α), m[k]? = some l ∧ a ∈ l := by
  constructor
  · intro ha
    obtain ⟨⟨k, l⟩, hkl, ha⟩ := List.mem_flatMap.mp ha
    exact ⟨k, l, Map.mem_toList.mp hkl, ha⟩
  · rintro ⟨k, l, hkl, ha⟩
    exact List.mem_flatMap.mpr ⟨(k, l), Map.mem_toList.mpr hkl, ha⟩

theorem contents_empty : contents (∅ : Map K (List α)) = [] := by simp [contents]

theorem get_push_self (m : Map K (List α)) (k : K) (a : α) : (push m k a)[k]? = some (m[k]?.getD [] ++ [a]) :=
  Map.get_insert_self _ _ _

theorem get_push_ne (m : Map K (List α)) {k l : K} (a : α) (h : k ≠ l) : (push m k a)[l]? = m[l]? :=
  Map.get_insert_ne _ _ h

/-- Filing an element adds it to the collection. -/
theorem contents_push [DecidableEq K] (m : Map K (List α)) (k : K) (a : α) :
    (contents (push m k a)).Perm (a :: contents m) := by
  have hrest : ((Map.others (push m k a) k).flatMap Prod.snd).Perm ((Map.others m k).flatMap Prod.snd) :=
    (Map.others_insert_perm m k _).flatMap_right _
  have hnew : (contents (push m k a)).Perm ((m[k]?.getD [] ++ [a]) ++ (Map.others m k).flatMap Prod.snd) := by
    refine ((Map.toList_perm_of_some (get_push_self m k a)).flatMap_right _).trans ?_
    rw [List.flatMap_cons]
    exact hrest.append_left _
  have hold : (m[k]?.getD [] ++ (Map.others m k).flatMap Prod.snd).Perm (contents m) := by
    cases h : m[k]? with
    | none => exact ((Map.toList_perm_of_none h).flatMap_right _).symm
    | some l =>
      have hsplit := (Map.toList_perm_of_some h).flatMap_right Prod.snd
      rw [List.flatMap_cons] at hsplit
      exact hsplit.symm
  refine hnew.trans ?_
  rw [List.append_assoc, List.singleton_append]
  exact List.perm_middle.trans (hold.cons a)

/-- Thinning out every bucket by one test thins out the collection by it. -/
theorem contents_retain [DecidableEq K] {m : Map K (List α)} {f : K → List α → Option (List α)} {keep : α → Bool}
    (h : ∀ p ∈ m.toList, (f p.1 p.2).getD [] = p.2.filter keep) :
    contents (m.retain f) = (contents m).filter keep := by
  have hlist : ∀ l : List (K × List α), (∀ p ∈ l, (f p.1 p.2).getD [] = p.2.filter keep) →
      (l.filterMap fun p => (f p.1 p.2).map fun x => (p.1, x)).flatMap Prod.snd = (l.flatMap Prod.snd).filter keep := by
    intro l
    induction l with
    | nil => intro _; rfl
    | cons p l ih =>
      intro hl
      rw [List.forall_mem_cons] at hl
      rw [List.flatMap_cons, List.filter_append, ← hl.1, ← ih hl.2]
      cases hf : f p.1 p.2 with
      | none => simp [hf]
      | some x => simp [hf]
  rw [contents, Map.toList_retain]
  exact hlist m.toList h

end Buckets

/-! ## Indexes -/

section Indexes
variable {K V α : Type} [Ord K] [Std.TransOrd K]

/-- The map gives every element's value under the element's key, and nothing else. -/
def Indexes (key : α → K) (val : α → V) (l : List α) (m : Map K V) : Prop :=
  ∀ k x, m[k]? = some x ↔ ∃ a ∈ l, key a = k ∧ val a = x

namespace Indexes
variable {key : α → K} {val : α → V} {l l' : List α} {m m' : Map K V}

theorem empty : Indexes key val [] (∅ : Map K V) := by
  intro k x
  simp

theorem of_perm (h : Indexes key val l m) (hp : l.Perm l') : Indexes key val l' m := by
  intro k x
  rw [h k x]
  simp only [hp.mem_iff]

theorem isSome_iff (h : Indexes key val l m) (k : K) : m[k]?.isSome = true ↔ k ∈ l.map key := by
  rw [Option.isSome_iff_exists, List.mem_map]
  constructor
  · rintro ⟨x, hx⟩
    obtain ⟨a, ha, hk, -⟩ := (h k x).mp hx
    exact ⟨a, ha, hk⟩
  · rintro ⟨a, ha, hk⟩
    exact ⟨val a, (h k _).mpr ⟨a, ha, hk, rfl⟩⟩

theorem contains_iff (h : Indexes key val l m) (k : K) : m.contains k = true ↔ k ∈ l.map key := by
  rw [Std.ExtTreeMap.contains_eq_isSome_getElem?, h.isSome_iff]

theorem get_eq_none_iff (h : Indexes key val l m) (k : K) : m[k]? = none ↔ k ∉ l.map key := by
  rw [← h.isSome_iff, Bool.not_eq_true, Option.isSome_eq_false_iff, Option.isNone_iff_eq_none]

theorem get (h : Indexes key val l m) {a : α} (ha : a ∈ l) : m[key a]? = some (val a) :=
  (h _ _).mpr ⟨a, ha, rfl, rfl⟩

variable [Std.LawfulEqOrd K]

/-- A new element is indexed by writing its entry. -/
theorem insert (h : Indexes key val l m) {a : α} (hnew : m[key a]? = none) :
    Indexes key val (a :: l) (m.insert (key a) (val a)) := by
  intro k x
  by_cases e : key a = k
  · subst e
    have hold : ¬ ∃ b ∈ l, key b = key a ∧ val b = x := by
      rw [← h, hnew]
      simp
    rw [Map.get_insert_self, Option.some.injEq]
    simp only [List.exists_mem_cons_iff, hold, true_and, or_false]
  · rw [Map.get_insert_ne _ _ e, h k x]
    simp only [List.exists_mem_cons_iff, e, false_and, false_or]

/-- Keeping the entries of some keys indexes the elements with those keys. -/
theorem filter [DecidableEq K] (h : Indexes key val l m) {p : K → Bool} {q : α → Bool}
    (hpq : ∀ a ∈ l, p (key a) = q a) :
    Indexes key val (l.filter q) (m.retainKeys p) := by
  intro k x
  rw [Map.get_retainKeys, Option.ite_none_right_eq_some, and_comm, h k x]
  constructor
  · rintro ⟨⟨a, ha, rfl, rfl⟩, hp⟩
    exact ⟨a, List.mem_filter.mpr ⟨ha, hpq a ha ▸ hp⟩, rfl, rfl⟩
  · rintro ⟨a, ha, rfl, rfl⟩
    obtain ⟨ha, hq⟩ := List.mem_filter.mp ha
    exact ⟨⟨a, ha, rfl, rfl⟩, (hpq a ha).trans hq⟩

/-- The keys of an index list the keys of its elements. -/
theorem keys_perm (h : Indexes key val l m) (hnodup : (l.map key).Nodup) :
    (m.toList.map Prod.fst).Perm (l.map key) := by
  rw [List.perm_ext_iff_of_nodup (Map.nodup_keys_toList m) hnodup]
  intro k
  rw [← h.isSome_iff k, Option.isSome_iff_exists, List.mem_map]
  constructor
  · rintro ⟨⟨_, x⟩, hx, rfl⟩
    exact ⟨x, Map.mem_toList.mp hx⟩
  · rintro ⟨x, hx⟩
    exact ⟨(k, x), Map.mem_toList.mpr hx, rfl⟩

/-- An index is determined by the collection. -/
theorem unique (h : Indexes key val l m) (h' : Indexes key val l' m') (hp : l.Perm l') : m = m' := by
  apply Map.ext_get
  intro k
  apply Option.ext
  intro x
  rw [h.of_perm hp k x, h' k x]

end Indexes
end Indexes

/-- With distinct keys, the key of an element is among the keys of the selected ones exactly when the
element is selected. -/
theorem mem_map_filter_iff {K α : Type} {key : α → K} {l : List α} (h : (l.map key).Nodup) (q : α → Bool) {a : α}
    (ha : a ∈ l) : key a ∈ (l.filter q).map key ↔ q a = true := by
  rw [List.mem_map]
  constructor
  · rintro ⟨b, hb, hkey⟩
    obtain ⟨hb, hq⟩ := List.mem_filter.mp hb
    rwa [← List.inj_on_of_nodup_map h hb ha hkey]
  · intro hq
    exact ⟨a, List.mem_filter.mpr ⟨ha, hq⟩, rfl⟩
