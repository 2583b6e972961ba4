import Mathlib.Data.Finset.Card
import Mathlib.Data.List.Sort
import Mathlib.Data.List.Pairwise
import Mathlib.Data.List.Perm.Basic
import Mathlib.Algebra.Order.BigOperators.Group.List
import Mathlib.Algebra.Order.Group.Nat
import Mathlib.Algebra.GroupWithZero.Nat
/-!
# Finite maps, their sums, and stable sorting

`Map K V` is the standard library's extensional ordered map, used both for hash maps (whose
iteration order means nothing) and for ordered maps. Added here: look-ups decided by equality
of keys, `retain`, sums of a measure over all values, and the stable sort of a list by a comparison or a key.
-/

/-- A finite map with ordered keys; two maps with equal look-ups are equal. -/
abbrev Map (K V : Type) [Ord K] := Std.ExtTreeMap K V compare

/-- A finite set of ordered keys; two sets with the same members are equal. -/
abbrev KeySet (K : Type) [Ord K] := Std.ExtTreeSet K compare

-- Pairs as keys are compared lexicographically.
attribute [instance] lexOrd

namespace Map

theorem compare_eq_iff {K : Type} [Ord K] [Std.LawfulEqOrd K] (a b : K) : compare a b = .eq ↔ a = b :=
  Std.LawfulEqCmp.compare_eq_iff_eq

variable {K V : Type} [Ord K] [Std.TransOrd K] [Std.LawfulEqOrd K]

theorem get_insert_self (m : Map K V) (k : K) (v : V) : (m.insert k v)[k]? = some v := by
  simp

theorem get_insert_ne (m : Map K V) {k a : K} (v : V) (h : k ≠ a) :
    (m.insert k v)[a]? = m[a]? := by
  rw [Std.ExtTreeMap.getElem?_insert, if_neg]
  rwa [compare_eq_iff]

theorem get_erase_self (m : Map K V) (k : K) : (m.erase k)[k]? = none := by
  simp

theorem get_erase_ne (m : Map K V) {k a : K} (h : k ≠ a) : (m.erase k)[a]? = m[a]? := by
  rw [Std.ExtTreeMap.getElem?_erase, if_neg]
  rwa [compare_eq_iff]

theorem mem_toList {m : Map K V} {k : K} {v : V} : (k, v) ∈ m.toList ↔ m[k]? = some v :=
  Std.ExtTreeMap.mem_toList_iff_getElem?_eq_some

theorem nodup_keys_toList (m : Map K V) : (m.toList.map Prod.fst).Nodup := by
  rw [List.Nodup, List.pairwise_map]
  refine List.Pairwise.imp ?_ (Std.ExtTreeMap.distinct_keys_toList (t := m))
  intro a b h e
  exact h (by rw [compare_eq_iff]; exact e)

theorem nodup_toList (m : Map K V) : m.toList.Nodup := (nodup_keys_toList m).of_map _

/-- Maps are determined by their look-ups. -/
theorem ext_get {m n : Map K V} (h : ∀ k : K, m[k]? = n[k]?) : m = n :=
  Std.ExtTreeMap.ext_getElem? h

/-- Writing back the value a key has changes nothing. -/
theorem insert_get {m : Map K V} {k : K} {v : V} (h : m[k]? = some v) : m.insert k v = m := by
  apply ext_get
  intro a
  by_cases e : k = a
  · subst e; rw [get_insert_self, h]
  · rw [get_insert_ne m v e]

/-- Removing an absent key changes nothing. -/
theorem erase_of_none {m : Map K V} {k : K} (h : m[k]? = none) : m.erase k = m := by
  apply ext_get
  intro a
  by_cases e : k = a
  · subst e; rw [get_erase_self, h]
  · rw [get_erase_ne m e]

/-- Removing what was just written under a free key gives the map back. -/
theorem erase_insert {m : Map K V} {k : K} (v : V) (h : m[k]? = none) : (m.insert k v).erase k = m := by
  apply ext_get
  intro a
  by_cases e : k = a
  · subst e; rw [get_erase_self, h]
  · rw [get_erase_ne _ e, get_insert_ne _ _ e]

/-- Writing back what was just removed gives the map back. -/
theorem insert_erase {m : Map K V} {k : K} {v : V} (h : m[k]? = some v) : (m.erase k).insert k v = m := by
  apply ext_get
  intro a
  by_cases e : k = a
  · subst e; rw [get_insert_self, h]
  · rw [get_insert_ne _ _ e, get_erase_ne _ e]

/-- The later of two writes under one key is the one that counts. -/
theorem insert_insert (m : Map K V) (k : K) (u v : V) : (m.insert k u).insert k v = m.insert k v := by
  apply ext_get
  intro a
  by_cases e : k = a
  · subst e; simp
  · simp [get_insert_ne _ _ e]

omit [Std.LawfulEqOrd K] in
theorem size_insert_of_none {m : Map K V} {k : K} (v : V) (h : m[k]? = none) :
    (m.insert k v).size = m.size + 1 := by
  rw [Std.ExtTreeMap.size_insert, if_neg]
  rw [Std.ExtTreeMap.contains_eq_isSome_getElem?, h]
  simp

omit [Std.LawfulEqOrd K] in
theorem size_insert_of_some {m : Map K V} {k : K} {u : V} (v : V) (h : m[k]? = some u) :
    (m.insert k v).size = m.size := by
  rw [Std.ExtTreeMap.size_insert, if_pos]
  rw [Std.ExtTreeMap.contains_eq_isSome_getElem?, h]
  rfl

omit [Std.LawfulEqOrd K] in
theorem size_erase_of_some {m : Map K V} {k : K} {u : V} (h : m[k]? = some u) :
    (m.erase k).size + 1 = m.size := by
  have hmem : m.contains k = true := by
    rw [Std.ExtTreeMap.contains_eq_isSome_getElem?, h]
    rfl
  have hpos : m.size ≠ 0 := by
    rw [Ne, ← Std.ExtTreeMap.eq_empty_iff_size_eq_zero]
    rintro rfl
    simp at h
  rw [Std.ExtTreeMap.size_erase, if_pos hmem]
  omega

/-- Removing the keys of a list, one after the other. -/
theorem get_foldl_erase [DecidableEq K] (m : Map K V) (ks : List K) (a : K) :
    (ks.foldl (fun m k => m.erase k) m)[a]? = if a ∈ ks then none else m[a]? := by
  induction ks generalizing m with
  | nil => simp
  | cons k ks ih =>
    rw [List.foldl_cons, ih]
    by_cases e : k = a
    · subst e; simp
    · simp [get_erase_ne m e, Ne.symm e]

/-- Inserting entries of different keys, one after the other. -/
theorem get_foldl_insert {ps : List (K × V)} (hnodup : (ps.map Prod.fst).Nodup) (m : Map K V) {k : K} {v : V} :
    (ps.foldl (fun m p => m.insert p.1 p.2) m)[k]? = some v ↔
      (k, v) ∈ ps ∨ (k ∉ ps.map Prod.fst ∧ m[k]? = some v) := by
  induction ps generalizing m with
  | nil => simp
  | cons p ps ih =>
    rw [List.map_cons, List.nodup_cons] at hnodup
    rw [List.foldl_cons, ih hnodup.2, List.map_cons, List.mem_cons, List.mem_cons, not_or]
    by_cases hk : p.1 = k
    · subst hk
      have hnot : (p.1, v) ∉ ps := fun hmem => hnodup.1 (List.mem_map.mpr ⟨_, hmem, rfl⟩)
      rw [get_insert_self, Option.some.injEq]
      constructor
      · rintro (hmem | ⟨-, rfl⟩)
        · exact absurd hmem hnot
        · exact .inl (.inl rfl)
      · rintro ((heq | hmem) | ⟨hne, -⟩)
        · exact .inr ⟨hnodup.1, by rw [← heq]⟩
        · exact absurd hmem hnot
        · exact absurd rfl hne.1
    · have hne : (k, v) ≠ p := fun heq => hk (by rw [← heq])
      rw [get_insert_ne _ _ hk]
      simp [hne, Ne.symm hk]

/-- A map is put together from its entries in any order. -/
theorem foldl_insert_of_perm {ps : List (K × V)} {m : Map K V} (h : ps.Perm m.toList) :
    ps.foldl (fun m p => m.insert p.1 p.2) (∅ : Map K V) = m := by
  have hnodup : (ps.map Prod.fst).Nodup := (h.map Prod.fst).nodup_iff.mpr (nodup_keys_toList m)
  apply ext_get
  intro k
  ext v
  rw [get_foldl_insert hnodup, h.mem_iff, mem_toList]
  simp

/-- A set of present keys is no larger than the map. -/
theorem card_le_size [DecidableEq K] {m : Map K V} {s : Finset K} (h : ∀ k ∈ s, ∃ v, m[k]? = some v) :
    s.card ≤ m.size := by
  have hsub : s ⊆ (m.toList.map Prod.fst).toFinset := by
    intro k hk
    obtain ⟨v, hv⟩ := h k hk
    exact List.mem_toFinset.mpr (List.mem_map.mpr ⟨(k, v), mem_toList.mpr hv, rfl⟩)
  calc s.card ≤ (m.toList.map Prod.fst).toFinset.card := Finset.card_le_card hsub
    _ ≤ (m.toList.map Prod.fst).length := List.toFinset_card_le _
    _ = m.size := by rw [List.length_map, Std.ExtTreeMap.length_toList]

/-! ## Values that carry their key -/

/-- Every value is stored under its own key. -/
def KeyedBy (key : V → K) (m : Map K V) : Prop := ∀ (k : K) (v : V), m[k]? = some v → key v = k

theorem KeyedBy.insert {key : V → K} {m : Map K V} (h : KeyedBy key m) (v : V) : KeyedBy key (m.insert (key v) v) := by
  intro k w hw
  by_cases e : key v = k
  · subst e
    rw [get_insert_self] at hw
    cases hw
    rfl
  · rw [get_insert_ne _ _ e] at hw
    exact h k w hw

theorem KeyedBy.erase {key : V → K} {m : Map K V} (h : KeyedBy key m) (k : K) : KeyedBy key (m.erase k) := by
  intro a w hw
  by_cases e : k = a
  · rw [e, get_erase_self] at hw
    cases hw
  · rw [get_erase_ne _ e] at hw
    exact h a w hw

/-- The values then list the keys. -/
theorem KeyedBy.map_values {key : V → K} {m : Map K V} (h : KeyedBy key m) :
    (m.toList.map Prod.snd).map key = m.toList.map Prod.fst := by
  rw [List.map_map]
  refine List.map_congr_left ?_
  rintro ⟨k, v⟩ hk
  exact h k v (mem_toList.mp hk)

/-! ## Retaining

`retain` on a map or a set, as a function that reduces: the entries are listed, thinned out and put into a
new map. -/

section Retain
variable [DecidableEq K]

/-- A map is the map of its entries. -/
theorem ofList_toList (m : Map K V) : Std.ExtTreeMap.ofList m.toList compare = m := by
  apply ext_get
  intro k
  cases h : m[k]? with
  | none =>
    apply Std.ExtTreeMap.getElem?_ofList_of_contains_eq_false
    rw [← Bool.not_eq_true, List.contains_iff_mem, List.mem_map]
    rintro ⟨⟨_, v⟩, hv, rfl⟩
    rw [mem_toList.mp hv] at h
    cases h
  | some v =>
    exact Std.ExtTreeMap.getElem?_ofList_of_mem ((compare_eq_iff k k).mpr rfl) Std.ExtTreeMap.distinct_keys_toList
      (mem_toList.mpr h)

/-- Every entry with the value `f` leaves it, if any. -/
def retain (f : K → V → Option V) (m : Map K V) : Map K V :=
  .ofList (m.toList.filterMap fun p => (f p.1 p.2).map fun v => (p.1, v)) compare

theorem toList_retain (f : K → V → Option V) (m : Map K V) :
    (retain f m).toList = m.toList.filterMap fun p => (f p.1 p.2).map fun v => (p.1, v) := by
  rw [retain, ← Std.ExtTreeMap.toList_filterMap, ofList_toList]

theorem get_retain (f : K → V → Option V) (m : Map K V) (k : K) : (retain f m)[k]? = m[k]?.bind (f k) := by
  rw [retain, ← Std.ExtTreeMap.toList_filterMap, ofList_toList, Std.ExtTreeMap.getElem?_filterMap']

theorem size_retain_le (f : K → V → Option V) (m : Map K V) : (retain f m).size ≤ m.size := by
  rw [← Std.ExtTreeMap.length_toList, ← Std.ExtTreeMap.length_toList, toList_retain]
  exact List.length_filterMap_le _ _

/-- The entries whose key passes a test. -/
def retainKeys (p : K → Bool) (m : Map K V) : Map K V := retain (fun k v => if p k then some v else none) m

theorem get_retainKeys (p : K → Bool) (m : Map K V) (k : K) :
    (retainKeys p m)[k]? = if p k then m[k]? else none := by
  rw [retainKeys, get_retain]
  cases p k with
  | true => simp
  | false => simp

/-- The members of a set that pass a test. -/
def retainMembers (p : K → Bool) (s : KeySet K) : KeySet K := .ofList (s.toList.filter p) compare

theorem mem_retainMembers {p : K → Bool} {s : KeySet K} {k : K} : k ∈ retainMembers p s ↔ k ∈ s ∧ p k = true := by
  rw [retainMembers, Std.ExtTreeSet.mem_ofList, List.contains_iff_mem, List.mem_filter, Std.ExtTreeSet.mem_toList]

end Retain

/-! ## Sums over the values -/

/-- The sum of a measure over all values. -/
def sumOf (f : V → Nat) (m : Map K V) : Nat := (m.toList.map fun p => f p.2).sum

section Sums
variable [DecidableEq K]

/-- The entries under keys other than `k`. -/
def others (m : Map K V) (k : K) : List (K × V) := m.toList.filter fun p => decide (p.1 ≠ k)

theorem nodup_others (m : Map K V) (k : K) : (others m k).Nodup := (nodup_toList m).filter _

theorem mem_others {m : Map K V} {k a : K} {w : V} : (a, w) ∈ others m k ↔ m[a]? = some w ∧ a ≠ k := by
  simp [others]

theorem toList_perm_of_some {m : Map K V} {k : K} {v : V} (h : m[k]? = some v) :
    m.toList.Perm ((k, v) :: others m k) := by
  have hk : (k, v) ∉ others m k := fun hmem => (mem_others.mp hmem).2 rfl
  rw [List.perm_ext_iff_of_nodup (nodup_toList m) (List.nodup_cons.mpr ⟨hk, nodup_others m k⟩)]
  rintro ⟨a, w⟩
  rw [mem_toList, List.mem_cons, mem_others, Prod.mk.injEq]
  by_cases e : a = k
  · subst e
    simp [h, eq_comm]
  · simp [e]

theorem toList_perm_of_none {m : Map K V} {k : K} (h : m[k]? = none) :
    m.toList.Perm (others m k) := by
  rw [List.perm_ext_iff_of_nodup (nodup_toList m) (nodup_others m k)]
  rintro ⟨a, w⟩
  rw [mem_toList, mem_others]
  by_cases e : a = k
  · subst e; simp [h]
  · simp [e]

theorem others_insert_perm (m : Map K V) (k : K) (v : V) :
    (others (m.insert k v) k).Perm (others m k) := by
  rw [List.perm_ext_iff_of_nodup (nodup_others _ k) (nodup_others m k)]
  rintro ⟨a, w⟩
  rw [mem_others, mem_others]
  by_cases e : a = k
  · simp [e]
  · rw [get_insert_ne m v (Ne.symm e)]

/-- A new key adds one entry. -/
theorem toList_insert_perm {m : Map K V} {k : K} (v : V) (h : m[k]? = none) :
    (m.insert k v).toList.Perm ((k, v) :: m.toList) :=
  (toList_perm_of_some (get_insert_self m k v)).trans
    (((others_insert_perm m k v).trans (toList_perm_of_none h).symm).cons (k, v))

/-- Writing one entry changes the sum by the new value minus the replaced one. -/
theorem sumOf_insert (f : V → Nat) (m : Map K V) (k : K) (v : V) :
    sumOf f (m.insert k v) + (m[k]?.map f).getD 0 = sumOf f m + f v := by
  have hrest : ((others (m.insert k v) k).map fun p => f p.2).sum
      = ((others m k).map fun p => f p.2).sum := ((others_insert_perm m k v).map _).sum_eq
  have hnew : sumOf f (m.insert k v) = f v + ((others m k).map fun p => f p.2).sum := by
    rw [sumOf, ((toList_perm_of_some (get_insert_self m k v)).map _).sum_eq, List.map_cons,
      List.sum_cons, hrest]
  cases h : m[k]? with
  | none =>
    have hold : sumOf f m = ((others m k).map fun p => f p.2).sum :=
      ((toList_perm_of_none h).map _).sum_eq
    simp only [Option.map_none, Option.getD_none]
    omega
  | some u =>
    have hold : sumOf f m = f u + ((others m k).map fun p => f p.2).sum := by
      rw [sumOf, ((toList_perm_of_some h).map _).sum_eq, List.map_cons, List.sum_cons]
    simp only [Option.map_some, Option.getD_some]
    omega

theorem toList_erase_perm (m : Map K V) (k : K) : (m.erase k).toList.Perm (others m k) := by
  rw [List.perm_ext_iff_of_nodup (nodup_toList _) (nodup_others m k)]
  rintro ⟨a, w⟩
  rw [mem_toList, mem_others]
  by_cases e : a = k
  · simp [e]
  · simp [e, get_erase_ne m (Ne.symm e)]

/-- Removing one entry takes its value out of the sum. -/
theorem sumOf_erase (f : V → Nat) (m : Map K V) (k : K) :
    sumOf f (m.erase k) + (m[k]?.map f).getD 0 = sumOf f m := by
  have hrest : sumOf f (m.erase k) = ((others m k).map fun p => f p.2).sum :=
    ((toList_erase_perm m k).map _).sum_eq
  rw [hrest, sumOf]
  cases h : m[k]? with
  | none => simp [((toList_perm_of_none h).map _).sum_eq]
  | some u => simp [((toList_perm_of_some h).map _).sum_eq, Nat.add_comm]

/-- One value is at most the sum. -/
theorem le_sumOf (f : V → Nat) {m : Map K V} {k : K} {v : V} (h : m[k]? = some v) :
    f v ≤ sumOf f m := by
  rw [sumOf, ((toList_perm_of_some h).map _).sum_eq, List.map_cons, List.sum_cons]
  exact Nat.le_add_right _ _

/-- The values under two different keys are together at most the sum. -/
theorem add_le_sumOf (f : V → Nat) {m : Map K V} {k l : K} {v w : V} (hne : k ≠ l)
    (hk : m[k]? = some v) (hl : m[l]? = some w) : f v + f w ≤ sumOf f m := by
  have hmem : (l, w) ∈ others m k := mem_others.mpr ⟨hl, Ne.symm hne⟩
  have hle : f w ≤ ((others m k).map fun p => f p.2).sum :=
    List.single_le_sum (by simp) _ (List.mem_map.mpr ⟨(l, w), hmem, rfl⟩)
  rw [sumOf, ((toList_perm_of_some hk).map _).sum_eq, List.map_cons, List.sum_cons]
  exact Nat.add_le_add_left hle _

end Sums

end Map

/-! ## Stable sorting

A comparison that tells all elements of a list apart has exactly one increasing listing of them, whatever
the order it is computed from. -/

section Sorting
variable {α κ : Type}

/-- The stable sort of a list by a comparison (insertion sort is stable). -/
def sortBy (cmp : α → α → Ordering) (l : List α) : List α := l.insertionSort fun a b => (cmp a b).isLE = true

/-- The stable sort of a list by a key. -/
def sortByKey [Ord κ] (key : α → κ) (l : List α) : List α :=
  l.insertionSort fun a b => (compare (key a) (key b)).isLE = true

/-- The only increasing listing of the contents. -/
def UniqueListing (cmp : α → α → Ordering) (contents out : List α) : Prop :=
  ∀ l : List α, (l.Perm contents ∧ l.Pairwise fun a b => cmp a b = .lt) ↔ l = out

theorem UniqueListing.eq {cmp : α → α → Ordering} {contents out out' : List α} (h : UniqueListing cmp contents out)
    (h' : UniqueListing cmp contents out') : out = out' := (h' out).mp ((h out).mpr rfl)

theorem sortBy_perm (cmp : α → α → Ordering) (l : List α) : (sortBy cmp l).Perm l := List.perm_insertionSort _ l

theorem sortByKey_perm [Ord κ] (key : α → κ) (l : List α) : (sortByKey key l).Perm l :=
  List.perm_insertionSort _ l

section Comparison
variable {cmp : α → α → Ordering} [Std.TransCmp cmp]

theorem sorted_sortBy (l : List α) : (sortBy cmp l).Pairwise fun a b => (cmp a b).isLE = true := by
  let le : α → α → Prop := fun a b => (cmp a b).isLE = true
  have htot : Std.Total le := ⟨fun a b => by
    have hswap : cmp b a = (cmp a b).swap := Std.OrientedCmp.eq_swap
    simp only [le, hswap]
    cases cmp a b <;> simp⟩
  have htrans : IsTrans α le := ⟨fun a b c hab hbc => Std.TransCmp.isLE_trans hab hbc⟩
  exact List.pairwise_insertionSort le l

theorem sortBy_eq_of_perm {l l' : List α} (hp : l.Perm l') (h : l'.Pairwise fun a b => cmp a b = .lt) :
    sortBy cmp l = l' := by
  have hanti : ∀ a b, a ∈ sortBy cmp l → b ∈ l' → (cmp a b).isLE = true → (cmp b a).isLE = true → a = b := by
    intro a b ha hb hab hba
    by_contra hne
    have hswap : cmp b a = (cmp a b).swap := Std.OrientedCmp.eq_swap
    -- different elements of `l'` are ordered one way or the other
    have hsymm : Std.Symm fun a b => cmp a b = .lt ∨ cmp b a = .lt := ⟨fun _ _ => Or.symm⟩
    have hlt : cmp a b = .lt ∨ cmp b a = .lt :=
      (h.imp Or.inl : l'.Pairwise fun a b => cmp a b = .lt ∨ cmp b a = .lt).forall
        (hp.subset ((sortBy_perm cmp l).subset ha)) hb hne
    rw [hswap] at hlt hba
    revert hab hba hlt
    cases cmp a b <;> simp
  have hle : l'.Pairwise fun a b => (cmp a b).isLE = true := h.imp fun hab => by simp [hab]
  exact List.Perm.eq_of_pairwise hanti (sorted_sortBy l) hle ((sortBy_perm cmp l).trans hp)

/-- **Sorting does not depend on the order it starts from**, as long as the comparison tells the elements
apart. -/
theorem uniqueListing_sortBy {l contents : List α} (hp : l.Perm contents)
    (hne : contents.Pairwise fun a b => cmp a b ≠ .eq) : UniqueListing cmp contents (sortBy cmp l) := by
  have hperm : (sortBy cmp l).Perm contents := (sortBy_perm cmp l).trans hp
  have hdistinct : (sortBy cmp l).Pairwise fun a b => cmp a b ≠ .eq := by
    refine (hperm.pairwise_iff ?_).mpr hne
    intro a b hab hba
    exact hab (Std.OrientedCmp.eq_symm hba)
  have hlt : (sortBy cmp l).Pairwise fun a b => cmp a b = .lt := by
    refine ((sorted_sortBy l).and hdistinct).imp ?_
    rintro a b ⟨hle, hneq⟩
    revert hle hneq
    cases cmp a b <;> simp
  intro l'
  constructor
  · rintro ⟨hp', hlt'⟩
    exact (sortBy_eq_of_perm (hp.trans hp'.symm) hlt').symm
  · rintro rfl
    exact ⟨hperm, hlt⟩

/-- Where only equal elements compare as equal, lists sort to the same list exactly when they are
permutations of each other. -/
theorem sortBy_eq_iff [Std.LawfulEqCmp cmp] {l l' : List α} : sortBy cmp l = sortBy cmp l' ↔ l.Perm l' := by
  constructor
  · intro h
    exact (sortBy_perm cmp l).symm.trans (h ▸ sortBy_perm cmp l')
  · intro hp
    refine List.Perm.eq_of_pairwise ?_ (sorted_sortBy l) (sorted_sortBy l')
      (((sortBy_perm cmp l).trans hp).trans (sortBy_perm cmp l').symm)
    intro a b _ _ hab hba
    exact Std.LawfulEqCmp.eq_of_compare (Std.OrientedCmp.isLE_antisymm hab hba)

end Comparison

theorem transCmp_key [Ord κ] [Std.TransOrd κ] (key : α → κ) : Std.TransCmp fun a b => compare (key a) (key b) :=
  inferInstanceAs (Std.TransCmp (compareOn key))

/-- With distinct keys the sorted list is the increasing listing, whatever the order it is
computed from. -/
theorem sortByKey_eq_of_perm [Ord κ] [Std.TransOrd κ] (key : α → κ) {l l' : List α} (hp : l.Perm l')
    (h : l'.Pairwise fun a b => compare (key a) (key b) = .lt) : sortByKey key l = l' :=
  have := transCmp_key key
  sortBy_eq_of_perm hp h

theorem uniqueListing_sortByKey [Ord κ] [Std.TransOrd κ] [Std.LawfulEqOrd κ] (key : α → κ) {l contents : List α}
    (hp : l.Perm contents) (hnodup : (contents.map key).Nodup) :
    UniqueListing (fun a b => compare (key a) (key b)) contents (sortByKey key l) := by
  have := transCmp_key key
  refine uniqueListing_sortBy hp ?_
  rw [List.Nodup, List.pairwise_map] at hnodup
  exact hnodup.imp fun hab heq => hab ((Map.compare_eq_iff _ _).mp heq)

/-! ### The first minimum -/

/-- `Iterator::min_by`: the first minimum. -/
def minBy (cmp : α → α → Ordering) : List α → Option α
  | [] => none
  | x :: xs => some (xs.foldl (fun best y => if cmp y best = .lt then y else best) x)

theorem minBy_mem (cmp : α → α → Ordering) {l : List α} {x : α} (h : minBy cmp l = some x) : x ∈ l := by
  cases l with
  | nil => cases h
  | cons y ys =>
    rw [minBy, Option.some.injEq] at h
    -- the best so far is always the first element or one already passed
    have hbest : ∀ (zs : List α) (best : α),
        zs.foldl (fun best y => if cmp y best = .lt then y else best) best ∈ best :: zs := by
      intro zs
      induction zs with
      | nil => simp
      | cons z zs ih =>
        intro best
        rw [List.foldl_cons]
        split
        · exact List.mem_cons_of_mem _ (ih z)
        · rcases List.mem_cons.mp (ih best) with heq | hmem
          · rw [heq]
            exact List.mem_cons_self
          · exact List.mem_cons_of_mem _ (List.mem_cons_of_mem _ hmem)
    rw [← h]
    exact hbest ys y

theorem exists_minBy (cmp : α → α → Ordering) {l : List α} (h : l ≠ []) : ∃ x, minBy cmp l = some x := by
  cases l with
  | nil => exact absurd rfl h
  | cons x xs => exact ⟨_, rfl⟩

section
variable {cmp : α → α → Ordering} [Std.TransCmp cmp]

theorem minBy_le {l : List α} {x : α} (h : minBy cmp l = some x) : ∀ y ∈ l, (cmp x y).isLE = true := by
  cases l with
  | nil => cases h
  | cons y ys =>
    rw [minBy, Option.some.injEq] at h
    -- the best so far only goes down, and below everything passed
    have hbest : ∀ (zs : List α) (best : α), ∀ z ∈ best :: zs,
        (cmp (zs.foldl (fun best y => if cmp y best = .lt then y else best) best) z).isLE = true := by
      intro zs
      induction zs with
      | nil =>
        intro best z hz
        rw [List.mem_singleton.mp hz]
        exact Std.ReflCmp.isLE_rfl
      | cons y zs ih =>
        intro best z hz
        rw [List.foldl_cons]
        split
        · rename_i hlt
          rcases List.mem_cons.mp hz with rfl | hz
          · exact Std.TransCmp.isLE_trans (ih y y List.mem_cons_self) (by rw [hlt]; rfl)
          · exact ih y z hz
        · rename_i hge
          have hle : (cmp best y).isLE = true := by
            have hswap : cmp best y = (cmp y best).swap := Std.OrientedCmp.eq_swap
            rw [hswap]
            revert hge
            cases cmp y best <;> simp
          rcases List.mem_cons.mp hz with rfl | hz
          · exact ih z z List.mem_cons_self
          · rcases List.mem_cons.mp hz with rfl | hz
            · exact Std.TransCmp.isLE_trans (ih best best List.mem_cons_self) hle
            · exact ih best z (List.mem_cons_of_mem _ hz)
    rw [← h]
    exact hbest ys y

/-- **The minimum does not depend on the order of the list**, as long as the comparison tells the elements
apart. -/
theorem minBy_perm {l l' : List α} (hp : l.Perm l') (hne : l'.Pairwise fun a b => cmp a b ≠ .eq) :
    minBy cmp l = minBy cmp l' := by
  cases hx : minBy cmp l with
  | none =>
    cases l with
    | nil => rw [List.nil_perm.mp hp, minBy]
    | cons y ys => cases hx
  | some x =>
    have hmem := hp.subset (minBy_mem cmp hx)
    obtain ⟨y, hy⟩ := exists_minBy cmp (List.ne_nil_of_mem hmem)
    have hxy := minBy_le hx y (hp.symm.subset (minBy_mem cmp hy))
    have hyx := minBy_le hy x hmem
    have heq : cmp x y = .eq := by
      have hswap : cmp y x = (cmp x y).swap := Std.OrientedCmp.eq_swap
      rw [hswap] at hyx
      revert hxy hyx
      cases cmp x y <;> simp
    rw [hy, Option.some.injEq]
    by_contra hxy
    have hsymm : Std.Symm fun a b => cmp a b ≠ .eq := ⟨fun _ _ h e => h (Std.OrientedCmp.eq_symm e)⟩
    exact hne.forall hmem (minBy_mem cmp hy) hxy heq

end

end Sorting
