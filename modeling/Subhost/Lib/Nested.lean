import Subhost.Lib.Map
/-!
# Maps of maps

A map under two keys kept as an outer map of inner maps. Removing an entry may leave an empty
inner map behind (`vacate`) or take it away with its last entry (`prune`). Where no inner map is
empty (`Compact`), the two-key look-up determines the whole map.
-/
namespace Nested

variable {A N V : Type} [Ord A] [Ord N]

section Operations
variable [Std.TransOrd A] [Std.TransOrd N]

/-- The value under two keys. -/
def look (m : Map A (Map N V)) (a : A) (n : N) : Option V := (m[a]?).bind fun inner => inner[n]?

/-- How many entries share the first key. -/
def width (m : Map A (Map N V)) (a : A) : Nat := ((m[a]?).map fun inner => inner.size).getD 0

def put (m : Map A (Map N V)) (a : A) (n : N) (v : V) : Map A (Map N V) :=
  m.insert a (((m[a]?).getD ∅).insert n v)

/-- Remove one entry, keeping its inner map even when empty. -/
def vacate (m : Map A (Map N V)) (a : A) (n : N) : Map A (Map N V) :=
  match m[a]? with
  | none => m
  | some inner => m.insert a (inner.erase n)

/-- Remove one entry, and its inner map with the last one. -/
def prune (m : Map A (Map N V)) (a : A) (n : N) : Map A (Map N V) :=
  match m[a]? with
  | none => m
  | some inner => if (inner.erase n).isEmpty then m.erase a else m.insert a (inner.erase n)

/-- Keep only some entries of one inner map, and no empty inner map. -/
def restrict (m : Map A (Map N V)) (a : A) (keep : N → Bool) : Map A (Map N V) :=
  match m[a]? with
  | none => m
  | some inner =>
    if (inner.filter fun n _ => keep n).isEmpty then m.erase a else m.insert a (inner.filter fun n _ => keep n)

/-- The entries under a first key, in the order of the second. -/
def row (m : Map A (Map N V)) (a : A) : List (N × V) := (m[a]?).elim [] fun inner => inner.toList

/-- No inner map is empty, except perhaps under the keys of `except`. -/
def CompactBut (except : A → Prop) (m : Map A (Map N V)) : Prop :=
  ∀ a inner, ¬ except a → m[a]? = some inner → inner.isEmpty = false

abbrev Compact (m : Map A (Map N V)) : Prop := CompactBut (fun _ => False) m

end Operations

variable [Std.TransOrd A] [Std.LawfulEqOrd A] [Std.TransOrd N]

theorem look_put [Std.LawfulEqOrd N] [DecidableEq A] [DecidableEq N]
    (m : Map A (Map N V)) (a b : A) (n l : N) (v : V) :
    look (put m a n v) b l = if a = b ∧ n = l then some v else look m b l := by
  by_cases hab : a = b
  · subst hab
    by_cases hnl : n = l
    · subst hnl
      simp [look, put]
    · simp only [look, put, Map.get_insert_self, Option.bind_some, Map.get_insert_ne _ _ hnl, hnl,
        and_false, if_false]
      cases m[a]? <;> simp
  · simp [look, put, Map.get_insert_ne _ _ hab, hab]

/-- Putting what is there changes nothing. -/
theorem put_look {m : Map A (Map N V)} [Std.LawfulEqOrd N] {a : A} {n : N} {v : V} (h : look m a n = some v) :
    put m a n v = m := by
  obtain ⟨inner, hinner, hv⟩ := Option.bind_eq_some_iff.mp h
  rw [put, hinner, Option.getD_some, Map.insert_get hv]
  exact Map.insert_get hinner

theorem look_vacate [Std.LawfulEqOrd N] [DecidableEq A] [DecidableEq N]
    (m : Map A (Map N V)) (a b : A) (n l : N) :
    look (vacate m a n) b l = if a = b ∧ n = l then none else look m b l := by
  unfold vacate
  cases hm : m[a]? with
  | none =>
    by_cases hab : a = b
    · subst hab
      simp [look, hm]
    · simp [hab]
  | some inner =>
    by_cases hab : a = b
    · subst hab
      by_cases hnl : n = l
      · subst hnl
        simp [look]
      · simp [look, hm, Map.get_erase_ne _ hnl, hnl]
    · simp [look, Map.get_insert_ne _ _ hab, hab]

/-- Whether an emptied inner map stays or goes makes no difference to the look-ups. -/
theorem look_prune_eq_vacate (m : Map A (Map N V)) (a : A) (n : N) :
    look (prune m a n) = look (vacate m a n) := by
  funext b l
  unfold prune vacate
  cases hm : m[a]? with
  | none => rfl
  | some inner =>
    dsimp only
    split
    case isFalse => rfl
    case isTrue hempty =>
      have hnone : (inner.erase n)[l]? = none := by
        rw [Std.ExtTreeMap.isEmpty_iff.mp hempty]
        simp
      by_cases hab : a = b
      · subst hab
        simp [look, hnone]
      · simp [look, Map.get_erase_ne _ hab, Map.get_insert_ne _ _ hab]

theorem look_prune [Std.LawfulEqOrd N] [DecidableEq A] [DecidableEq N]
    (m : Map A (Map N V)) (a b : A) (n l : N) :
    look (prune m a n) b l = if a = b ∧ n = l then none else look m b l := by
  rw [look_prune_eq_vacate, look_vacate]

/-! ## How many entries share a first key -/

theorem width_put_self {m : Map A (Map N V)} {a : A} {n : N} (v : V) (h : look m a n = none) :
    width (put m a n v) a = width m a + 1 := by
  unfold width put
  rw [Map.get_insert_self]
  cases hm : m[a]? with
  | none =>
    have : ((∅ : Map N V).insert n v).size = (∅ : Map N V).size + 1 := Map.size_insert_of_none v (by simp)
    simpa using this
  | some inner =>
    have hn : inner[n]? = none := by simpa [look, hm] using h
    simpa using Map.size_insert_of_none v hn

theorem width_put_ne (m : Map A (Map N V)) {a b : A} (n : N) (v : V) (h : a ≠ b) :
    width (put m a n v) b = width m b := by
  simp [width, put, Map.get_insert_ne _ _ h]

theorem width_vacate_self {m : Map A (Map N V)} {a : A} {n : N} {v : V} (h : look m a n = some v) :
    width (vacate m a n) a + 1 = width m a := by
  unfold look at h
  unfold width vacate
  cases hm : m[a]? with
  | none => simp [hm] at h
  | some inner =>
    have hn : inner[n]? = some v := by simpa [hm] using h
    have hsize := Map.size_erase_of_some hn
    simp [hsize]

theorem width_vacate_ne (m : Map A (Map N V)) {a b : A} (n : N) (h : a ≠ b) :
    width (vacate m a n) b = width m b := by
  unfold width vacate
  cases m[a]? with
  | none => rfl
  | some inner => simp [Map.get_insert_ne _ _ h]

theorem width_prune_eq_vacate (m : Map A (Map N V)) (a : A) (n : N) :
    width (prune m a n) = width (vacate m a n) := by
  funext b
  unfold prune vacate
  cases hm : m[a]? with
  | none => rfl
  | some inner =>
    dsimp only
    split
    case isFalse => rfl
    case isTrue hempty =>
      by_cases hab : a = b
      · subst hab
        simp [width, Std.ExtTreeMap.isEmpty_iff.mp hempty]
      · simp [width, Map.get_erase_ne _ hab, Map.get_insert_ne _ _ hab]

/-! ## Compact maps -/

/-- A new entry fills the inner map it goes to. -/
theorem compact_put {m : Map A (Map N V)} {a : A} (n : N) (v : V) (h : CompactBut (· = a) m) :
    Compact (put m a n v) := by
  intro b inner _ hb
  by_cases hab : a = b
  · subst hab
    rw [put, Map.get_insert_self] at hb
    rw [← Option.some.inj hb]
    simp
  · rw [put, Map.get_insert_ne _ _ hab] at hb
    exact h b inner (Ne.symm hab) hb

/-- `vacate` can leave an empty inner map only where it removes an entry. -/
theorem compactBut_vacate {m : Map A (Map N V)} (a : A) (n : N) (h : Compact m) :
    CompactBut (· = a) (vacate m a n) := by
  intro b inner hba hb
  unfold vacate at hb
  split at hb
  · exact h b inner id hb
  · rw [Map.get_insert_ne _ _ (Ne.symm hba)] at hb
    exact h b inner id hb

theorem compact_prune {m : Map A (Map N V)} (a : A) (n : N) (h : Compact m) : Compact (prune m a n) := by
  intro b inner _ hb
  unfold prune at hb
  split at hb
  · exact h b inner id hb
  · split at hb
    · by_cases hab : a = b
      · subst hab
        simp at hb
      · rw [Map.get_erase_ne _ hab] at hb
        exact h b inner id hb
    · rename_i hne
      by_cases hab : a = b
      · subst hab
        rw [Map.get_insert_self] at hb
        rw [← Option.some.inj hb]
        simpa using hne
      · rw [Map.get_insert_ne _ _ hab] at hb
        exact h b inner id hb

/-! ## Restricted inner maps -/

theorem look_restrict [Std.LawfulEqOrd N] [DecidableEq A] (m : Map A (Map N V)) (a b : A) (keep : N → Bool) (n : N) :
    look (restrict m a keep) b n = if a = b ∧ keep n = false then none else look m b n := by
  unfold restrict
  by_cases hab : a = b
  · subst hab
    cases hm : m[a]? with
    | none => simp [look, hm]
    | some inner =>
      have hkept : (inner.filter fun n _ => keep n)[n]? = if keep n = false then none else inner[n]? := by
        rw [Std.ExtTreeMap.getElem?_filter']
        cases keep n <;> cases inner[n]? <;> simp
      dsimp only
      split
      · rename_i hempty
        rw [Std.ExtTreeMap.isEmpty_iff.mp hempty] at hkept
        simpa [look, hm] using hkept
      · simpa [look, hm] using hkept
  · cases hm : m[a]? with
    | none => simp [hab]
    | some inner =>
      dsimp only
      split
      · simp [look, Map.get_erase_ne _ hab, hab]
      · simp [look, Map.get_insert_ne _ _ hab, hab]

theorem width_restrict_le (m : Map A (Map N V)) (a b : A) (keep : N → Bool) :
    width (restrict m a keep) b ≤ width m b := by
  unfold restrict
  cases hm : m[a]? with
  | none => exact Nat.le_refl _
  | some inner =>
    have hsize : (inner.filter fun n _ => keep n).size ≤ inner.size := Std.ExtTreeMap.size_filter_le_size
    dsimp only
    by_cases hab : a = b
    · subst hab
      split
      · simp [width]
      · simpa [width, hm] using hsize
    · split
      · simp [width, Map.get_erase_ne _ hab]
      · simp [width, Map.get_insert_ne _ _ hab]

theorem compact_restrict {m : Map A (Map N V)} (a : A) (keep : N → Bool) (h : Compact m) :
    Compact (restrict m a keep) := by
  intro b inner _ hb
  unfold restrict at hb
  split at hb
  · exact h b inner id hb
  · split at hb
    · by_cases hab : a = b
      · subst hab
        simp at hb
      · rw [Map.get_erase_ne _ hab] at hb
        exact h b inner id hb
    · rename_i hne
      by_cases hab : a = b
      · subst hab
        rw [Map.get_insert_self] at hb
        rw [← Option.some.inj hb]
        simpa using hne
      · rw [Map.get_insert_ne _ _ hab] at hb
        exact h b inner id hb

omit [Std.LawfulEqOrd A] in
theorem mem_row [Std.LawfulEqOrd N] {m : Map A (Map N V)} {a : A} {n : N} {v : V} :
    (n, v) ∈ row m a ↔ look m a n = some v := by
  unfold row look
  cases m[a]? with
  | none => simp
  | some inner => exact Map.mem_toList

omit [Std.LawfulEqOrd A] in
theorem nodup_row [Std.LawfulEqOrd N] (m : Map A (Map N V)) (a : A) : (row m a).Nodup := by
  unfold row
  cases m[a]? with
  | none => exact List.nodup_nil
  | some inner => exact Map.nodup_toList inner

omit [Std.LawfulEqOrd A] in
theorem length_row (m : Map A (Map N V)) (a : A) : (row m a).length = width m a := by
  unfold row width
  cases m[a]? with
  | none => rfl
  | some inner => exact Std.ExtTreeMap.length_toList

/-! ## Compact maps are determined by their look-ups -/

omit [Std.LawfulEqOrd A] in
theorem exists_look [Std.LawfulEqOrd N] {m : Map A (Map N V)} (h : Compact m) {a : A} {inner : Map N V}
    (ha : m[a]? = some inner) : ∃ n v, look m a n = some v := by
  by_contra hnone
  have hempty : inner = ∅ := by
    apply Map.ext_get
    intro n
    cases hn : inner[n]? with
    | none => simp
    | some v => exact absurd ⟨n, v, by simp [look, ha, hn]⟩ hnone
  have := h a inner id ha
  simp [hempty] at this

/-- Compact maps with equal look-ups are equal. -/
theorem ext_look [Std.LawfulEqOrd N] {m l : Map A (Map N V)} (hm : Compact m) (hl : Compact l)
    (h : ∀ a n, look m a n = look l a n) : m = l := by
  apply Map.ext_get
  intro a
  cases hma : m[a]? with
  | none =>
    cases hla : l[a]? with
    | none => rfl
    | some inner =>
      obtain ⟨n, v, hv⟩ := exists_look hl hla
      rw [← h] at hv
      simp [look, hma] at hv
  | some inner =>
    cases hla : l[a]? with
    | none =>
      obtain ⟨n, v, hv⟩ := exists_look hm hma
      rw [h] at hv
      simp [look, hla] at hv
    | some inner' =>
      congr 1
      apply Map.ext_get
      intro n
      simpa [look, hma, hla] using h a n

/-! ## Indexes

A map of maps that lists the keys of another map's values by two of their attributes. -/

section Index
variable {H T : Type} [Ord H] [Std.TransOrd H] [Std.LawfulEqOrd H] {first : T → A} {second : T → N}

omit [Std.LawfulEqOrd A] [Std.LawfulEqOrd H] in
/-- The index lists every stored value under its two attributes, and nothing else. -/
def Indexes (first : T → A) (second : T → N) (store : Map H T) (index : Map A (Map N H)) : Prop :=
  ∀ a n h, look index a n = some h ↔ ∃ t, store[h]? = some t ∧ first t = a ∧ second t = n

variable {store : Map H T} {index : Map A (Map N H)} {h : H} {t : T}

omit [Std.LawfulEqOrd A] [Std.LawfulEqOrd H] in
theorem Indexes.look_of_get (hindex : Indexes first second store index) (hget : store[h]? = some t) :
    look index (first t) (second t) = some h :=
  (hindex _ _ _).mpr ⟨t, hget, rfl, rfl⟩

variable [Std.LawfulEqOrd N]

/-- A new value goes to a free place of the index. -/
theorem Indexes.put (hindex : Indexes first second store index) (hnew : store[h]? = none)
    (hfree : look index (first t) (second t) = none) :
    Indexes first second (store.insert h t) (put index (first t) (second t) h) := by
  classical
  intro a n g
  rw [look_put]
  constructor
  · intro hlook
    split at hlook
    · rename_i hsame
      cases hlook
      exact ⟨t, Map.get_insert_self _ _ _, hsame⟩
    · obtain ⟨u, hu, hplace⟩ := (hindex _ _ _).mp hlook
      have hne : h ≠ g := by
        rintro rfl
        rw [hnew] at hu
        cases hu
      exact ⟨u, (Map.get_insert_ne _ _ hne).trans hu, hplace⟩
  · rintro ⟨u, hu, rfl, rfl⟩
    by_cases e : h = g
    · subst e
      rw [Map.get_insert_self] at hu
      cases hu
      rw [if_pos ⟨rfl, rfl⟩]
    · rw [Map.get_insert_ne _ _ e] at hu
      have hlook := hindex.look_of_get hu
      rw [if_neg]
      · exact hlook
      · rintro ⟨hfirst, hsecond⟩
        rw [← hfirst, ← hsecond, hfree] at hlook
        cases hlook

/-- A removed value leaves its place, whether or not an emptied inner map stays. -/
theorem Indexes.erase (hindex : Indexes first second store index) (hget : store[h]? = some t)
    {rest : Map A (Map N H)} (hrest : look rest = look (vacate index (first t) (second t))) :
    Indexes first second (store.erase h) rest := by
  classical
  have hplace := hindex.look_of_get hget
  intro a n g
  rw [hrest, look_vacate]
  constructor
  · intro hlook
    split at hlook
    · cases hlook
    · rename_i hother
      obtain ⟨u, hu, hfirst, hsecond⟩ := (hindex _ _ _).mp hlook
      have hne : h ≠ g := by
        rintro rfl
        rw [hget] at hu
        cases hu
        exact hother ⟨hfirst, hsecond⟩
      exact ⟨u, by rwa [Map.get_erase_ne _ hne], hfirst, hsecond⟩
  · rintro ⟨u, hu, rfl, rfl⟩
    by_cases e : h = g
    · subst e
      rw [Map.get_erase_self] at hu
      cases hu
    · rw [Map.get_erase_ne _ e] at hu
      have hlook := hindex.look_of_get hu
      rw [if_neg]
      · exact hlook
      · -- one place holds one key
        rintro ⟨hfirst, hsecond⟩
        rw [← hfirst, ← hsecond, hplace] at hlook
        exact e (Option.some.inj hlook)

omit [Std.LawfulEqOrd H] in
/-- Values that leave together: those under one first attribute whose second is not kept. -/
theorem Indexes.restrict [DecidableEq A] (hindex : Indexes first second store index) (a : A) (keep : N → Bool)
    {rest : Map H T}
    (hrest : ∀ h : H, rest[h]? = (store[h]?).filter fun t => !decide (first t = a ∧ keep (second t) = false)) :
    Indexes first second rest (restrict index a keep) := by
  intro b n g
  rw [look_restrict, hrest]
  constructor
  · intro hlook
    split at hlook
    · cases hlook
    · rename_i hkept
      obtain ⟨t, ht, rfl, rfl⟩ := (hindex _ _ _).mp hlook
      refine ⟨t, ?_, rfl, rfl⟩
      have hstays : ¬ (first t = a ∧ keep (second t) = false) := fun ⟨hfirst, hsecond⟩ => hkept ⟨hfirst.symm, hsecond⟩
      simpa [ht, Option.filter] using hstays
  · rintro ⟨t, ht, rfl, rfl⟩
    obtain ⟨hget, hstays⟩ := Option.filter_eq_some_iff.mp ht
    rw [if_neg]
    · exact hindex.look_of_get hget
    · rintro ⟨hfirst, hsecond⟩
      simp [hfirst, hsecond] at hstays

omit [Std.LawfulEqOrd A] in
/-- The index lists under a first key exactly the keys of the values with that attribute. -/
theorem Indexes.row_perm [DecidableEq A] (hindex : Indexes first second store index) (a : A) (pick : N → Bool) :
    (((row index a).filter fun e => pick e.1).map Prod.snd).Perm
      ((store.toList.filter fun e => decide (first e.2 = a) && pick (second e.2)).map Prod.fst) := by
  have hmem : ∀ {n h}, (n, h) ∈ (row index a).filter (fun e => pick e.1) ↔
      (∃ t, store[h]? = some t ∧ first t = a ∧ second t = n) ∧ pick n = true := by
    intro n h
    rw [List.mem_filter, mem_row, hindex]
  refine (List.perm_ext_iff_of_nodup ?_ ?_).mpr ?_
  · refine List.Nodup.map_on ?_ ((nodup_row index a).filter _)
    -- a key stands under the second attribute of its value, so it stands once
    rintro ⟨n, h⟩ hn ⟨l, g⟩ hl (rfl : h = g)
    obtain ⟨⟨t, ht, -, rfl⟩, -⟩ := hmem.mp hn
    obtain ⟨⟨u, hu, -, rfl⟩, -⟩ := hmem.mp hl
    rw [ht] at hu
    cases hu
    rfl
  · exact (Map.nodup_keys_toList store).sublist (List.filter_sublist.map Prod.fst)
  · intro h
    constructor
    · intro hh
      obtain ⟨⟨n, g⟩, hn, rfl⟩ := List.mem_map.mp hh
      obtain ⟨⟨t, ht, rfl, rfl⟩, hpick⟩ := hmem.mp hn
      exact List.mem_map.mpr ⟨(g, t), List.mem_filter.mpr ⟨Map.mem_toList.mpr ht, by simp [hpick]⟩, rfl⟩
    · intro hh
      obtain ⟨⟨g, t⟩, ht, rfl⟩ := List.mem_map.mp hh
      obtain ⟨hstored, hpick⟩ := List.mem_filter.mp ht
      simp only [Bool.and_eq_true, decide_eq_true_eq] at hpick
      exact List.mem_map.mpr ⟨(second t, g), hmem.mpr ⟨⟨t, Map.mem_toList.mp hstored, hpick.1, rfl⟩, hpick.2⟩, rfl⟩

end Index

end Nested
