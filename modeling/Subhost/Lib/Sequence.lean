import Mathlib.Data.List.MinMax
import Mathlib.Data.List.Nodup
import Mathlib.Data.List.Perm.Basic
/-!
# Sequence numbers

Items numbered one after the other, and a part of them picked out: the part is numbered without a gap
exactly when nothing outside it comes before anything in it (`filter_numbered_iff`).

A receiver that takes items in any order and moves its counter to `max counter number + 1`, up to a last
value `top`: `order_insensitive_iff` says for which items the order does not matter.
-/
namespace Sequence

variable {α : Type}

/-- Numbers of a later part are not below its start. -/
theorem le_of_numbered {seq : α → Nat} {n : Nat} {l : List α} (h : l.map seq = List.range' n l.length) {a : α}
    (ha : a ∈ l) : n ≤ seq a := by
  have hmem : seq a ∈ List.range' n l.length := h ▸ List.mem_map_of_mem ha
  exact (List.mem_range'_1.mp hmem).1

/-- **Gap-free part.** In a list numbered `n, n + 1, …` the items that satisfy `p` are themselves numbered
`n, n + 1, …` exactly when none of them follows one that does not. -/
theorem filter_numbered_iff (seq : α → Nat) (p : α → Bool) (n : Nat) (l : List α)
    (h : l.map seq = List.range' n l.length) :
    (l.filter p).map seq = List.range' n (l.filter p).length ↔ l.Pairwise fun a b => p b → p a := by
  induction l generalizing n with
  | nil => simp
  | cons a l ih =>
    rw [List.map_cons, List.length_cons, List.range'_succ, List.cons.injEq] at h
    obtain ⟨ha, hl⟩ := h
    rw [List.pairwise_cons]
    by_cases hp : p a
    · simp [hp, ha, List.range'_succ, ih (n + 1) hl]
    · rw [List.filter_cons_of_neg hp]
      cases hrest : l.filter p with
      | nil =>
        have hnone : ∀ b ∈ l, ¬ p b := List.filter_eq_nil_iff.mp hrest
        simp only [List.map_nil, List.length_nil, List.range'_zero, true_iff]
        refine ⟨fun b hb hpb => absurd hpb (hnone b hb), ?_⟩
        exact (List.pairwise_of_forall_mem_list fun b _ c hc hpc => absurd hpc (hnone c hc))
      | cons b bs =>
        have hb : b ∈ l ∧ p b := List.mem_filter.mp (hrest ▸ List.mem_cons_self)
        have hseq := le_of_numbered hl hb.1
        constructor
        · intro heq
          simp only [List.map_cons, List.length_cons, List.range'_succ, List.cons.injEq] at heq
          omega
        · intro hpair
          exact absurd (hpair.1 b hb.1 hb.2) hp

/-! ## A counter that jumps to the largest number -/

section Counter
variable (top : Nat) (seq : α → Nat)

/-- The counter after a list of items; an item it cannot move past is not counted. -/
def counter : Nat → List α → Nat
  | n, [] => n
  | n, a :: l => if max n (seq a) < top then counter (max n (seq a) + 1) l else counter n l

/-- The items that were counted. -/
def taken : Nat → List α → List α
  | _, [] => []
  | n, a :: l => if max n (seq a) < top then a :: taken (max n (seq a) + 1) l else taken n l

/-- The result does not depend on the order in which the items come. -/
def OrderInsensitive (n : Nat) (l : List α) : Prop :=
  ∀ l₁ l₂ : List α, l₁.Perm l → l₂.Perm l →
    (∀ a, a ∈ taken top seq n l₁ ↔ a ∈ taken top seq n l₂) ∧ counter top seq n l₁ = counter top seq n l₂

variable {top seq}

theorem counter_append (n : Nat) (l k : List α) :
    counter top seq n (l ++ k) = counter top seq (counter top seq n l) k := by
  induction l generalizing n with
  | nil => rfl
  | cons a l ih => by_cases h : max n (seq a) < top <;> simp only [List.cons_append, counter, h, if_true, if_false, ih]

theorem taken_append (n : Nat) (l k : List α) :
    taken top seq n (l ++ k) = taken top seq n l ++ taken top seq (counter top seq n l) k := by
  induction l generalizing n with
  | nil => rfl
  | cons a l ih =>
    by_cases h : max n (seq a) < top <;> simp only [List.cons_append, taken, counter, h, if_true, if_false, ih]

theorem taken_sublist (n : Nat) (l : List α) : (taken top seq n l).Sublist l := by
  induction l generalizing n with
  | nil => exact .slnil
  | cons a l ih =>
    by_cases h : max n (seq a) < top
    · simpa only [taken, h, if_true] using (ih _).cons_cons a
    · simpa only [taken, h, if_false] using (ih _).cons a

/-- Items at the top are never counted. -/
theorem filter_below (n : Nat) (l : List α) :
    taken top seq n (l.filter (seq · < top)) = taken top seq n l ∧
    counter top seq n (l.filter (seq · < top)) = counter top seq n l := by
  induction l generalizing n with
  | nil => exact ⟨rfl, rfl⟩
  | cons a l ih =>
    by_cases h : seq a < top
    · by_cases hn : max n (seq a) < top <;> simp [h, taken, counter, hn, ih]
    · have hn : ¬ max n (seq a) < top := by omega
      simp [h, taken, counter, hn, ih]

/-- Items the counter has passed move it by one each, until it is at the top. -/
theorem passed_items {n : Nat} (hn : n ≤ top) {l : List α} (h : ∀ a ∈ l, seq a ≤ n) :
    taken top seq n l = l.take (top - n) ∧ counter top seq n l = min top (n + l.length) := by
  induction l generalizing n with
  | nil => simp [taken, counter, hn]
  | cons a l ih =>
    rw [List.forall_mem_cons] at h
    rw [taken, counter, Nat.max_eq_left h.1]
    by_cases hlt : n < top
    · obtain ⟨ht, hc⟩ := ih (n := n + 1) hlt fun b hb => Nat.le_succ_of_le (h.2 b hb)
      obtain ⟨k, hk⟩ : ∃ k, top - n = k + 1 := ⟨top - n - 1, by omega⟩
      have hk' : top - (n + 1) = k := by omega
      rw [if_pos hlt, if_pos hlt, ht, hc, hk, hk', List.take_succ_cons, List.length_cons]
      exact ⟨rfl, by omega⟩
    · obtain ⟨ht, hc⟩ := ih hn h.2
      have hk : top - n = 0 := by omega
      rw [if_neg hlt, if_neg hlt, ht, hc, hk, List.length_cons]
      exact ⟨rfl, by omega⟩

theorem le_counter (n : Nat) (l : List α) : n ≤ counter top seq n l := by
  induction l generalizing n with
  | nil => exact Nat.le_refl n
  | cons a l ih =>
    rw [counter]
    split
    · exact Nat.le_trans (by omega) (ih _)
    · exact ih n

theorem counter_le {n m : Nat} (hn : n ≤ m) {l : List α} (h : ∀ a ∈ l, seq a ≤ m) :
    counter top seq n l ≤ m + l.length := by
  induction l generalizing n m with
  | nil => simpa [counter] using hn
  | cons a l ih =>
    rw [List.forall_mem_cons] at h
    rw [counter, List.length_cons]
    split
    · have := ih (n := max n (seq a) + 1) (m := m + 1) (by omega) fun b hb => Nat.le_succ_of_le (h.2 b hb)
      omega
    · have := ih hn h.2
      omega

/-- As long as the counter has not come to the top, every item below the top is counted. -/
theorem taken_eq_self {n : Nat} {l : List α} (hc : counter top seq n l < top) (h : ∀ a ∈ l, seq a < top) :
    taken top seq n l = l := by
  induction l generalizing n with
  | nil => rfl
  | cons a l ih =>
    rw [List.forall_mem_cons] at h
    have hn : n ≤ counter top seq n (a :: l) := le_counter n (a :: l)
    have hlt : max n (seq a) < top := by omega
    rw [counter, if_pos hlt] at hc
    rw [taken, if_pos hlt, ih hc h.2]

/-- A number that the counter has not reached, or more items than it has room for: then the item `a` (one that
the counter has not reached, if there is any, and the largest of them) comes first in one order and last in
another, and the results differ. -/
theorem first_last_differ {n : Nat} (hn : n < top) {a : α} {l : List α} (hne : l ≠ []) (hnodup : (a :: l).Nodup)
    (ha : seq a < top) (hl : ∀ b ∈ l, seq b < top)
    (h : (n < seq a ∧ ∀ b ∈ l, seq b < seq a) ∨ (seq a ≤ n ∧ (∀ b ∈ l, seq b ≤ n) ∧ top < n + (a :: l).length)) :
    ¬ ((∀ b, b ∈ taken top seq n (a :: l) ↔ b ∈ taken top seq n (l ++ [a])) ∧
      counter top seq n (a :: l) = counter top seq n (l ++ [a])) := by
  rintro ⟨hsame, hcounter⟩
  have hlen : 0 < l.length := List.length_pos_of_ne_nil hne
  -- `a` is counted when it comes first, so it is counted when it comes last
  have hfirst : max n (seq a) < top := by omega
  have hlast : a ∈ taken top seq n (l ++ [a]) := by
    rw [← hsame, taken, if_pos hfirst]
    exact List.mem_cons_self
  have hroom : max (counter top seq n l) (seq a) < top := by
    rw [taken_append, List.mem_append] at hlast
    rcases hlast with hmem | hmem
    · exact absurd ((taken_sublist n l).subset hmem) (List.nodup_cons.mp hnodup).1
    · by_contra hfull
      simp [taken, hfull] at hmem
  -- then everything is counted in that order
  have hall : taken top seq n (l ++ [a]) = l ++ [a] := by
    rw [taken_append, taken_eq_self (by omega) hl, taken, if_pos hroom]
    rfl
  have hcount : counter top seq n (l ++ [a]) = max (counter top seq n l) (seq a) + 1 := by
    rw [counter_append, counter, if_pos hroom]
    rfl
  have hlength : (taken top seq n (a :: l)).length = l.length + 1 := by
    have hperm : (taken top seq n (a :: l)).Perm (l ++ [a]) := by
      rw [List.perm_ext_iff_of_nodup ((taken_sublist n _).nodup hnodup)
        ((List.perm_append_singleton a l).nodup_iff.mpr hnodup), ← hall]
      exact hsame
    simpa using hperm.length_eq
  rcases h with ⟨hna, hbelow⟩ | ⟨han, hbelow, hmany⟩
  · -- from `seq a + 1` on the other order moves by one each, and ends higher
    obtain ⟨htail, hend⟩ : taken top seq (seq a + 1) l = l.take (top - (seq a + 1)) ∧
        counter top seq (seq a + 1) l = min top (seq a + 1 + l.length) :=
      passed_items ha fun b hb => Nat.le_succ_of_le (Nat.le_of_lt (hbelow b hb))
    have hmax : max n (seq a) = seq a := by omega
    rw [taken, if_pos hfirst, hmax, htail] at hlength
    rw [counter, if_pos hfirst, hmax, hend, hcount] at hcounter
    have hbound : counter top seq n l ≤ seq a - 1 + l.length :=
      counter_le (by omega) fun b hb => Nat.le_sub_one_of_lt (hbelow b hb)
    simp only [List.length_cons, List.length_take] at hlength
    omega
  · have hend : counter top seq n l = min top (n + l.length) := (passed_items (Nat.le_of_lt hn) hbelow).2
    rw [List.length_cons] at hmany
    omega

/-- The item to move: the largest of those the counter has not reached, or any where there is no room for all. -/
theorem exists_moved {n : Nat} {l : List α} (hmany : 1 < (l.filter (seq · < top)).length)
    (hroom : (∀ a ∈ l, seq a < top → seq a ≤ n) → top < n + (l.filter (seq · < top)).length)
    (hnodup : (l.map seq).Nodup) :
    ∃ a others, (a :: others).Perm (l.filter (seq · < top)) ∧
      ((n < seq a ∧ ∀ b ∈ others, seq b < seq a) ∨
        (seq a ≤ n ∧ (∀ b ∈ others, seq b ≤ n) ∧ top < n + (a :: others).length)) := by
  have hnodup' : ((l.filter (seq · < top)).map seq).Nodup := hnodup.sublist (List.filter_sublist.map seq)
  have hmem : ∀ b ∈ l, seq b < top → b ∈ l.filter (seq · < top) :=
    fun b hb hlt => List.mem_filter.mpr ⟨hb, decide_eq_true hlt⟩
  generalize l.filter (seq · < top) = low at hmany hroom hnodup' hmem ⊢
  obtain ⟨a, ha⟩ : ∃ a, a ∈ low.argmax seq := by
    refine Option.ne_none_iff_exists'.mp fun hnone => ?_
    rw [List.argmax_eq_none.mp hnone] at hmany
    simp at hmany
  obtain ⟨front, back, rfl⟩ := List.append_of_mem (List.argmax_mem ha)
  have hperm : (a :: (front ++ back)).Perm (front ++ a :: back) := List.perm_middle.symm
  refine ⟨a, front ++ back, hperm, ?_⟩
  have hle : ∀ b ∈ front ++ back, seq b ≤ seq a := fun b hb =>
    List.le_of_mem_argmax (hperm.mem_iff.mp (List.mem_cons_of_mem a hb)) ha
  by_cases hna : n < seq a
  · refine .inl ⟨hna, fun b hb => Nat.lt_of_le_of_ne (hle b hb) fun heq => ?_⟩
    have hnotin := (List.nodup_cons.mp ((hperm.map seq).nodup_iff.mpr hnodup')).1
    exact hnotin (heq ▸ List.mem_map_of_mem hb)
  · have hall : ∀ b ∈ front ++ a :: back, seq b ≤ n := by
      intro b hb
      rcases List.mem_cons.mp (hperm.mem_iff.mpr hb) with rfl | hb
      · omega
      · have := hle b hb
        omega
    have htop := hroom fun b hb hlt => hall b (hmem b hb hlt)
    refine .inr ⟨by omega, fun b hb => hall b (hperm.mem_iff.mp (List.mem_cons_of_mem a hb)), ?_⟩
    rwa [hperm.length_eq]

/-- Items at the top can come anywhere: only the order of the others counts. -/
theorem order_insensitive_filter (n : Nat) (l : List α) :
    OrderInsensitive top seq n (l.filter (seq · < top)) ↔ OrderInsensitive top seq n l := by
  constructor
  · intro h l₁ l₂ h₁ h₂
    have hlow := h _ _ (h₁.filter (seq · < top)) (h₂.filter (seq · < top))
    simpa only [(filter_below n l₁).1, (filter_below n l₁).2, (filter_below n l₂).1, (filter_below n l₂).2] using hlow
  · intro h k₁ k₂ hk₁ hk₂
    -- the items at the top come last in both orders
    let high := l.filter fun b => !decide (seq b < top)
    have hfilter : ∀ k : List α, k.Perm (l.filter (seq · < top)) → (k ++ high).filter (seq · < top) = k := by
      intro k hk
      have hself : k.filter (seq · < top) = k :=
        List.filter_eq_self.mpr fun b hb => (List.mem_filter.mp (hk.mem_iff.mp hb)).2
      rw [List.filter_append, hself, List.filter_filter]
      simp
    have hall : ∀ k : List α, k.Perm (l.filter (seq · < top)) → (k ++ high).Perm l := fun k hk =>
      (hk.append_right high).trans (List.filter_append_perm _ l)
    have hsame := h _ _ (hall k₁ hk₁) (hall k₂ hk₂)
    simpa only [← (filter_below n (_ ++ high)).1, ← (filter_below n (_ ++ high)).2, hfilter _ hk₁, hfilter _ hk₂]
      using hsame

/-- A counter that has passed all the items only counts how many there are. -/
theorem order_insensitive_of_passed {n : Nat} (hn : n ≤ top) {l : List α} (h : ∀ a ∈ l, seq a ≤ n)
    (hroom : n = top ∨ n + l.length ≤ top) : OrderInsensitive top seq n l := by
  intro l₁ l₂ h₁ h₂
  obtain ⟨ht₁, hc₁⟩ := passed_items hn fun a ha => h a (h₁.mem_iff.mp ha)
  obtain ⟨ht₂, hc₂⟩ := passed_items hn fun a ha => h a (h₂.mem_iff.mp ha)
  have hlen₁ := h₁.length_eq
  have hlen₂ := h₂.length_eq
  rw [ht₁, hc₁, ht₂, hc₂, hlen₁, hlen₂]
  refine ⟨?_, rfl⟩
  rcases hroom with rfl | hroom
  · simp
  · rw [List.take_of_length_le (by omega), List.take_of_length_le (by omega)]
    exact fun a => (h₁.trans h₂.symm).mem_iff

theorem order_insensitive_of_length_le_one (n : Nat) {l : List α} (h : l.length ≤ 1) :
    OrderInsensitive top seq n l := by
  intro l₁ l₂ h₁ h₂
  have heq : l₁ = l₂ := by
    rcases Nat.le_one_iff_eq_zero_or_eq_one.mp h with hzero | hone
    · rw [List.length_eq_zero_iff.mp hzero] at h₁ h₂
      rw [h₁.eq_nil, h₂.eq_nil]
    · obtain ⟨a, rfl⟩ := List.length_eq_one_iff.mp hone
      rw [h₁.eq_singleton, h₂.eq_singleton]
  simp [heq]

/-- **Order of arrival.** For items with distinct numbers the order does not matter exactly when at most one
of them is below the top, or the counter is at the top, or the counter has passed them all and has room for all. -/
theorem order_insensitive_iff {n : Nat} (hn : n ≤ top) (l : List α) (hnodup : (l.map seq).Nodup) :
    OrderInsensitive top seq n l ↔
      (l.filter (seq · < top)).length ≤ 1 ∨ n = top ∨
      ((∀ a ∈ l, seq a < top → seq a ≤ n) ∧ n + (l.filter (seq · < top)).length ≤ top) := by
  rw [← order_insensitive_filter]
  have hbelow : ∀ b ∈ l.filter (seq · < top), b ∈ l ∧ seq b < top := by simp
  constructor
  · intro h
    by_contra hcon
    push Not at hcon
    obtain ⟨hmany, hne, hroom⟩ := hcon
    obtain ⟨a, others, hperm, hcase⟩ := exists_moved hmany hroom hnodup
    have hlow : ∀ b ∈ a :: others, seq b < top := fun b hb => (hbelow b (hperm.mem_iff.mp hb)).2
    have hlownodup : (a :: others).Nodup :=
      hperm.nodup_iff.mpr ((List.Nodup.of_map seq hnodup).filter _)
    have hothers : others ≠ [] := by
      rintro rfl
      have := hperm.length_eq
      simp only [List.length_singleton] at this
      omega
    have hback : (others ++ [a]).Perm (a :: others) := List.perm_append_singleton a others
    exact first_last_differ (by omega) hothers hlownodup (hlow a List.mem_cons_self)
      (fun b hb => hlow b (List.mem_cons_of_mem a hb)) hcase (h _ _ hperm (hback.trans hperm))
  · rintro (hone | htop | ⟨hle, hroom⟩)
    · exact order_insensitive_of_length_le_one n hone
    · exact order_insensitive_of_passed hn (fun b hb => by have := (hbelow b hb).2; omega) (.inl htop)
    · exact order_insensitive_of_passed hn (fun b hb => hle b (hbelow b hb).1 (hbelow b hb).2) (.inr hroom)

end Counter

end Sequence
