import Mathlib.Data.Set.Insert
/-!
# Keeping the best offer for each key

Offers come in one at a time, each for a key and at a price, and a holder keeps one offer for each key that
was offered: a new key is taken, a dearer offer replaces the one held, and any other is ignored. `KeepsBest`
is what such a holder maintains, with one lemma for each of the three. Without ties it says what is held
(`KeepsBest.mem_iff`), and the order of the offers has no part in that.
-/

variable {α κ : Type}

/-- The dearest offers for their keys. -/
def bestOffers (key : α → κ) (price : α → ℕ) (offers : Set α) : Set α :=
  {x | x ∈ offers ∧ ∀ y ∈ offers, key y = key x → price y ≤ price x}

/-- Two offers for one key have different prices. -/
def NoTies (key : α → κ) (price : α → ℕ) (offers : Set α) : Prop :=
  ∀ x ∈ offers, ∀ y ∈ offers, key x = key y → price x = price y → x = y

/-- One offer is held for each key, and none was better. -/
structure KeepsBest (key : α → κ) (price : α → ℕ) (offers held : Set α) : Prop where
  offered : held ⊆ offers
  single : ∀ x ∈ held, ∀ y ∈ held, key x = key y → x = y
  covered : ∀ x ∈ offers, ∃ y ∈ held, key y = key x ∧ price x ≤ price y

namespace KeepsBest

variable {key : α → κ} {price : α → ℕ} {offers held : Set α} {x y : α}

theorem empty : KeepsBest key price ∅ ∅ := ⟨by simp, by simp, by simp⟩

/-- **What is held**, if no two offers for one key tie. -/
theorem mem_iff (h : KeepsBest key price offers held) (hties : NoTies key price offers) :
    x ∈ held ↔ x ∈ bestOffers key price offers := by
  constructor
  · intro hx
    refine ⟨h.offered hx, ?_⟩
    intro y hy hkey
    obtain ⟨z, hz, hzkey, hle⟩ := h.covered y hy
    rwa [h.single z hz x hx (hzkey.trans hkey)] at hle
  · rintro ⟨hx, hbest⟩
    obtain ⟨z, hz, hkey, hle⟩ := h.covered x hx
    have hge := hbest z (h.offered hz) hkey
    rwa [hties x hx z (h.offered hz) hkey.symm (Nat.le_antisymm hle hge)]

/-- An offer that is not better than the one held for its key is ignored. -/
theorem ignore (h : KeepsBest key price offers held) (hy : y ∈ held) (hkey : key y = key x)
    (hle : price x ≤ price y) : KeepsBest key price (insert x offers) held := by
  refine ⟨h.offered.trans (Set.subset_insert x offers), h.single, ?_⟩
  rintro z (rfl | hz)
  · exact ⟨y, hy, hkey, hle⟩
  · exact h.covered z hz

/-- An offer for a new key is taken. -/
theorem take (h : KeepsBest key price offers held) (hnew : ∀ y ∈ held, key y ≠ key x) :
    KeepsBest key price (insert x offers) (insert x held) := by
  refine ⟨Set.insert_subset_insert h.offered, ?_, ?_⟩
  · rintro y (rfl | hy) z (rfl | hz) hkey
    · rfl
    · exact absurd hkey.symm (hnew z hz)
    · exact absurd hkey (hnew y hy)
    · exact h.single y hy z hz hkey
  · rintro z (rfl | hz)
    · exact ⟨z, Set.mem_insert z held, rfl, Nat.le_refl _⟩
    · obtain ⟨w, hw, hkey, hle⟩ := h.covered z hz
      exact ⟨w, Set.mem_insert_of_mem x hw, hkey, hle⟩

/-- A dearer offer replaces the one held for its key. -/
theorem replace (h : KeepsBest key price offers held) (hy : y ∈ held) (hkey : key y = key x)
    (hle : price y ≤ price x) : KeepsBest key price (insert x offers) (insert x (held \ {y})) := by
  refine ⟨Set.insert_subset_insert fun z hz => h.offered hz.1, ?_, ?_⟩
  · -- nothing else is held for the key
    have hother : ∀ z ∈ held \ {y}, key z ≠ key x := by
      rintro z ⟨hz, hne⟩ hzkey
      exact hne (h.single z hz y hy (hzkey.trans hkey.symm))
    rintro z (rfl | hz) w (rfl | hw) hsame
    · rfl
    · exact absurd hsame.symm (hother w hw)
    · exact absurd hsame (hother z hz)
    · exact h.single z hz.1 w hw.1 hsame
  · rintro z (rfl | hz)
    · exact ⟨z, Set.mem_insert z _, rfl, Nat.le_refl _⟩
    · obtain ⟨w, hw, hwkey, hwle⟩ := h.covered z hz
      by_cases hwy : w = y
      · subst hwy
        exact ⟨x, Set.mem_insert x _, hkey.symm.trans hwkey, hwle.trans hle⟩
      · exact ⟨w, Set.mem_insert_of_mem x ⟨hw, hwy⟩, hwkey, hwle⟩

end KeepsBest
