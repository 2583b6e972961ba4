import Mathlib.Algebra.Algebra.Bilinear
import Mathlib.Algebra.Field.ZMod
import Mathlib.Algebra.Module.Torsion.Field
/-!
# Pairings of cyclic groups of one prime order

Three groups of prime order `r`, written additively as modules over `ZMod r`, two of them with a
generator, and a bilinear map that does not vanish on the generators. Nothing else is assumed: in
particular the map from points to scalars (the discrete logarithm) exists but is not computed.

Everything a pairing equation says is a fact about the scalars: `pair_eq_iff`.
-/

/-- A non-degenerate bilinear pairing with its generators. -/
structure Pairing (r : ℕ) (G₁ G₂ Gₜ : Type) [Fact r.Prime] [AddCommGroup G₁] [AddCommGroup G₂] [AddCommGroup Gₜ]
    [Module (ZMod r) G₁] [Module (ZMod r) G₂] [Module (ZMod r) Gₜ] where
  g₁ : G₁
  g₂ : G₂
  pair : G₁ →ₗ[ZMod r] G₂ →ₗ[ZMod r] Gₜ
  generates₁ : ∀ x : G₁, ∃ a : ZMod r, x = a • g₁
  generates₂ : ∀ x : G₂, ∃ a : ZMod r, x = a • g₂
  nondegenerate : pair g₁ g₂ ≠ 0

namespace Pairing

variable {r : ℕ} {G₁ G₂ Gₜ : Type} [Fact r.Prime] [AddCommGroup G₁] [AddCommGroup G₂] [AddCommGroup Gₜ]
  [Module (ZMod r) G₁] [Module (ZMod r) G₂] [Module (ZMod r) Gₜ] (e : Pairing r G₁ G₂ Gₜ)

theorem pair_smul (a b : ZMod r) : e.pair (a • e.g₁) (b • e.g₂) = (a * b) • e.pair e.g₁ e.g₂ := by
  rw [map_smul, map_smul, LinearMap.smul_apply, smul_smul, mul_comm b a]

theorem smul_g₁_eq_zero {a : ZMod r} : a • e.g₁ = 0 ↔ a = 0 := by
  have hg : e.g₁ ≠ 0 := by
    intro h
    apply e.nondegenerate
    rw [h, map_zero, LinearMap.zero_apply]
  simp [smul_eq_zero, hg]

theorem smul_g₂_eq_zero {a : ZMod r} : a • e.g₂ = 0 ↔ a = 0 := by
  have hg : e.g₂ ≠ 0 := by
    intro h
    apply e.nondegenerate
    rw [h, map_zero]
  simp [smul_eq_zero, hg]

/-- The verification equation of a signature scheme, in the exponents. -/
theorem pair_eq_iff (a b c : ZMod r) :
    e.pair (a • e.g₁) (b • e.g₂) = e.pair e.g₁ (c • e.g₂) ↔ a * b = c := by
  have hc : e.pair e.g₁ (c • e.g₂) = c • e.pair e.g₁ e.g₂ := map_smul _ _ _
  rw [pair_smul, hc]
  constructor
  · intro h
    exact smul_left_injective _ e.nondegenerate h
  · intro h
    rw [h]

/-- Paired with a generator, only zero vanishes. -/
theorem pair_g₁_eq_zero {x : G₂} : e.pair e.g₁ x = 0 ↔ x = 0 := by
  obtain ⟨a, rfl⟩ := e.generates₂ x
  rw [map_smul, smul_eq_zero_iff_left e.nondegenerate, smul_g₂_eq_zero]

end Pairing

/-- The multiplication of `ZMod r` is such a pairing. -/
def Pairing.mul (r : ℕ) [Fact r.Prime] : Pairing r (ZMod r) (ZMod r) (ZMod r) where
  g₁ := 1
  g₂ := 1
  pair := LinearMap.mul (ZMod r) (ZMod r)
  generates₁ x := ⟨x, by simp⟩
  generates₂ x := ⟨x, by simp⟩
  nondegenerate := by simp
