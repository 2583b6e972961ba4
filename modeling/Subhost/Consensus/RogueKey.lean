import Subhost.Consensus.Registry
import Mathlib.Algebra.BigOperators.Ring.Finset
import Mathlib.Algebra.Module.BigOperators
import Mathlib.Tactic.FieldSimp
import Mathlib.Tactic.LinearCombination
/-!
# Proofs of possession made from other proofs of possession

A proof of possession of the key `secret • g₁` is `(secret * h) • g₂` with `h` the digest of the encoded key, a
scalar anybody can compute (subhost-crypto/src/lib.rs:121, :146). For a key `a • g₁ + ∑ bᵢ • pkᵢ` nobody knows the
secret of, dividing the published proofs by their own digests and multiplying by that of the new key gives
`h' • (a • g₂ + ∑ (bᵢ / hᵢ) • proofᵢ)`, which is its proof: the registry does not stop the rogue-key attack it
documents (subhost-consensus/src/lib.rs:54). `rogueFree_iff` has the exact condition.

The adversary picks the scalars of its combination from `a`, the `bᵢ` and the digests of the encoded keys. What it
outputs is the same wherever these are the same, so it must be accepted under every hash function and for all
secrets that show it the same digests (`SameView`).
-/
namespace Subhost
open Bincode ValidatorRegistry

/-- The scalars of a linear combination of the generator and published proofs of possession. -/
structure PossessionRecipe (r : ℕ) (ι : Type) where
  base : ZMod r
  coeff : ι → ZMod r

/-- The discrete logarithm of `a • g₁ + ∑ bᵢ • pkᵢ`. -/
def rogueSecret {r : ℕ} {ι : Type} [Fintype ι] (a : ZMod r) (b s : ι → ZMod r) : ZMod r := a + ∑ i, b i * s i

namespace Bls

variable {r : ℕ} {G₁ G₂ Gₜ : Type} [Fact r.Prime] [AddCommGroup G₁] [AddCommGroup G₂] [AddCommGroup Gₜ]
  [Module (ZMod r) G₁] [Module (ZMod r) G₂] [Module (ZMod r) Gₜ] (B : Bls r G₁ G₂ Gₜ)
  {ι : Type} [Fintype ι]

/-- The same groups and encodings under another hash function. -/
def withHash (h : Bytes → ZMod r) : Bls r G₁ G₂ Gₜ := { B with sha3Scalar := h }

/-- The digest of an encoded public key. -/
def keyDigest (secret : ZMod r) : ZMod r := B.digest (B.serializeKey (B.publicKey secret))

/-- The key `a • g₁ + ∑ bᵢ • pkᵢ`. -/
def rogueKey (a : ZMod r) (b s : ι → ZMod r) : G₁ := a • B.pairing.g₁ + ∑ i, b i • B.publicKey (s i)

theorem rogueKey_eq (a : ZMod r) (b s : ι → ZMod r) : B.rogueKey a b s = B.publicKey (rogueSecret a b s) := by
  simp only [rogueKey, publicKey, rogueSecret, add_smul, Finset.sum_smul, smul_smul]

/-- The combination `x` of the generator and the proofs of possession of the owners of `s`. -/
def combineProofs (s : ι → ZMod r) (x : PossessionRecipe r ι) : G₂ :=
  x.base • B.pairing.g₂ + ∑ i, x.coeff i • B.proofOfPossession (s i)

theorem combineProofs_eq_smul (s : ι → ZMod r) (x : PossessionRecipe r ι) :
    B.combineProofs s x = (x.base + ∑ i, x.coeff i * (s i * B.keyDigest (s i))) • B.pairing.g₂ := by
  simp only [combineProofs, proofOfPossession, sign_eq_smul, keyDigest, add_smul, Finset.sum_smul, smul_smul]

theorem publicKey_inj {s t : ZMod r} (h : B.publicKey s = B.publicKey t) : s = t := by
  have hzero : (s - t) • B.pairing.g₁ = 0 := by
    rw [sub_smul, sub_eq_zero]
    exact h
  exact sub_eq_zero.mp (B.pairing.smul_g₁_eq_zero.mp hzero)

/-! ## Views -/

/-- A hash function and secrets that show the adversary what `B` and `s` show it: the same digests of the honest
keys and of its own, and a key of its own that is not the identity. -/
structure SameView (a : ZMod r) (b s : ι → ZMod r) (h : Bytes → ZMod r) (t : ι → ZMod r) : Prop where
  honest : ∀ i, t i ≠ 0
  rogue : rogueSecret a b t ≠ 0
  digests : ∀ i, (B.withHash h).keyDigest (t i) = B.keyDigest (s i)
  rogueDigest : (B.withHash h).keyDigest (rogueSecret a b t) = B.keyDigest (rogueSecret a b s)

/-- What `B` and `s` show is one of the views. -/
theorem sameView_self {a : ZMod r} {b s : ι → ZMod r} (hs : ∀ i, s i ≠ 0) (hrogue : rogueSecret a b s ≠ 0) :
    B.SameView a b s B.sha3Scalar s := ⟨hs, hrogue, fun _ => rfl, rfl⟩

/-- The hash input of an encoded key. -/
def keyInput (secret : ZMod r) : Bytes :=
  let message := B.serializeKey (B.publicKey secret)
  blsDomain ++ beBytes message.length ++ message

theorem keyInput_inj (hinj : Function.Injective B.serializeKey) {s t : ZMod r}
    (h : B.keyInput s = B.keyInput t) : s = t := by
  unfold keyInput at h
  have hlen : (blsDomain ++ beBytes (B.serializeKey (B.publicKey s)).length).length =
      (blsDomain ++ beBytes (B.serializeKey (B.publicKey t)).length).length := by simp [beBytes]
  exact B.publicKey_inj (hinj (List.append_inj h hlen).2)

theorem keyDigest_withHash (h : Bytes → ZMod r) (secret : ZMod r) :
    (B.withHash h).keyDigest secret = h (B.keyInput secret) := rfl

theorem rogueSecret_update [DecidableEq ι] (a : ZMod r) (b s : ι → ZMod r) (i : ι) (u : ZMod r) :
    rogueSecret a b (Function.update s i u) = rogueSecret a b s + b i * (u - s i) := by
  unfold rogueSecret
  have hsum : ∑ j, b j * Function.update s i u j = ∑ j, b j * s j + b i * (u - s i) := by
    rw [← Finset.add_sum_erase _ _ (Finset.mem_univ i),
      ← Finset.add_sum_erase _ (fun j => b j * s j) (Finset.mem_univ i), Function.update_self,
      Finset.sum_congr rfl fun j hj => by rw [Function.update_of_ne (Finset.ne_of_mem_erase hj)]]
    ring
  rw [hsum]
  ring

/-- In a large enough field one secret can be changed so that neither its key nor the rogue key becomes the identity,
or equal to the other or to an honest key. -/
theorem exists_fresh_secret [DecidableEq ι] (hr : 2 * Fintype.card ι + 3 < r) {a : ZMod r} {b s : ι → ZMod r} {i : ι}
    (hb : b i ≠ 0) (hne : rogueSecret a b s ≠ s i) :
    ∃ u, u ≠ 0 ∧ (∀ j, u ≠ s j) ∧ rogueSecret a b (Function.update s i u) ≠ 0 ∧
      (∀ j, rogueSecret a b (Function.update s i u) ≠ s j) ∧ rogueSecret a b (Function.update s i u) ≠ u := by
  -- the values that must be missed, and the secrets for which the rogue secret is one of them
  let taken : Finset (ZMod r) := insert 0 (Finset.univ.image s)
  let solve : ZMod r → ZMod r := fun w => s i + (w - rogueSecret a b s) / b i
  let meet : ZMod r := (rogueSecret a b s - b i * s i) / (1 - b i)
  have htaken : taken.card ≤ Fintype.card ι + 1 :=
    (Finset.card_insert_le _ _).trans (Nat.succ_le_succ Finset.card_image_le)
  have hcard : (insert meet (taken ∪ taken.image solve)).card < (Finset.univ : Finset (ZMod r)).card := by
    have hunion := Finset.card_union_le taken (taken.image solve)
    have himage : (taken.image solve).card ≤ taken.card := Finset.card_image_le
    have hinsert := Finset.card_insert_le meet (taken ∪ taken.image solve)
    rw [Finset.card_univ, ZMod.card]
    omega
  obtain ⟨u, -, hu⟩ := Finset.exists_mem_notMem_of_card_lt_card hcard
  simp only [Finset.mem_insert, Finset.mem_union, Finset.mem_image, not_or, not_exists, not_and] at hu
  obtain ⟨hmeet, hfree, hsolve⟩ := hu
  have hmem : ∀ j, s j ∈ taken := fun j => Finset.mem_insert_of_mem (Finset.mem_image_of_mem s (Finset.mem_univ j))
  -- the rogue secret takes the value `w` only at `solve w`
  have hvalue : ∀ w ∈ taken, rogueSecret a b (Function.update s i u) ≠ w := by
    intro w hw heq
    apply hsolve w hw
    rw [rogueSecret_update] at heq
    simp only [solve, ← heq]
    field_simp
    ring
  refine ⟨u, ?_, fun j heq => hfree (heq ▸ hmem j), hvalue 0 (Finset.mem_insert_self _ _),
    fun j => hvalue _ (hmem j), ?_⟩
  · rintro rfl
    exact hfree (Finset.mem_insert_self _ _)
  · intro heq
    rw [rogueSecret_update] at heq
    by_cases hone : 1 - b i = 0
    · apply hne
      have hb1 : b i = 1 := by linear_combination -hone
      rw [hb1] at heq
      linear_combination heq
    · apply hmeet
      simp only [meet]
      rw [eq_div_iff hone]
      linear_combination -heq

/-- An honest key of the combination with digest zero leaves the secret behind it out of the adversary's view. -/
theorem exists_other_view [DecidableEq ι] (hinj : Function.Injective B.serializeKey)
    (hr : 2 * Fintype.card ι + 3 < r) {a : ZMod r} {b s : ι → ZMod r} (hs : ∀ j, s j ≠ 0) {i : ι} (hb : b i ≠ 0)
    (hi : B.keyDigest (s i) = 0) (hrogue : B.keyDigest (rogueSecret a b s) ≠ 0) :
    ∃ h u, u ≠ s i ∧ B.SameView a b s h (Function.update s i u) := by
  have hne : rogueSecret a b s ≠ s i := by
    intro heq
    rw [heq] at hrogue
    exact hrogue hi
  obtain ⟨u, hu, hfree, hzero, hother, hself⟩ := exists_fresh_secret hr hb hne
  -- the hash is changed at the two new keys only
  refine ⟨Function.update (Function.update B.sha3Scalar (B.keyInput u) 0)
    (B.keyInput (rogueSecret a b (Function.update s i u))) (B.keyDigest (rogueSecret a b s)), u, hfree i, ?_,
    hzero, ?_, ?_⟩
  · intro j
    by_cases hj : j = i
    · subst hj; simpa using hu
    · simpa [hj] using hs j
  · intro j
    rw [keyDigest_withHash]
    by_cases hj : j = i
    · subst hj
      have hinput : B.keyInput u ≠ B.keyInput (rogueSecret a b (Function.update s j u)) :=
        fun heq => hself (B.keyInput_inj hinj heq).symm
      rw [Function.update_self, Function.update_of_ne hinput, Function.update_self, hi]
    · have hinput : B.keyInput (s j) ≠ B.keyInput (rogueSecret a b (Function.update s i u)) :=
        fun heq => hother j (B.keyInput_inj hinj heq).symm
      have hinput' : B.keyInput (s j) ≠ B.keyInput u := fun heq => hfree j (B.keyInput_inj hinj heq).symm
      rw [Function.update_of_ne hj, Function.update_of_ne hinput, Function.update_of_ne hinput']
      rfl
  · rw [keyDigest_withHash, Function.update_self]

/-! ## Acceptance -/

variable [DecidableEq G₁] [DecidableEq G₂] [DecidableEq Gₜ]

/-- `verify_possession` in the exponents. -/
theorem verifyPossession_iff (secret s : ZMod r) :
    B.verifyPossession (B.publicKey secret) (s • B.pairing.g₂) = true ↔
      secret ≠ 0 ∧ s ≠ 0 ∧ secret * B.keyDigest secret = s := by
  unfold verifyPossession
  by_cases hkey : B.publicKey secret = 0
  · have hsecret : secret = 0 := B.pairing.smul_g₁_eq_zero.mp hkey
    rw [if_pos hkey]
    simp [hsecret]
  · rw [if_neg hkey, verify_iff]
    rfl

/-- Every combination of the published proofs is refused as a proof of possession of the key `a • g₁ + ∑ bᵢ • pkᵢ`,
for some secrets and some hash function with these digests; the registry then stays as it is. -/
def RogueFree (a : ZMod r) (b s : ι → ZMod r) : Prop :=
  ∀ x : PossessionRecipe r ι, ∃ h t, B.SameView a b s h t ∧
    (B.withHash h).verifyPossession ((B.withHash h).rogueKey a b t) ((B.withHash h).combineProofs t x) = false ∧
    ∀ (g : ValidatorRegistry (B.withHash h).scheme) (address : Address),
      g.register ⟨address, (B.withHash h).rogueKey a b t, (B.withHash h).combineProofs t x⟩ =
        (.error (.invalidProofOfPossession address), g)

/-- The registry does what the proof says. -/
theorem register_of_refused {key : G₁} {proof : G₂} (h : B.verifyPossession key proof = false)
    (g : ValidatorRegistry B.scheme) (address : Address) :
    g.register ⟨address, key, proof⟩ = (.error (.invalidProofOfPossession address), g) := by
  have hscheme : B.scheme.verifyPossession key proof = false := h
  simp [register, hscheme]

/-! ## The attack -/

/-- The published proofs, divided by their own digests and multiplied by the digest of the new key. -/
def attack (a : ZMod r) (b s : ι → ZMod r) : PossessionRecipe r ι where
  base := a * B.keyDigest (rogueSecret a b s)
  coeff i := b i * B.keyDigest (rogueSecret a b s) / B.keyDigest (s i)

theorem attack_accepted {a : ZMod r} {b s : ι → ZMod r} (hrogue : B.keyDigest (rogueSecret a b s) ≠ 0)
    (hkeys : ∀ i, b i ≠ 0 → B.keyDigest (s i) ≠ 0) {h : Bytes → ZMod r} {t : ι → ZMod r}
    (hview : B.SameView a b s h t) :
    (B.withHash h).verifyPossession ((B.withHash h).rogueKey a b t)
      ((B.withHash h).combineProofs t (B.attack a b s)) = true := by
  have hterm : ∀ i, (B.attack a b s).coeff i * (t i * B.keyDigest (s i)) =
      B.keyDigest (rogueSecret a b s) * (b i * t i) := by
    intro i
    by_cases hb : b i = 0
    · simp [attack, hb]
    · have := hkeys i hb
      simp only [attack]
      field_simp
  rw [rogueKey_eq, combineProofs_eq_smul, verifyPossession_iff, hview.rogueDigest]
  simp only [hview.digests, hterm, ← Finset.mul_sum]
  have hsum : (B.attack a b s).base + B.keyDigest (rogueSecret a b s) * ∑ i, b i * t i =
      rogueSecret a b t * B.keyDigest (rogueSecret a b s) := by
    simp only [attack, rogueSecret]
    ring
  rw [hsum]
  exact ⟨hview.rogue, mul_ne_zero hview.rogue hrogue, rfl⟩

/-! ## When it does not apply -/

/-- A combination is a proof exactly when its scalar is the right one. -/
theorem refused_of_ne {a : ZMod r} {b s : ι → ZMod r} {h : Bytes → ZMod r} {t : ι → ZMod r}
    (hview : B.SameView a b s h t) (x : PossessionRecipe r ι)
    (hne : ¬ (rogueSecret a b t * B.keyDigest (rogueSecret a b s) ≠ 0 ∧
      rogueSecret a b t * B.keyDigest (rogueSecret a b s) = x.base + ∑ i, x.coeff i * (t i * B.keyDigest (s i)))) :
    (B.withHash h).verifyPossession ((B.withHash h).rogueKey a b t) ((B.withHash h).combineProofs t x) = false := by
  rw [← Bool.not_eq_true, rogueKey_eq, combineProofs_eq_smul, verifyPossession_iff, hview.rogueDigest]
  simp only [hview.digests]
  rintro ⟨-, hs, heq⟩
  exact hne ⟨heq ▸ hs, heq⟩

/-- **When proofs of possession stop rogue keys.** For honest keys and a key `a • g₁ + ∑ bᵢ • pkᵢ` that is not the
identity, no combination of the generator and the published proofs is a proof of possession of that key exactly when
its digest is zero (then it has no proof at all) or some honest key in the combination has digest zero. -/
theorem rogueFree_iff [DecidableEq ι] (hinj : Function.Injective B.serializeKey) (hr : 2 * Fintype.card ι + 3 < r)
    (a : ZMod r) (b s : ι → ZMod r) (hs : ∀ i, s i ≠ 0) (hrogue : rogueSecret a b s ≠ 0) :
    B.RogueFree a b s ↔
      B.keyDigest (rogueSecret a b s) = 0 ∨ ∃ i, b i ≠ 0 ∧ B.keyDigest (s i) = 0 := by
  constructor
  · intro hfree
    by_contra hcon
    push Not at hcon
    obtain ⟨h, t, hview, hrefused, -⟩ := hfree (B.attack a b s)
    rw [B.attack_accepted hcon.1 hcon.2 hview] at hrefused
    cases hrefused
  · intro hcond x
    -- it is enough to be refused in one view
    suffices hview : ∃ h t, B.SameView a b s h t ∧
        ¬ (rogueSecret a b t * B.keyDigest (rogueSecret a b s) ≠ 0 ∧
          rogueSecret a b t * B.keyDigest (rogueSecret a b s) =
            x.base + ∑ i, x.coeff i * (t i * B.keyDigest (s i))) by
      obtain ⟨h, t, hview, hne⟩ := hview
      have hrefused := B.refused_of_ne hview x hne
      exact ⟨h, t, hview, hrefused, (B.withHash h).register_of_refused hrefused⟩
    have hself := B.sameView_self hs hrogue
    by_cases hzero : B.keyDigest (rogueSecret a b s) = 0
    · exact ⟨_, s, hself, by simp [hzero]⟩
    · obtain ⟨i, hb, hi⟩ := hcond.resolve_left hzero
      by_cases haccepted : rogueSecret a b s * B.keyDigest (rogueSecret a b s) =
          x.base + ∑ i, x.coeff i * (s i * B.keyDigest (s i))
      · -- with another secret behind key `i` the combination is the same, and the proof is not
        obtain ⟨h, u, hu, hview⟩ := B.exists_other_view hinj hr hs hb hi hzero
        refine ⟨h, _, hview, fun ⟨_, heq⟩ => ?_⟩
        have hsum : ∑ j, x.coeff j * (Function.update s i u j * B.keyDigest (s j)) =
            ∑ j, x.coeff j * (s j * B.keyDigest (s j)) := by
          refine Finset.sum_congr rfl fun j _ => ?_
          by_cases hj : j = i
          · subst hj; simp [hi]
          · rw [Function.update_of_ne hj]
        rw [hsum, ← haccepted, rogueSecret_update] at heq
        have hprod : b i * (u - s i) * B.keyDigest (rogueSecret a b s) = 0 := by linear_combination heq
        rcases mul_eq_zero.mp hprod with hprod | hprod
        · exact (mul_ne_zero hb (sub_ne_zero.mpr hu)) hprod
        · exact hzero hprod
      · exact ⟨_, s, hself, fun h => haccepted h.2⟩

end Bls

/-- An honest key with digest zero (its proof is the identity) cannot be used. -/
theorem rogueFree_zero_digest : smallBls.RogueFree 1 (fun _ : Unit => 1) (fun _ => 61) :=
  (smallBls.rogueFree_iff (by decide +kernel) (by decide) 1 _ _ (by decide) (by decide)).mpr
    (.inr ⟨(), by decide, by decide +kernel⟩)

/-- The key `g₁ + pk` of nobody is registered with a proof made from the proof of `pk`. -/
theorem rogue_key_registered :
    ¬ smallBls.RogueFree 1 (fun _ : Unit => 1) (fun _ => 3) ∧
    ((ValidatorRegistry.new smallBls.scheme).register ⟨Address.zero,
      smallBls.rogueKey 1 (fun _ : Unit => 1) (fun _ => 3),
      smallBls.combineProofs (fun _ => 3) (smallBls.attack 1 (fun _ : Unit => 1) fun _ => 3)⟩).1 = .ok () := by
  constructor
  · intro hfree
    obtain ⟨h, t, hview, hrefused, -⟩ := hfree (smallBls.attack 1 _ _)
    rw [smallBls.attack_accepted (by decide +kernel) (by decide +kernel) hview] at hrefused
    cases hrefused
  · decide +kernel

end Subhost
