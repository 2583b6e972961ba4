import Subhost.Crypto.Bls
/-!
# Aggregate signatures (subhost-crypto/src/lib.rs:77-119)

| here | there |
| --- | --- |
| `Bls.aggregatePublicKeys`           | `BLSScheme::aggregate_public_keys` (lib.rs:78) |
| `Bls.aggregateSignatures`           | `BLSScheme::aggregate_signatures` (lib.rs:83) |
| `Bls.verifyAggregate`               | `BLSScheme::verify_aggregate` (lib.rs:88) |
| `Bls.verifyAggregateSharedMessage`  | `BLSScheme::verify_aggregate_shared_message` (lib.rs:110) |

The target group is written additively: `product *= ..` is `product + ..`, `TargetField::ONE` is `0`.

One verifier multiplies pairings key by key, the other adds the keys up and hands the sum to `verify`, which has
identity checks of its own. They agree (`verifyAggregateSharedMessage_eq`): where the keys cancel out, the product
of the pairings is one, and no signature but the identity pairs to one with the generator.
-/
namespace Subhost
open Bincode

namespace Bls

section Sums
variable {G₁ G₂ : Type} [AddCommGroup G₁] [AddCommGroup G₂]

/-- `BLSScheme::aggregate_public_keys` (lib.rs:78). -/
def aggregatePublicKeys (keys : List G₁) : G₁ := keys.foldl (fun sum key => sum + key) 0

/-- `BLSScheme::aggregate_signatures` (lib.rs:83). -/
def aggregateSignatures (signatures : List G₂) : G₂ := signatures.foldl (fun sum signature => sum + signature) 0

theorem aggregatePublicKeys_eq_sum (keys : List G₁) : aggregatePublicKeys keys = keys.sum := List.sum_eq_foldl.symm

theorem aggregateSignatures_eq_sum (signatures : List G₂) : aggregateSignatures signatures = signatures.sum :=
  List.sum_eq_foldl.symm

end Sums

variable {r : ℕ} {G₁ G₂ Gₜ : Type} [Fact r.Prime] [AddCommGroup G₁] [AddCommGroup G₂] [AddCommGroup Gₜ]
  [Module (ZMod r) G₁] [Module (ZMod r) G₂] [Module (ZMod r) Gₜ] (B : Bls r G₁ G₂ Gₜ)

/-- The loop of `verify_aggregate` (lib.rs:98-100). -/
def pairings (product : Gₜ) (signed : List (G₁ × Bytes)) : Gₜ :=
  signed.foldl (fun product (key, message) => product + B.pairingOf key (B.hashToG2 message)) product

theorem pairings_eq_sum (product : Gₜ) (signed : List (G₁ × Bytes)) :
    B.pairings product signed = product + (signed.map fun x => B.pairingOf x.1 (B.hashToG2 x.2)).sum := by
  induction signed generalizing product with
  | nil => simp [pairings]
  | cons x signed ih =>
    rw [List.map_cons, List.sum_cons, ← add_assoc]
    exact ih _

theorem pairingOf_add_left (x y : G₁) (z : G₂) : B.pairingOf (x + y) z = B.pairingOf x z + B.pairingOf y z := by
  simp only [pairingOf, map_add, LinearMap.add_apply]

theorem pairingOf_add_right (x : G₁) (y z : G₂) : B.pairingOf x (y + z) = B.pairingOf x y + B.pairingOf x z := by
  simp only [pairingOf, map_add]

theorem pairingOf_zero_left (z : G₂) : B.pairingOf 0 z = 0 := by
  simp only [pairingOf, map_zero, LinearMap.zero_apply]

theorem pairingOf_sign (secret : ZMod r) (message : Bytes) :
    B.pairingOf (B.publicKey secret) (B.hashToG2 message) = B.pairingOf B.pairing.g₁ (B.sign secret message) := by
  simp only [pairingOf, publicKey, sign, map_smul, LinearMap.smul_apply]

/-- Over one message the pairings add up to the pairing of the summed keys. -/
theorem pairings_replicate (keys : List G₁) (message : Bytes) :
    B.pairings 0 (keys.zip (List.replicate keys.length message)) = B.pairingOf keys.sum (B.hashToG2 message) := by
  rw [pairings_eq_sum, zero_add]
  induction keys with
  | nil => simp [pairingOf_zero_left]
  | cons key keys ih =>
    rw [List.length_cons, List.replicate_succ, List.zip_cons_cons, List.map_cons, List.sum_cons, ih, List.sum_cons,
      pairingOf_add_left]

/-- Over the signers' own messages they are what their summed signatures pair to with the generator. -/
theorem pairings_signed (signers : List (ZMod r × Bytes)) :
    B.pairings 0 ((signers.map fun s => B.publicKey s.1).zip (signers.map Prod.snd)) =
      B.pairingOf B.pairing.g₁ (signers.map fun s => B.sign s.1 s.2).sum := by
  rw [pairings_eq_sum, zero_add]
  induction signers with
  | nil => simp [pairingOf]
  | cons s signers ih =>
    simp only [List.map_cons, List.zip_cons_cons, List.sum_cons, pairingOf_sign, ih, pairingOf_add_right]

variable [DecidableEq G₁] [DecidableEq G₂] [DecidableEq Gₜ]

/-- `BLSScheme::verify_aggregate` (lib.rs:88). -/
def verifyAggregate (keys : List G₁) (messages : List Bytes) (aggregate : G₂) : Bool :=
  if keys.isEmpty ∨ keys.length ≠ messages.length ∨ aggregate = 0 ∨ keys.any (fun key => decide (key = 0)) then false
  else decide (B.pairings 0 (keys.zip messages) = B.pairingOf B.pairing.g₁ aggregate)

/-- `BLSScheme::verify_aggregate_shared_message` (lib.rs:110). -/
def verifyAggregateSharedMessage (keys : List G₁) (message : Bytes) (aggregate : G₂) : Bool :=
  if keys.isEmpty ∨ aggregate = 0 ∨ keys.any (fun key => decide (key = 0)) then false
  else B.verify (aggregatePublicKeys keys) message aggregate

/-- `verify` without its check of the key: a key that is the identity pairs to zero with every message, and only
the identity signature does so with the generator. -/
theorem verify_eq_decide {signature : G₂} (hsig : signature ≠ 0) (key : G₁) (message : Bytes) :
    B.verify key message signature =
      decide (B.pairingOf key (B.hashToG2 message) = B.pairingOf B.pairing.g₁ signature) := by
  by_cases hkey : key = 0
  · have hne : B.pairingOf B.pairing.g₁ signature ≠ 0 := fun h => hsig (B.pairing.pair_g₁_eq_zero.mp h)
    rw [verify, if_pos (.inl hkey), hkey, pairingOf_zero_left, decide_eq_false hne.symm]
  · rw [verify, if_neg (not_or.mpr ⟨hkey, hsig⟩)]
    rfl

/-- **The two aggregate verifiers agree** on every list of keys, every message and every signature. -/
theorem verifyAggregateSharedMessage_eq (keys : List G₁) (message : Bytes) (aggregate : G₂) :
    B.verifyAggregateSharedMessage keys message aggregate =
      B.verifyAggregate keys (List.replicate keys.length message) aggregate := by
  unfold verifyAggregateSharedMessage verifyAggregate
  simp only [List.length_replicate, ne_eq, not_true_eq_false, false_or]
  split
  · rfl
  · rename_i hchecks
    have hsig : aggregate ≠ 0 := fun h => hchecks (.inr (.inl h))
    rw [verify_eq_decide B hsig, aggregatePublicKeys_eq_sum, pairings_replicate]

/-- Keys that cancel out: both verifiers refuse. -/
theorem verifyAggregateSharedMessage_cancelling :
    aggregatePublicKeys [smallBls.publicKey 1, smallBls.publicKey 100] = 0 ∧
      smallBls.verifyAggregateSharedMessage [smallBls.publicKey 1, smallBls.publicKey 100] [7] 5 =
        smallBls.verifyAggregate [smallBls.publicKey 1, smallBls.publicKey 100] [[7], [7]] 5 ∧
      smallBls.verifyAggregate [smallBls.publicKey 1, smallBls.publicKey 100] [[7], [7]] 5 = false := by
  refine ⟨by decide +kernel, ?_, by decide +kernel⟩
  exact smallBls.verifyAggregateSharedMessage_eq [smallBls.publicKey 1, smallBls.publicKey 100] [7] 5

/-- Honest signatures over the signers' own messages verify, unless a secret is zero or they cancel out. -/
theorem verifyAggregate_sign_iff (signers : List (ZMod r × Bytes)) :
    B.verifyAggregate (signers.map fun s => B.publicKey s.1) (signers.map Prod.snd)
        (aggregateSignatures (signers.map fun s => B.sign s.1 s.2)) = true ↔
      signers ≠ [] ∧ (∀ s ∈ signers, s.1 ≠ 0) ∧ (signers.map fun s => s.1 * B.digest s.2).sum ≠ 0 := by
  have hsum : (signers.map fun s => B.sign s.1 s.2).sum =
      (signers.map fun s => s.1 * B.digest s.2).sum • B.pairing.g₂ := by
    induction signers with
    | nil => simp
    | cons s signers ih => rw [List.map_cons, List.sum_cons, ih, sign_eq_smul, List.map_cons, List.sum_cons, add_smul]
  have hkeys : (signers.map fun s => B.publicKey s.1).any (fun key => decide (key = 0)) = true ↔
      ∃ s ∈ signers, s.1 = 0 := by
    simp [publicKey, B.pairing.smul_g₁_eq_zero]
  simp only [verifyAggregate, aggregateSignatures_eq_sum, pairings_signed, hsum, B.pairing.smul_g₂_eq_zero, hkeys,
    List.isEmpty_map, List.isEmpty_iff, List.length_map, ne_eq, not_true_eq_false, false_or, decide_true,
    Bool.ite_eq_true_distrib]
  split
  · rename_i hrefused
    refine iff_of_false (by simp) ?_
    rintro ⟨hsome, hsecrets, hcancel⟩
    rcases hrefused with hnil | hzero | ⟨s, hs, hzero⟩
    · exact hsome hnil
    · exact hcancel hzero
    · exact hsecrets s hs hzero
  · rename_i hpassed
    rw [not_or, not_or] at hpassed
    exact iff_of_true trivial ⟨hpassed.1, fun s hs hzero => hpassed.2.2 ⟨s, hs, hzero⟩, hpassed.2.1⟩

end Bls
end Subhost
