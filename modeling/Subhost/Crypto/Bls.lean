import Subhost.Core.Types
import Subhost.Lib.Pairing
import Mathlib.Tactic.NormNum.Prime
/-!
# BLS signatures (subhost-crypto/src/lib.rs:24-155)

| here | there |
| --- | --- |
| `Bls.pairing`      | `ark_bls12_381`: the groups, their generators and `Bls12_381::pairing` |
| `Bls.sha3Scalar`   | `Scalar::from_le_bytes_mod_order(Sha3_384(..))`, an arbitrary function |
| `Bls.serializeKey` | `serialize_compressed` of a G1 point |
| `Bls.deserialize`  | `Signature::deserialize_compressed` of a G2 point |

`SigScheme` is all that the consensus crate uses of the scheme; `Bls.scheme` is its BLS instance.
-/
namespace Subhost
open Bincode

/-- What `subhost-consensus` calls of `subhost-crypto` and `ark_serialize`. -/
structure SigScheme where
  PublicKey : Type
  Signature : Type
  verify : PublicKey → Bytes → Signature → Bool
  verifyPossession : PublicKey → Signature → Bool
  deserialize : Bytes → Option Signature

/-- The bytes of an ASCII literal `b"..."`. -/
def ascii (s : String) : Bytes := s.toList.map fun c => UInt8.ofNat c.toNat

/-- `u64::to_be_bytes`. -/
def beBytes (n : Nat) : Bytes := (leBytes 8 n).reverse

/-- `BLS_DOMAIN` (lib.rs:27). -/
def blsDomain : Bytes := ascii "subhost-bls-01"

/-- The third-party parts of `BLSScheme`. -/
structure Bls (r : ℕ) (G₁ G₂ Gₜ : Type) [Fact r.Prime] [AddCommGroup G₁] [AddCommGroup G₂] [AddCommGroup Gₜ]
    [Module (ZMod r) G₁] [Module (ZMod r) G₂] [Module (ZMod r) Gₜ] where
  pairing : Pairing r G₁ G₂ Gₜ
  sha3Scalar : Bytes → ZMod r
  serializeKey : G₁ → Bytes
  serialize : G₂ → Bytes
  deserialize : Bytes → Option G₂

namespace Bls

variable {r : ℕ} {G₁ G₂ Gₜ : Type} [Fact r.Prime] [AddCommGroup G₁] [AddCommGroup G₂] [AddCommGroup Gₜ]
  [Module (ZMod r) G₁] [Module (ZMod r) G₂] [Module (ZMod r) Gₜ] (B : Bls r G₁ G₂ Gₜ)

/-- The reduced digest of a message: domain tag, big-endian length, message (lib.rs:149-154). -/
def digest (message : Bytes) : ZMod r := B.sha3Scalar (blsDomain ++ beBytes message.length ++ message)

/-- `BLSScheme::hash_to_g2` (lib.rs:146): a known multiple of the generator. -/
def hashToG2 (message : Bytes) : G₂ := B.digest message • B.pairing.g₂

/-- The public key of a secret scalar (lib.rs:59). -/
def publicKey (secret : ZMod r) : G₁ := secret • B.pairing.g₁

/-- `BLSScheme::sign` (lib.rs:63). -/
def sign (secret : ZMod r) (message : Bytes) : G₂ := secret • B.hashToG2 message

theorem sign_eq_smul (secret : ZMod r) (message : Bytes) :
    B.sign secret message = (secret * B.digest message) • B.pairing.g₂ := by
  rw [sign, hashToG2, smul_smul]

variable [DecidableEq G₁] [DecidableEq G₂] [DecidableEq Gₜ]

/-- `BLSScheme::verify` (lib.rs:68). -/
def verify (key : G₁) (message : Bytes) (signature : G₂) : Bool :=
  if key = 0 ∨ signature = 0 then false
  else decide (B.pairing.pair key (B.hashToG2 message) = B.pairing.pair B.pairing.g₁ signature)

/-- `Bls12_381::pairing`. -/
def pairingOf (x : G₁) (y : G₂) : Gₜ := B.pairing.pair x y

/-- `BLSScheme::verify_possession` (lib.rs:128). -/
def verifyPossession (key : G₁) (proof : G₂) : Bool :=
  if key = 0 then false else B.verify key (B.serializeKey key) proof

/-- `BLSScheme::proof_of_possession` (lib.rs:122). -/
def proofOfPossession (secret : ZMod r) : G₂ := B.sign secret (B.serializeKey (B.publicKey secret))

def scheme : SigScheme where
  PublicKey := G₁
  Signature := G₂
  verify := B.verify
  verifyPossession := B.verifyPossession
  deserialize := B.deserialize

/-- `verify` in the exponents: the signature of `s • g₂` is accepted for the key of `secret`
exactly when neither is the identity and `s` is the product of secret and digest. -/
theorem verify_iff (secret s : ZMod r) (message : Bytes) :
    B.verify (B.publicKey secret) message (s • B.pairing.g₂) = true ↔
      secret ≠ 0 ∧ s ≠ 0 ∧ secret * B.digest message = s := by
  unfold verify publicKey hashToG2
  split
  · rename_i hzero
    rw [B.pairing.smul_g₁_eq_zero, B.pairing.smul_g₂_eq_zero] at hzero
    simp only [Bool.false_eq_true, false_iff]
    rintro ⟨hk, hs, -⟩
    exact hzero.elim hk hs
  · rename_i hzero
    rw [B.pairing.smul_g₁_eq_zero, B.pairing.smul_g₂_eq_zero, not_or] at hzero
    rw [decide_eq_true_iff, B.pairing.pair_eq_iff]
    exact ⟨fun h => ⟨hzero.1, hzero.2, h⟩, fun h => h.2.2⟩

/-- An honest signature verifies, unless the digest of the message is zero. -/
theorem verify_sign {secret : ZMod r} {message : Bytes} (hs : secret ≠ 0) (hd : B.digest message ≠ 0) :
    B.verify (B.publicKey secret) message (B.sign secret message) = true := by
  rw [sign_eq_smul, verify_iff]
  exact ⟨hs, mul_ne_zero hs hd, rfl⟩

end Bls

/-! ## A small instance

The groups are `ZMod 101`, the digest is a polynomial in the bytes, a signature is its scalar in
the first of 96 bytes. It satisfies every law of the parameters and can be evaluated. -/

instance prime101 : Fact (Nat.Prime 101) := ⟨by norm_num⟩

def smallBls : Bls 101 (ZMod 101) (ZMod 101) (ZMod 101) where
  pairing := Pairing.mul 101
  sha3Scalar bytes := bytes.foldl (fun acc b => 31 * acc + (b.toNat : ZMod 101)) 7
  serializeKey key := [UInt8.ofNat key.val]
  serialize s := UInt8.ofNat s.val :: List.replicate 95 0
  deserialize
    | [] => none
    | b :: rest => if rest = List.replicate 95 0 ∧ b.toNat < 101 then some (b.toNat : ZMod 101) else none

theorem smallBls_deserialize_serialize (s : ZMod 101) : smallBls.deserialize (smallBls.serialize s) = some s := by
  revert s
  decide +kernel

instance : DecidableEq smallBls.scheme.PublicKey := inferInstanceAs (DecidableEq (ZMod 101))

end Subhost
