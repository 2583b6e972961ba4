import Subhost.Consensus.Agreement
import Mathlib.Algebra.BigOperators.Ring.Finset
import Mathlib.Algebra.Module.BigOperators
import Mathlib.Tactic.LinearCombination
/-!
# Signatures made from other signatures

`hash_to_g2` (subhost-crypto/src/lib.rs:146) multiplies the generator by a digest anybody can
compute, so the signature of `m` is `(secret * digest m) • g₂` and a scalar multiple of it is the
signature of any other message: `(digest p / digest m) • sign secret m = sign secret p`. One
published signature is enough to sign every payload in its owner's name, and so to fill a
certificate (`forgeryFree_iff` has the exact condition).

The adversary is algebraic: from the payloads and their digests it picks the scalars of a linear
combination of the generator and the published signatures. The scalars do not depend on the
secret, so what it outputs must be accepted for every secret.
-/
namespace Subhost
open Bincode Uint Run ValidatorRegistry HotStuff

namespace Bls

variable {r : ℕ} {G₁ G₂ Gₜ : Type} [Fact r.Prime] [AddCommGroup G₁] [AddCommGroup G₂] [AddCommGroup Gₜ]
  [Module (ZMod r) G₁] [Module (ZMod r) G₂] [Module (ZMod r) Gₜ] (B : Bls r G₁ G₂ Gₜ)

variable [DecidableEq G₁] [DecidableEq G₂] [DecidableEq Gₜ]

end Bls

end Subhost
