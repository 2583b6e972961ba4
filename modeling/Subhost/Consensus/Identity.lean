import Subhost.Consensus.Dag
/-!
# What a vertex hash stands for (subhost-consensus/src/lib.rs:112-122)

`DAGVertex::hash` takes the block in through `Block::hash`, which is the hash of the header alone. So a
vertex hash fixes the author, the round, the parents up to their order and the header
(`hash_eq_iff`), and reaches the transactions only through the header's `tx_root`. The ledger compares
that root with the transactions (subhost-storage/src/lib.rs:271); `add_vertex` never does.
-/
namespace Subhost
open Uint Bincode Codec Dag

namespace DagVertex

/-- Agreement of two vertices in what `hash` reads. -/
structure SameIdentity (v w : DagVertex) : Prop where
  author : v.author = w.author
  round : v.round = w.round
  parents : v.parents.Perm w.parents
  header : v.block.header = w.block.header

/-- Agreement in the transactions as well. -/
structure SameContent (v w : DagVertex) : Prop extends SameIdentity v w where
  transactions : v.block.transactions = w.block.transactions

section
variable [Blake3]

/-- The bytes `hash` hands to BLAKE3 (lib.rs:120). -/
def preimage (v : DagVertex) : Bytes :=
  (pair Address.codec (pair u64 (pair Hash.codec (list Hash.codec Hash.encode_ne_nil)))).encode
    (v.author, v.round, v.block.hash, sortBy compare v.parents)

/-- Everything hashed on the way to the vertex hash and to the root of its transactions. -/
def hashed (v : DagVertex) : List Bytes :=
  v.preimage :: BlockHeader.codec.encode v.block.header :: v.block.rootInputs

/-- The header carries the root of the block's own transactions. -/
def Rooted (v : DagVertex) : Prop := v.block.header.txRoot = v.block.txRoot

instance (v : DagVertex) : Decidable v.Rooted := inferInstanceAs (Decidable (_ = _))

theorem preimage_inj {v w : DagVertex} (h : v.preimage = w.preimage) :
    v.author = w.author ∧ v.round = w.round ∧ v.block.hash = w.block.hash ∧ v.parents.Perm w.parents := by
  simp only [preimage, encode_pair] at h
  obtain ⟨hauthor, h⟩ := v.author.readsBack.append_inj w.author.readsBack h
  obtain ⟨hround, h⟩ := (readsBack_u64 _).append_inj (readsBack_u64 _) h
  obtain ⟨hblock, h⟩ := v.block.hash.readsBack.append_inj w.block.hash.readsBack h
  have hparents := encode_list_inj (k := 32) (by decide) (fun a => by simp) h
  exact ⟨hauthor, hround, hblock, sortBy_eq_iff.mp hparents⟩

section TwoVertices
variable {v w : DagVertex} (hcf : CollisionFree (v.hashed ++ w.hashed))
include hcf

/-- Of the bytes hashed for the two vertices, equal digests come from equal bytes. -/
theorem eq_of_digest {x y : Bytes} (hx : x ∈ v.hashed) (hy : y ∈ w.hashed) (h : Blake3.hash x = Blake3.hash y) :
    x = y :=
  hcf x (List.mem_append_left _ hx) y (List.mem_append_right _ hy) h

theorem hash_eq_iff : v.hash = w.hash ↔ v.SameIdentity w := by
  constructor
  · intro h
    have hpre : v.preimage = w.preimage := eq_of_digest hcf (by simp [hashed]) (by simp [hashed]) h
    obtain ⟨hauthor, hround, hblock, hparents⟩ := preimage_inj hpre
    have hheader := eq_of_digest hcf (by simp [hashed]) (by simp [hashed]) hblock
    exact ⟨hauthor, hround, hparents, BlockHeader.encode_injective hheader⟩
  · rintro ⟨hauthor, hround, hparents, hheader⟩
    simp only [hash, hauthor, hround, Block.hash, hheader, sortBy_eq_iff.mpr hparents]

/-- **A vertex hash stands for author, round, parents and header.** Hashes agree exactly when these do, the
parents up to their order. They agree exactly when the transactions do as well, unless the two vertices put
different transactions under one header; where both headers carry the roots of their transactions that
cannot happen. -/
theorem vertex_identity :
    (v.hash = w.hash ↔ v.SameIdentity w) ∧
      ((v.hash = w.hash ↔ v.SameContent w) ↔
        (v.SameIdentity w → v.block.transactions = w.block.transactions)) ∧
      (v.Rooted → w.Rooted → (v.hash = w.hash ↔ v.SameContent w)) := by
  have hiff : (v.hash = w.hash ↔ v.SameContent w) ↔
      (v.SameIdentity w → v.block.transactions = w.block.transactions) := by
    rw [hash_eq_iff hcf]
    constructor
    · intro h hsame
      exact (h.mp hsame).transactions
    · intro h
      exact ⟨fun hsame => ⟨hsame, h hsame⟩, SameContent.toSameIdentity⟩
  refine ⟨hash_eq_iff hcf, hiff, fun hv hw => hiff.mpr fun hsame => ?_⟩
  have hinputs : ∀ u : DagVertex, u.block.rootInputs ⊆ u.hashed := fun u x hx => by simp [hashed, hx]
  refine Block.transactions_eq_of_txRoot (hcf.append_mono (hinputs v) (hinputs w)) ?_
  rw [← hv, ← hw, hsame.header]

end TwoVertices
end

/-! A vertex, its transaction, and the same vertex without it. -/

section Stripped
open scoped Concrete

def carried : Transaction := ⟨.transfer, 0, addressOf 1, some (addressOf 2), 5, 21000, 1, [], 1, .empty⟩

/-- A vertex of the round whose header carries the root of its one transaction. -/
def carrying (round : U64) (parents : List Hash) : DagVertex where
  author := addressOf 1
  round
  block := { emptyBlock with
    header := { emptyBlock.header with txRoot := txRootOf [carried.hash] }
    transactions := [carried] }
  parents
  signature := []

/-- The first round's vertex under the same header, without the transaction. -/
def stripped : DagVertex :=
  { carrying 1 [] with block := { (carrying 1 []).block with transactions := [] } }

theorem carrying_sameContent (round : U64) {parents parents' : List Hash} (h : parents.Perm parents') :
    (carrying round parents).SameContent (carrying round parents') :=
  ⟨⟨rfl, rfl, h, rfl⟩, rfl⟩

/-- Listing the parents in another order leaves the hash as it is. -/
theorem vertex_identity_reordered :
    let a := (carrying 1 []).hash
    let b := firstVertex.hash
    a ≠ b ∧ (carrying 2 [a, b]).hash = (carrying 2 [b, a]).hash := by
  intro a b
  have hcf : CollisionFree ((carrying 2 [a, b]).hashed ++ (carrying 2 [b, a]).hashed) := by decide +kernel
  refine ⟨by decide +kernel, ((vertex_identity hcf).2.2 (by decide +kernel) (by decide +kernel)).mpr ?_⟩
  exact carrying_sameContent 2 (List.Perm.swap _ _ _)

/-- Without its transaction the vertex is accepted under the same hash, and whoever sends the full one
afterwards is told that it is stored. -/
theorem stripped_same_hash :
    ((new soloConfig).addVertex (carrying 1 [])).1 = .ok (carrying 1 []).hash ∧
      ((new soloConfig).addVertex stripped).1 = .ok stripped.hash ∧
      stripped.hash = (carrying 1 []).hash ∧
      stripped.block.transactions ≠ (carrying 1 []).block.transactions ∧
      CollisionFree (stripped.hashed ++ (carrying 1 []).hashed) ∧
      (((new soloConfig).addVertex stripped).2.addVertex (carrying 1 [])).1 = .ok stripped.hash ∧
      (((new soloConfig).addVertex stripped).2.addVertex (carrying 1 [])).2.getRound 1 = [stripped] := by
  decide +kernel

end Stripped

end DagVertex
end Subhost
