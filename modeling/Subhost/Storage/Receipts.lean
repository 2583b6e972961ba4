import Subhost.Storage.Binding
/-!
# One receipt a block (subhost-storage/src/lib.rs:246-318)

`validate_chain` counts receipts and blocks, refuses two receipts that name one block, and looks every named
block up. It never compares block hashes with each other. `receipts_biject`: that is enough, whatever the hash
function does, since as many distinct names as there are blocks leave no block hash to be used twice.
-/
namespace Subhost
open Uint Bincode Codec

/-- Two lists with the same distinct keys: each position of one has its position in the other. -/
theorem existsUnique_get_of_perm {α β κ : Type} {f : α → κ} {g : β → κ} {l : List α} {m : List β}
    (hperm : (m.map g).Perm (l.map f)) (hnodup : (m.map g).Nodup) (i : Fin l.length) :
    ∃! j : Fin m.length, g (m.get j) = f (l.get i) := by
  have hmem : f (l.get i) ∈ m.map g := hperm.mem_iff.mpr (List.mem_map_of_mem (List.get_mem l i))
  obtain ⟨b, hb, hkey⟩ := List.mem_map.mp hmem
  obtain ⟨j, rfl⟩ := List.mem_iff_get.mp hb
  refine ⟨j, hkey, fun j' hkey' => ?_⟩
  have hsame : m.get j' = m.get j :=
    List.inj_on_of_nodup_map hnodup (List.get_mem m j') (List.get_mem m j) (hkey'.trans hkey.symm)
  exact List.nodup_iff_injective_get.mp (hnodup.of_map g) hsame

section
variable [Blake3]

/-- Each block names the one before. -/
theorem parent_of_get {chainId : ChainId} {index : Nat} {parent : Hash} {blocks : List Block} {i : Nat}
    {block next : Block} (h : Linked chainId index parent blocks) (hblock : blocks[i]? = some block)
    (hnext : blocks[i + 1]? = some next) : next.header.parentHash = block.hash := by
  induction blocks generalizing index parent i with
  | nil => cases hblock
  | cons b rest ih =>
    cases i with
    | zero =>
      cases hblock
      cases rest with
      | nil => cases hnext
      | cons b' rest =>
        cases hnext
        exact h.2.1.parent_eq
    | succ i => exact ih h.2 hblock hnext

theorem parent_of_first {chainId : ChainId} {index : Nat} {parent : Hash} {blocks : List Block} {block : Block}
    (h : Linked chainId index parent blocks) (hblock : blocks[0]? = some block) :
    block.header.parentHash = parent := by
  cases blocks with
  | nil => cases hblock
  | cons b rest =>
    cases hblock
    exact h.1.parent_eq

/-- **Receipts and blocks are in bijection.** In every ledger the validator accepts, each block is named by
exactly one receipt and each receipt names exactly one block, counted by position; the receipt carries the
hash of the block's only transaction, its height and gas, and success. Block `i` has height `i + 1` and the
hash of the block before it as parent, the first one the zero hash. -/
theorem receipts_biject (blocks : List Block) (receipts : List Receipt) (chainId : ChainId) (state : State)
    (hok : validateChain blocks receipts chainId state = .ok ()) :
    (∀ i : Fin blocks.length, ∃! j : Fin receipts.length, (receipts.get j).blockHash = (blocks.get i).hash) ∧
    (∀ j : Fin receipts.length, ∃! i : Fin blocks.length, (blocks.get i).hash = (receipts.get j).blockHash) ∧
    (∀ r ∈ receipts, ∀ b ∈ blocks, b.hash = r.blockHash → ∃ tx, b.transactions = [tx] ∧ r.txHash = tx.hash ∧
      r.blockHeight = b.header.height ∧ r.gasUsed = b.header.gasUsed ∧ r.status = .success) ∧
    (∀ i b, blocks[i]? = some b → b.header.height.toNat = i + 1) ∧
    (∀ b, blocks[0]? = some b → b.header.parentHash = Hash.zero) ∧
    ∀ i b b', blocks[i]? = some b → blocks[i + 1]? = some b' → b'.header.parentHash = b.hash := by
  have hvalid := validateChain_ok_iff.mp hok
  refine ⟨?_, ?_, ?_, ?_, ?_, ?_⟩
  · exact existsUnique_get_of_perm hvalid.receipts_perm hvalid.receipts_nodup
  · exact existsUnique_get_of_perm hvalid.receipts_perm.symm hvalid.hashes_nodup
  · intro r hr b hb hhash
    exact hvalid.receipt_matches hb hhash (hvalid.receipts_ok r hr)
  · intro i b hb
    have hheight := height_of_get hvalid.linked hb
    rwa [Nat.zero_add] at hheight
  · intro b hb
    exact parent_of_first hvalid.linked hb
  · intro i b b' hb hb'
    exact parent_of_get hvalid.linked hb hb'

end

section
open scoped Concrete

/-- Two blocks, and their receipts in the other order. -/
theorem receipts_biject_two :
    (∃! j : Fin 2, ([repeatedReceipt, unexecutedReceipt].get j).blockHash = unexecutedBlock.hash) ∧
    repeatedBlock.header.parentHash = unexecutedBlock.hash ∧ repeatedBlock.header.height.toNat = 2 := by
  obtain ⟨hreceipt, -, -, hheight, -, hparent⟩ := receipts_biject [unexecutedBlock, repeatedBlock]
    [repeatedReceipt, unexecutedReceipt] 1 unexecutedState (by decide +kernel)
  exact ⟨hreceipt 0, hparent 0 _ _ rfl rfl, hheight 1 _ rfl⟩

end
end Subhost
