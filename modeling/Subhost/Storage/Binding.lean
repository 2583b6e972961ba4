import Subhost.Storage.Canonical
/-!
# The head hash binds the ledger (subhost-storage/src/lib.rs:232-318)

Two ledgers that `validate_chain` accepts and whose newest blocks have one hash are the same ledger, up
to what no hash covers: the validator signatures of a block, and the logs and contract address of a
receipt. The argument goes backwards from the head. Equal headers have equal heights, hence the chains
are equally long; they have equal parent hashes, hence the blocks before have equal hashes
(`headers_eq`). Headers then give the transactions through `tx_root` and the state through `state_root`,
and as every block has exactly one receipt, the receipts (`ValidChain.map_receipts_perm`).
-/
namespace Subhost
open Uint Bincode Codec

/-- The fields of a receipt that `validate_chain` checks. -/
def Receipt.checked (r : Receipt) : Hash × Hash × BlockHeight × Gas × ReceiptStatus :=
  (r.txHash, r.blockHash, r.blockHeight, r.gasUsed, r.status)

/-- The list of transaction hashes under a block's `tx_root`. -/
def txHashes [Blake3] (block : Block) : List Hash := block.transactions.map Transaction.hash

/-- Every byte string hashed for a ledger's headers, transaction roots, transactions and state. -/
def ledgerBytes [Blake3] (blocks : List Block) (state : State) : List Bytes :=
  blocks.map (fun b => BlockHeader.codec.encode b.header) ++
    blocks.map (fun b => (list Hash.codec Hash.encode_ne_nil).encode (txHashes b)) ++
    (blocks.flatMap Block.transactions).map Transaction.codec.encode ++ [StateSnapshot.codec.encode state.snapshot]

section
variable [Blake3]

/-! ## What a ledger's hashes determine -/

section Hashes
variable {blocks : List Block} {state : State} {b : Block}

theorem header_mem_ledgerBytes (hb : b ∈ blocks) : BlockHeader.codec.encode b.header ∈ ledgerBytes blocks state := by
  simp only [ledgerBytes, List.mem_append, List.mem_map]
  exact .inl (.inl (.inl ⟨b, hb, rfl⟩))

theorem txHashes_mem_ledgerBytes (hb : b ∈ blocks) :
    (list Hash.codec Hash.encode_ne_nil).encode (txHashes b) ∈ ledgerBytes blocks state := by
  simp only [ledgerBytes, List.mem_append, List.mem_map]
  exact .inl (.inl (.inr ⟨b, hb, rfl⟩))

theorem tx_mem_ledgerBytes (hb : b ∈ blocks) {tx : Transaction} (htx : tx ∈ b.transactions) :
    Transaction.codec.encode tx ∈ ledgerBytes blocks state := by
  simp only [ledgerBytes, List.mem_append, List.mem_map, List.mem_flatMap]
  exact .inl (.inr ⟨tx, ⟨b, hb, htx⟩, rfl⟩)

theorem rootInputs_subset_ledgerBytes (hb : b ∈ blocks) : b.rootInputs ⊆ ledgerBytes blocks state := by
  refine List.cons_subset.mpr ⟨txHashes_mem_ledgerBytes hb, fun x hx => ?_⟩
  obtain ⟨tx, htx, rfl⟩ := List.mem_map.mp hx
  exact tx_mem_ledgerBytes hb htx

/-- The header of a well-formed block carries the root of its transactions. -/
theorem BlockOk.txRoot_eq {chainId : ChainId} {i : Nat} {p : Hash} (h : BlockOk chainId i p b) :
    b.header.txRoot = b.txRoot := by
  obtain ⟨tx, htx, hroot, -⟩ := h.committed
  rw [hroot, Block.txRoot, htx]
  rfl

theorem state_mem_ledgerBytes : StateSnapshot.codec.encode state.snapshot ∈ ledgerBytes blocks state := by
  simp [ledgerBytes]

end Hashes

section TwoLedgers
variable {blocks blocks' : List Block} {state state' : State}
  (hcf : CollisionFree (ledgerBytes blocks state ++ ledgerBytes blocks' state'))
include hcf

theorem header_eq_of_hash {b b' : Block} (hb : b ∈ blocks) (hb' : b' ∈ blocks') (h : b.hash = b'.hash) :
    b.header = b'.header :=
  BlockHeader.encode_injective (hcf _ (List.mem_append_left _ (header_mem_ledgerBytes hb)) _
    (List.mem_append_right _ (header_mem_ledgerBytes hb')) h)

theorem state_eq_of_root (h : state.root = state'.root) : state = state' := by
  refine State.root_inj (hcf.mono fun x hx => ?_) h
  rcases List.mem_pair.mp hx with rfl | rfl
  · exact List.mem_append_left _ state_mem_ledgerBytes
  · exact List.mem_append_right _ state_mem_ledgerBytes

/-- Well-formed blocks with equal headers hold equal transactions. -/
theorem transactions_eq {chainId : ChainId} {i j : Nat} {p q : Hash} {b b' : Block} (hb : b ∈ blocks)
    (hb' : b' ∈ blocks') (hok : BlockOk chainId i p b) (hok' : BlockOk chainId j q b')
    (hheader : b.header = b'.header) : b.transactions = b'.transactions := by
  refine Block.transactions_eq_of_txRoot
    (hcf.append_mono (rootInputs_subset_ledgerBytes hb) (rootInputs_subset_ledgerBytes hb')) ?_
  rw [← hok.txRoot_eq, ← hok'.txRoot_eq, hheader]

end TwoLedgers

/-! ## Backwards from the head -/

/-- Linked chains whose heads have one hash have the same headers, where equal block hashes mean equal
headers. -/
theorem headers_eq {chainId : ChainId} {blocks blocks' : List Block} (h : Linked chainId 0 Hash.zero blocks)
    (h' : Linked chainId 0 Hash.zero blocks')
    (hinj : ∀ b ∈ blocks, ∀ b' ∈ blocks', b.hash = b'.hash → b.header = b'.header)
    (hhead : blocks.getLast?.map Block.hash = blocks'.getLast?.map Block.hash) :
    blocks.map Block.header = blocks'.map Block.header := by
  induction blocks using List.reverseRecOn generalizing blocks' with
  | nil =>
    cases hlast : blocks'.getLast? with
    | none => rw [List.getLast?_eq_none_iff.mp hlast]
    | some b' => simp [hlast] at hhead
  | append_singleton front b ih =>
    rw [List.getLast?_concat, Option.map_some] at hhead
    obtain ⟨b', hlast, hhash⟩ := Option.map_eq_some_iff.mp hhead.symm
    obtain ⟨front', rfl⟩ := List.getLast?_eq_some_iff.mp hlast
    obtain ⟨hfront, hok⟩ := linked_append.mp h
    obtain ⟨hfront', hok'⟩ := linked_append.mp h'
    have hheader : b.header = b'.header := hinj b (by simp) b' (by simp) hhash.symm
    have hlength : front.length = front'.length := by
      have hheights := hok.height
      rw [hheader, hok'.height] at hheights
      omega
    -- the parents have equal hashes, so the induction goes on to the blocks before
    have hparents : front.getLast?.map Block.hash = front'.getLast?.map Block.hash := by
      have hparent : front.getLast?.elim Hash.zero Block.hash = front'.getLast?.elim Hash.zero Block.hash := by
        rw [← hok.parent_eq, ← hok'.parent_eq, hheader]
      cases hl : front.getLast? with
      | none =>
        rw [List.getLast?_eq_none_iff] at hl
        subst hl
        rw [List.length_nil] at hlength
        rw [List.length_eq_zero_iff.mp hlength.symm]
        rfl
      | some a =>
        cases hl' : front'.getLast? with
        | none =>
          rw [List.getLast?_eq_none_iff] at hl'
          subst hl'
          rw [List.length_eq_zero_iff.mp hlength] at hl
          cases hl
        | some a' => simpa [hl, hl'] using hparent
    have hrest := ih hfront hfront' (fun a ha a' ha' => hinj a (by simp [ha]) a' (by simp [ha'])) hparents
    rw [List.map_append, List.map_append, hrest, List.map_singleton, List.map_singleton, hheader]

/-! ## One receipt a block -/

/-- Block hashes of an accepted ledger are distinct: its receipts are, and correspond to them. -/
theorem ValidChain.hashes_nodup {blocks : List Block} {receipts : List Receipt} {chainId : ChainId} {state : State}
    (h : ValidChain blocks receipts chainId state) : (blocks.map Block.hash).Nodup :=
  h.receipts_perm.nodup_iff.mp h.receipts_nodup

/-- What is a function of a receipt, and the same function of its block, is listed equally by the receipts
and by the blocks of an accepted ledger. -/
theorem ValidChain.map_receipts_perm {blocks : List Block} {receipts : List Receipt} {chainId : ChainId}
    {state : State} (h : ValidChain blocks receipts chainId state) {α : Type} {f : Receipt → α} {g : Block → α}
    (hfg : ∀ r b, b ∈ blocks → b.hash = r.blockHash → ReceiptOk blocks r → f r = g b) :
    (receipts.map f).Perm (blocks.map g) := by
  -- both sides are read off the block hashes, through the block a hash belongs to
  let look : Hash → Option α := fun x => (blocks.find? fun b => b.hash = x).map g
  have hblocks : ∀ b ∈ blocks, look b.hash = some (g b) := by
    intro b hb
    simp only [look, (find?_hash_eq_some h.hashes_nodup).mpr ⟨hb, rfl⟩, Option.map_some]
  have hreceipts : ∀ r ∈ receipts, look r.blockHash = some (f r) := by
    intro r hr
    obtain ⟨b, hfind, -⟩ := h.receipts_ok r hr
    obtain ⟨hb, hhash⟩ := (find?_hash_eq_some h.hashes_nodup).mp hfind
    rw [hfg r b hb hhash (h.receipts_ok r hr), ← hhash]
    exact hblocks b hb
  have hperm := h.receipts_perm.map look
  have hleft : (receipts.map Receipt.blockHash).map look = (receipts.map f).map some := by
    simpa using hreceipts
  have hright : (blocks.map Block.hash).map look = (blocks.map g).map some := by
    simpa using hblocks
  rw [hleft, hright] at hperm
  exact (List.map_perm_map_iff (Option.some_injective α)).mp hperm

/-- The checked fields of the receipt a block must have. -/
def receiptOfBlock (b : Block) : Hash × Hash × BlockHeight × Gas × ReceiptStatus :=
  ((txHashes b).headD Hash.zero, b.hash, b.header.height, b.header.gasUsed, .success)

/-- The receipt that names a block is the receipt of the block's only transaction. -/
theorem ValidChain.receipt_matches {blocks : List Block} {receipts : List Receipt} {chainId : ChainId} {state : State}
    (h : ValidChain blocks receipts chainId state) {r : Receipt} {b : Block} (hb : b ∈ blocks)
    (hhash : b.hash = r.blockHash) (hok : ReceiptOk blocks r) :
    ∃ tx, b.transactions = [tx] ∧ r.txHash = tx.hash ∧ r.blockHeight = b.header.height ∧
      r.gasUsed = b.header.gasUsed ∧ r.status = .success := by
  obtain ⟨b', hfind, hheight, ⟨tx, htx, htxHash⟩, hstatus, hgas, -⟩ := hok
  obtain rfl : b = b' := Option.some.inj (((find?_hash_eq_some h.hashes_nodup).mpr ⟨hb, hhash⟩).symm.trans hfind)
  obtain ⟨i, p, hblock, -⟩ := blockOk_of_mem h.linked hb
  obtain ⟨tx', htxs, -⟩ := hblock.committed
  rw [htxs, List.mem_singleton] at htx
  subst htx
  exact ⟨tx, htxs, htxHash.symm, hheight, hgas, hstatus⟩

theorem ValidChain.checked_perm {blocks : List Block} {receipts : List Receipt} {chainId : ChainId} {state : State}
    (h : ValidChain blocks receipts chainId state) :
    (receipts.map Receipt.checked).Perm (blocks.map receiptOfBlock) := by
  refine h.map_receipts_perm fun r b hb hhash hok => ?_
  obtain ⟨tx, htxs, htxHash, hheight, hgas, hstatus⟩ := h.receipt_matches hb hhash hok
  simp [Receipt.checked, receiptOfBlock, txHashes, htxs, htxHash, hhash, hheight, hstatus, hgas]

omit [Blake3] in
theorem map_eq_of_forall₂ {α : Type} {R : Block → Block → Prop} {f : Block → α} {blocks blocks' : List Block}
    (h : List.Forall₂ R blocks blocks') (hf : ∀ b b', R b b' → f b = f b') : blocks.map f = blocks'.map f := by
  induction h with
  | nil => rfl
  | cons hb _ ih => rw [List.map_cons, List.map_cons, hf _ _ hb, ih]

/-- **The head hash binds the whole ledger.** Two ledgers accepted for one chain id whose newest blocks
have the same hash have equally many blocks with pairwise equal headers and transactions, the same state
and, as far as the validator checks them, the same receipts. -/
theorem head_binds_ledger (chainId : ChainId) (blocks blocks' : List Block) (receipts receipts' : List Receipt)
    (state state' : State) (hok : validateChain blocks receipts chainId state = .ok ())
    (hok' : validateChain blocks' receipts' chainId state' = .ok ()) (last last' : Block)
    (hlast : blocks.getLast? = some last) (hlast' : blocks'.getLast? = some last') (hhead : last.hash = last'.hash)
    (hcf : CollisionFree (ledgerBytes blocks state ++ ledgerBytes blocks' state')) :
    blocks.length = blocks'.length ∧ blocks.map Block.header = blocks'.map Block.header ∧
    blocks.map Block.transactions = blocks'.map Block.transactions ∧
    state.chainId = state'.chainId ∧ (∀ a, state.account a = state'.account a) ∧
    ∀ x, x ∈ receipts.map Receipt.checked ↔ x ∈ receipts'.map Receipt.checked := by
  have hvalid := validateChain_ok_iff.mp hok
  have hvalid' := validateChain_ok_iff.mp hok'
  have hheaders : blocks.map Block.header = blocks'.map Block.header :=
    headers_eq hvalid.linked hvalid'.linked
      (fun b hb b' hb' h => header_eq_of_hash hcf hb hb' h) (by simp [hlast, hlast', hhead])
  have hlength : blocks.length = blocks'.length := by simpa using congrArg List.length hheaders
  have hpair : List.Forall₂ (fun b b' => b.header = b'.header ∧ b.transactions = b'.transactions) blocks blocks' := by
    rw [List.forall₂_iff_get]
    refine ⟨hlength, fun i hi hi' => ?_⟩
    have hheader : (blocks.get ⟨i, hi⟩).header = (blocks'.get ⟨i, hi'⟩).header := by
      have hget := congrArg (·[i]?) hheaders
      simpa [hi, hi'] using hget
    obtain ⟨j, p, hblock, -⟩ := blockOk_of_mem hvalid.linked (List.get_mem blocks ⟨i, hi⟩)
    obtain ⟨j', p', hblock', -⟩ := blockOk_of_mem hvalid'.linked (List.get_mem blocks' ⟨i, hi'⟩)
    exact ⟨hheader, transactions_eq hcf (List.get_mem ..) (List.get_mem ..) hblock hblock' hheader⟩
  have htxs : blocks.map Block.transactions = blocks'.map Block.transactions :=
    map_eq_of_forall₂ hpair fun _ _ h => h.2
  have hstate : state = state' := by
    refine state_eq_of_root hcf ?_
    have hheader := header_eq_of_hash hcf (List.mem_of_getLast? hlast) (List.mem_of_getLast? hlast') hhead
    rw [hvalid.state_root last hlast, hvalid'.state_root last' hlast', hheader]
  have hreceipts : blocks.map receiptOfBlock = blocks'.map receiptOfBlock := by
    refine map_eq_of_forall₂ hpair ?_
    rintro b b' ⟨hheader, hblock⟩
    simp [receiptOfBlock, txHashes, hblock, Block.hash, hheader]
  refine ⟨hlength, hheaders, htxs, congrArg State.chainId hstate, fun a => by rw [hstate], fun x => ?_⟩
  rw [hvalid.checked_perm.mem_iff, hvalid'.checked_perm.mem_iff, hreceipts]

end

section
open scoped Concrete

/-- A second block with the transaction of the first. -/
def repeatedBlock : Block where
  header :=
    { unexecutedBlock.header with
      height := 2, parentHash := unexecutedBlock.hash, receiptRoot := receiptRoot contractCall.hash 2 21000 }
  transactions := [contractCall]
  signatures := []

def repeatedReceipt : Receipt := ⟨contractCall.hash, repeatedBlock.hash, 2, 21000, .success, [], none⟩

/-! The same two blocks and receipts with other bytes where no hash looks. -/

def relabelledBlocks : List Block :=
  [{ unexecutedBlock with signatures := [⟨Address.zero, [1]⟩] }, { repeatedBlock with signatures := [⟨Address.zero, [2]⟩] }]

def relabelledReceipts : List Receipt :=
  [{ repeatedReceipt with contractAddress := some Address.zero }, unexecutedReceipt]

theorem head_binds_relabelled :
    [unexecutedBlock, repeatedBlock] ≠ relabelledBlocks ∧
    [unexecutedBlock, repeatedBlock].map Block.transactions = relabelledBlocks.map Block.transactions ∧
    [unexecutedReceipt, repeatedReceipt] ≠ relabelledReceipts ∧
    ∀ x, x ∈ [unexecutedReceipt, repeatedReceipt].map Receipt.checked ↔ x ∈ relabelledReceipts.map Receipt.checked := by
  obtain ⟨-, -, htxs, -, -, hreceipts⟩ := head_binds_ledger 1 [unexecutedBlock, repeatedBlock] relabelledBlocks
    [unexecutedReceipt, repeatedReceipt] relabelledReceipts unexecutedState unexecutedState (by decide +kernel)
    (by decide +kernel) repeatedBlock _ rfl rfl rfl (by decide +kernel)
  exact ⟨by decide +kernel, htxs, by decide +kernel, hreceipts⟩

end
end Subhost
