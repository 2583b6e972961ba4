import Subhost.Rpc.Request
import Subhost.Storage.Binding
/-!
# Looking up blocks, receipts and transactions (subhost-rpc/src/lib.rs:158-195, 470-504, 696-736)

Three views of one ledger: a vector whose index `n` holds height `n + 1`, a height counter kept beside it,
and a map from transaction hashes to receipts. `LookupAgreement` says how they fit together and what
`eth_getTransactionByHash` makes of them. It holds in every state of every run of a node whose seeding
comes before its blocks, whatever calls and writes fail on the way, and again after a restart from the
file, which succeeds (`lookup_agreement`).
-/
namespace Subhost
open Uint Bincode Codec Run

section
variable [Blake3]

/-- The block has a transaction with this hash. -/
def Block.Contains (block : Block) (txHash : Hash) : Prop := ∃ tx ∈ block.transactions, tx.hash = txHash

instance (block : Block) (txHash : Hash) : Decidable (block.Contains txHash) :=
  inferInstanceAs (Decidable (∃ tx ∈ block.transactions, tx.hash = txHash))

/-- `Hash::from_hex` (subhost-core/src/lib.rs:40), up to the kind of its error. -/
def Hash.fromHex (value : String) : Option Hash :=
  (hexDecode ((strip0x value).getD value.toList)).bind (toArray? hashSize)

/-- `parse_tx_hash` (lib.rs:401). -/
def parseTxHash (value : String) : Except RpcError Hash :=
  if byteLen value ≠ 66 then .error .invalidTxHash
  else (Hash.fromHex value).elim (.error .invalidTxHash) .ok

/-- `params.one()` at the type `String` and `parse_tx_hash` (lib.rs:722). -/
def requestedHash : Json → Except RpcError Hash
  | .array [.string text] => parseTxHash text
  | _ => .error .invalidTxHash

/-- One entry of `logs` in `receipt_json` (lib.rs:480-484). -/
def logJson (log : Log) : Json :=
  .object [
    ("address", .string (displayBytes log.address.toList)),
    ("topics", .array (log.topics.map fun topic => .string (displayBytes topic.toList))),
    ("data", .string (displayBytes log.data))]

/-- `receipt_json` (lib.rs:470). -/
def receiptJson (receipt : Receipt) : Json :=
  .object [
    ("transactionHash", .string (displayBytes receipt.txHash.toList)),
    ("blockHash", .string (displayBytes receipt.blockHash.toList)),
    ("blockNumber", .string (hexText receipt.blockHeight.toNat)),
    ("transactionIndex", .string "0x0"),
    ("cumulativeGasUsed", .string (hexText receipt.gasUsed.toNat)),
    ("gasUsed", .string (hexText receipt.gasUsed.toNat)),
    ("status", .string (hexText receipt.status.toU8.toNat)),
    ("contractAddress", receipt.contractAddress.elim .null fun a => .string (displayBytes a.toList)),
    ("logs", .array (receipt.logs.map logJson))]

/-- `transaction_json` (lib.rs:488). -/
def transactionJson (tx : Transaction) (block : Block) (index : Nat) : Json :=
  .object [
    ("hash", .string (displayBytes tx.hash.toList)),
    ("blockHash", .string (displayBytes block.hash.toList)),
    ("blockNumber", .string (hexText block.header.height.toNat)),
    ("transactionIndex", .string (hexText index)),
    ("from", .string (displayBytes tx.fromAddr.toList)),
    ("to", tx.toAddr.elim .null fun a => .string (displayBytes a.toList)),
    ("value", .string (hexText tx.value.toNat)),
    ("nonce", .string (hexText tx.nonce.toNat)),
    ("gas", .string (hexText tx.gasLimit.toNat)),
    ("gasPrice", .string (hexText tx.gasPrice.toNat)),
    ("chainId", .string (hexText tx.chainId.toNat)),
    ("input", .string (displayBytes tx.data)),
    ("type", .string tx.txType.display)]

/-- The last part of `eth_getTransactionByHash` (lib.rs:730-735), on the block it read. -/
def foundTransaction (txHash : Hash) (block : Block) : Json :=
  match block.transactions.findIdx? fun tx => tx.hash = txHash with
  | none => .null
  | some index =>
    match block.transactions[index]? with
    | none => .null
    | some tx => transactionJson tx block index

namespace RpcState

omit [Blake3] in
/-- `RpcState::receipt` (lib.rs:180). -/
def receipt (s : RpcState) (txHash : Hash) : Option Receipt := s.receipts[txHash]?

omit [Blake3] in
/-- `RpcState::block_at_height` (lib.rs:184). -/
def blockAtHeight (s : RpcState) (height : U64) : Option Block :=
  match checkedSub height 1 with
  | none => none
  | some index => s.blocks[index.toNat]?

omit [Blake3] in
/-- `RpcState::block_count` (lib.rs:189). -/
def blockCount (s : RpcState) : Nat := s.blocks.length

omit [Blake3] in
/-- `eth_getTransactionReceipt` (lib.rs:696). -/
def getTransactionReceipt (s : RpcState) (params : Json) : Except RpcError Json := do
  let txHash ← requestedHash params
  return (s.receipt txHash).elim .null receiptJson

/-- `eth_getTransactionByHash` (lib.rs:721). -/
def getTransactionByHash (s : RpcState) (params : Json) : Except RpcError Json := do
  let txHash ← requestedHash params
  match s.receipt txHash with
  | none => return .null
  | some receipt =>
    match s.blockAtHeight receipt.blockHeight with
    | none => return .null
    | some block => return foundTransaction txHash block

/-- The three views agree. -/
structure LookupAgreement (s : RpcState) : Prop where
  count : s.blockHeight.toNat = s.blockCount
  present : ∀ n, (s.blockAtHeight n).isSome ↔ 1 ≤ n.toNat ∧ n.toNat ≤ s.blockHeight.toNat
  height : ∀ n block, s.blockAtHeight n = some block → block.header.height = n
  receipt_iff : ∀ txHash, (s.receipt txHash).isSome ↔ ∃ block ∈ s.blocks, block.Contains txHash
  unique : ∀ txHash, (s.receipt txHash).isSome →
    ∃! n, ∃ block, s.blockAtHeight n = some block ∧ block.Contains txHash
  receipt_block : ∀ txHash r, s.receipt txHash = some r → ∃ block, s.blockAtHeight r.blockHeight = some block ∧
    block.Contains txHash ∧ r.txHash = txHash ∧ r.blockHash = block.hash ∧ r.blockHeight = block.header.height ∧
    r.gasUsed = block.header.gasUsed
  transaction : ∀ params txHash, requestedHash params = .ok txHash →
    ∃ reply, s.getTransactionByHash params = .ok reply ∧ (reply ≠ .null ↔ ∃ block ∈ s.blocks, block.Contains txHash)

omit [Blake3] in
/-- Every hash can be asked for: `parse_tx_hash` reads its printed form back. -/
theorem requestedHash_display (txHash : Hash) :
    requestedHash (.array [.string (displayBytes txHash.toList)]) = .ok txHash := by
  have hlen : byteLen (displayBytes txHash.toList) = 66 := by
    rw [byteLen_displayBytes, Vector.length_toList]
    rfl
  have hdecode : Hash.fromHex (displayBytes txHash.toList) = some txHash := fromHex_display txHash
  simp [requestedHash, parseTxHash, hlen, hdecode]

/-! ## Blocks by height -/

omit [Blake3] in
theorem blockAtHeight_eq_some {s : RpcState} {n : U64} {block : Block} :
    s.blockAtHeight n = some block ↔ 1 ≤ n.toNat ∧ s.blocks[n.toNat - 1]? = some block := by
  unfold blockAtHeight checkedSub
  by_cases h : (1 : U64).toNat ≤ n.toNat
  · rw [if_pos h]
    dsimp only
    rw [toNat_sub_of_le h]
    exact (and_iff_right h).symm
  · rw [if_neg h]
    exact iff_of_false (by simp) fun hand => h hand.1

omit [Blake3] in
theorem isSome_blockAtHeight {s : RpcState} {n : U64} :
    (s.blockAtHeight n).isSome ↔ 1 ≤ n.toNat ∧ n.toNat ≤ s.blocks.length := by
  rw [Option.isSome_iff_exists]
  simp only [blockAtHeight_eq_some, exists_and_left, List.getElem?_eq_some_iff]
  constructor
  · rintro ⟨hpos, block, hlt, -⟩
    omega
  · rintro ⟨hpos, hle⟩
    exact ⟨hpos, s.blocks.get ⟨n.toNat - 1, by omega⟩, by omega, rfl⟩

/-- A block is found under the height in its header. -/
theorem blockAtHeight_of_mem {s : RpcState} {chainId : ChainId} (h : Linked chainId 0 Hash.zero s.blocks)
    {block : Block} (hb : block ∈ s.blocks) : s.blockAtHeight block.header.height = some block := by
  obtain ⟨i, hi⟩ := List.getElem?_of_mem hb
  have hheight := height_of_get h hi
  rw [blockAtHeight_eq_some, hheight]
  exact ⟨by omega, by rw [show 0 + i + 1 - 1 = i by omega]; exact hi⟩

theorem foundTransaction_of_contains {block : Block} {txHash : Hash} (h : block.Contains txHash) :
    foundTransaction txHash block ≠ .null := by
  obtain ⟨tx, htx, hhash⟩ := h
  unfold foundTransaction
  cases hfind : block.transactions.findIdx? fun tx => tx.hash = txHash with
  | none =>
    rw [List.findIdx?_eq_none_iff] at hfind
    exact absurd hhash (by simpa using hfind tx htx)
  | some index =>
    obtain ⟨hlt, -⟩ := List.findIdx?_eq_some_iff_getElem.mp hfind
    simp [hlt, transactionJson]

/-! ## Receipts by hash -/

theorem lastHeight_toNat {chainId : ChainId} {blocks : List Block} (h : Linked chainId 0 Hash.zero blocks) :
    (lastHeight blocks).toNat = blocks.length := by
  unfold lastHeight
  cases hlast : blocks.getLast? with
  | none =>
    rw [List.getLast?_eq_none_iff.mp hlast]
    rfl
  | some last => exact height_of_last h hlast

/-- Every receipt of a well-formed ledger is that of one of its blocks, collisions or not. -/
theorem block_of_receipt {chainId : ChainId} {l : Ledger} (h : l.Wf chainId) {txHash : Hash} {r : Receipt}
    (hget : l.receipts[txHash]? = some r) :
    ∃ block ∈ l.blocks, block.Contains txHash ∧ r = newReceipt txHash block := by
  rw [h.receipts_eq, receiptsOf] at hget
  obtain ⟨hmem, hhash⟩ := mem_of_collectReceipts hget
  obtain ⟨block, hb, hr⟩ := List.mem_flatMap.mp hmem
  obtain ⟨tx, htx, rfl⟩ := List.mem_map.mp hr
  exact ⟨block, hb, ⟨tx, htx, hhash⟩, by rw [← hhash]; rfl⟩

/-- The reply to a request for a hash: the receipt leads to the block, and the block to the transaction. -/
theorem getTransactionByHash_of_requested {s : RpcState} {params : Json} {txHash : Hash}
    (h : requestedHash params = .ok txHash) :
    s.getTransactionByHash params = .ok
      (((s.receipt txHash).bind fun r => s.blockAtHeight r.blockHeight).elim .null (foundTransaction txHash)) := by
  unfold getTransactionByHash
  rw [h]
  cases hr : s.receipt txHash with
  | none => simp [bind, Except.bind, pure, Except.pure, hr]
  | some r =>
    cases hb : s.blockAtHeight r.blockHeight with
    | none => simp [bind, Except.bind, pure, Except.pure, hr, hb]
    | some block => simp [bind, Except.bind, pure, Except.pure, hr, hb]

/-- The receipts of a well-formed ledger are those of its blocks. -/
theorem receipt_of_wf {chainId : ChainId} {l : Ledger} (h : l.Wf chainId) (hcf : CollisionFree (hashedBytes l.blocks))
    {txHash : Hash} {r : Receipt} :
    l.receipts[txHash]? = some r ↔ ∃ block ∈ l.blocks, block.Contains txHash ∧ r = newReceipt txHash block := by
  refine ⟨block_of_receipt h, ?_⟩
  rintro ⟨block, hb, ⟨tx, htx, rfl⟩, rfl⟩
  have hmem : newReceipt tx.hash block ∈ l.blocks.flatMap blockReceipts :=
    List.mem_flatMap.mpr ⟨block, hb, List.mem_map.mpr ⟨tx, htx, rfl⟩⟩
  rw [h.receipts_eq]
  exact get_collectReceipts_of_mem (h.receiptKeys_nodup hcf) hmem

/-- The three views of a well-formed ledger agree. -/
theorem lookupAgreement_of_wf {chainId : ChainId} {s : RpcState} (h : s.ledger.Wf chainId)
    (hheight : s.blockHeight = lastHeight s.blocks) (hcf : CollisionFree (hashedBytes s.blocks)) :
    LookupAgreement s := by
  have hlinked : Linked chainId 0 Hash.zero s.blocks := h.linked
  have hcount : s.blockHeight.toNat = s.blocks.length := by rw [hheight, lastHeight_toNat hlinked]
  have hreceipt : ∀ {txHash r}, s.receipt txHash = some r ↔
      ∃ block ∈ s.blocks, block.Contains txHash ∧ r = newReceipt txHash block := receipt_of_wf h hcf
  have hsome : ∀ txHash, (s.receipt txHash).isSome ↔ ∃ block ∈ s.blocks, block.Contains txHash := by
    intro txHash
    rw [Option.isSome_iff_exists]
    constructor
    · rintro ⟨r, hr⟩
      obtain ⟨block, hb, hcontains, -⟩ := hreceipt.mp hr
      exact ⟨block, hb, hcontains⟩
    · rintro ⟨block, hb, hcontains⟩
      exact ⟨_, hreceipt.mpr ⟨block, hb, hcontains, rfl⟩⟩
  have hget : ∀ {n : U64} {block : Block}, s.blockAtHeight n = some block →
      block ∈ s.blocks ∧ block.header.height = n := by
    intro n block hb
    obtain ⟨hpos, hb⟩ := blockAtHeight_eq_some.mp hb
    refine ⟨List.mem_of_getElem? hb, BitVec.eq_of_toNat_eq ?_⟩
    rw [height_of_get hlinked hb]
    omega
  refine ⟨hcount, fun n => by rw [isSome_blockAtHeight, hcount], fun n block hb => (hget hb).2, hsome, ?_, ?_, ?_⟩
  · intro txHash hr
    obtain ⟨block, hb, hcontains⟩ := (hsome txHash).mp hr
    refine ⟨block.header.height, ⟨block, blockAtHeight_of_mem hlinked hb, hcontains⟩, ?_⟩
    rintro n ⟨block', hb', hcontains'⟩
    -- both blocks are the one of the only receipt under this hash
    have hsame := (hreceipt.mpr ⟨block, hb, hcontains, rfl⟩).symm.trans
      (hreceipt.mpr ⟨block', (hget hb').1, hcontains', rfl⟩)
    rw [← (hget hb').2]
    exact congrArg Receipt.blockHeight (Option.some.inj hsame).symm
  · intro txHash r hr
    obtain ⟨block, hb, hcontains, rfl⟩ := hreceipt.mp hr
    exact ⟨block, blockAtHeight_of_mem hlinked hb, hcontains, rfl, rfl, rfl, rfl⟩
  · intro params txHash hparams
    rw [← hsome]
    rw [getTransactionByHash_of_requested hparams]
    refine ⟨_, rfl, ?_⟩
    cases hr : s.receipt txHash with
    | none => simp
    | some r =>
      obtain ⟨block, hb, hcontains, rfl⟩ := hreceipt.mp hr
      have hfound : s.blockAtHeight (newReceipt txHash block).blockHeight = some block :=
        blockAtHeight_of_mem hlinked hb
      simp [hfound, foundTransaction_of_contains hcontains]

/-! ## The file -/

/-- The blocks in the ledger file. -/
def diskBlocks (d : Disk) : List Block :=
  match d.ledger with
  | none => []
  | some f =>
    match (LedgerEnvelope.codec.deserialize f.data).bind fun e => LedgerSnapshot.codec.deserialize e.payload with
    | none => []
    | some snapshot => snapshot.blocks

theorem diskBlocks_eq {snapshot : LedgerSnapshot} {d : Disk} {synced : Bool}
    (hsize : (encodeLedger snapshot).length ≤ maxLedgerBytes)
    (hfile : d.ledger = some ⟨encodeLedger snapshot, synced⟩) :
    diskBlocks d = snapshot.blocks := by
  obtain ⟨henvelope, hsnapshot⟩ := LedgerStore.deserialize_encodeLedger hsize
  simp [diskBlocks, hfile, henvelope, hsnapshot]

/-- The file, if there is one, is the encoding of a well-formed ledger that matches its newest header. -/
def StoredRooted (chainId : ChainId) (d : Disk) : Prop :=
  ∀ f, d.ledger = some f → ∃ l : Ledger, l.Wf chainId ∧ l.Rooted ∧
    (encodeLedger (l.snapshot chainId)).length ≤ maxLedgerBytes ∧ f = ⟨encodeLedger (l.snapshot chainId), true⟩

/-- A seeding call comes before the first block. -/
def SeedsEarly (s : RpcState) : RpcOp → Prop
  | .seed _ _ => s.blocks = []
  | _ => True

theorem Produces.rooted_of_early {s : RpcState} {op : RpcOp} {l : Ledger} (h : s.Produces op l)
    (hearly : s.SeedsEarly op) : l.Rooted := by
  cases op with
  | seed allocations fault =>
    cases (show l = s.ledger.seed allocations from h)
    intro last hlast
    rw [show (s.ledger.seed allocations).blocks = [] from hearly] at hlast
    cases hlast
  | submit tx now fault => exact Ledger.Extends.rooted h
  | includeTx txHash now fault => exact Ledger.Extends.rooted h
  | reopen fault => exact h.elim

/-- Every ledger that a call writes, or tries to write, matches its newest header. -/
theorem StoredRooted.step {store : LedgerStore} {w : RpcState × Disk} (hsane : Sane store w) {op : RpcOp}
    (hearly : w.1.SeedsEarly op) (h : StoredRooted store.chainId w.2) :
    StoredRooted store.chainId (step w op).2.2 := by
  have hnew : ∀ l, w.1.Produces op l → ∀ d : Disk,
      (encodeLedger (l.snapshot w.1.chainId)).length ≤ maxLedgerBytes →
      d.ledger = some ⟨encodeLedger (l.snapshot w.1.chainId), true⟩ → StoredRooted store.chainId d := by
    intro l hl d hsize hfile f hf
    rw [hsane.chain] at hsize hfile
    have hnext := hl.next
    rw [hsane.chain] at hnext
    exact ⟨l, hsane.wf.next hnext, hl.rooted_of_early hearly, hsize, Option.some.inj (hf.symm.trans hfile)⟩
  rcases step_cases hsane op with ⟨r, -, heffect⟩ | ⟨-, hsame⟩ | ⟨l, -, -, -, hopen⟩
  · revert heffect
    generalize (RpcState.step w op).2 = w'
    obtain ⟨s', d'⟩ := w'
    intro heffect
    cases heffect with
    | refused pool => exact h
    | failed pool next attempted =>
      rcases attempted with hold | ⟨hsize, hfile⟩
      · intro f hf
        exact h f (hold.symm.trans hf)
      · exact hnew _ next _ hsize hfile
    | committed pool next written =>
      rcases written with ⟨-, rfl⟩ | ⟨hsize, rfl⟩
      · exact h
      · exact hnew _ next _ hsize rfl
  · rw [hsame]
    exact h
  · rw [hopen]
    exact h

/-- A file with a matching ledger opens. -/
theorem withStore_of_storedRooted {store : LedgerStore} {d : Disk} (h : StoredRooted store.chainId d)
    (hcf : CollisionFree (hashedBytes (diskBlocks d))) :
    ∃ s, withStore store d none = .ok s ∧ LookupAgreement s := by
  have hempty : LookupAgreement (fresh store) :=
    lookupAgreement_of_wf (Ledger.wf_empty store.chainId) rfl (by intro x hx; cases hx)
  rcases hpath : store.path with _ | path
  · refine ⟨fresh store, ?_, hempty⟩
    unfold withStore LedgerStore.load
    rw [hpath]
    rfl
  · rcases hfile : d.ledger with _ | f
    · exact ⟨fresh store, withStore_empty store hfile none, hempty⟩
    · obtain ⟨l, hwf, hrooted, hsize, rfl⟩ := h f hfile
      rw [diskBlocks_eq hsize hfile] at hcf
      exact ⟨holding store l, (withStore_written hpath hwf hsize hfile).mpr ⟨hwf.validChain hrooted hcf, rfl⟩,
        lookupAgreement_of_wf (s := holding store l) hwf rfl hcf⟩

/-- **Lookup agreement.** In every state of a node that started from an empty store, was seeded before its
first block and then took any calls, failed ones and restarts included: `block_at_height` answers for the
heights from 1 to `block_height() = block_count()` with the block of that height; a hash has a receipt if
and only if a block contains a transaction with that hash, which is then the only one and the one the
receipt describes; and `eth_getTransactionByHash` answers in exactly that case. A restart from the file
succeeds, and the same holds after it. -/
theorem lookup_agreement (store : LedgerStore) (ops : List RpcOp)
    (hearly : ∀ c ∈ trace step (fresh store, emptyDisk) ops, c.before.1.SeedsEarly c.input)
    (hcf : CollisionFree (hashedBytes (final step (fresh store, emptyDisk) ops).1.blocks))
    (hfile : CollisionFree (hashedBytes (diskBlocks (final step (fresh store, emptyDisk) ops).2))) :
    LookupAgreement (final step (fresh store, emptyDisk) ops).1 ∧
    ∃ s, withStore store (final step (fresh store, emptyDisk) ops).2 none = .ok s ∧ LookupAgreement s := by
  obtain ⟨hsane, hrooted⟩ := final_invariant_of step (fun w => Sane store w ∧ StoredRooted store.chainId w.2)
    (fun c => c.before.1.SeedsEarly c.input) (fun w op hw hop => ⟨hw.1.step op, hw.2.step hw.1 hop⟩)
    ⟨sane_fresh store, fun f hf => by cases hf⟩ ops hearly
  exact ⟨lookupAgreement_of_wf hsane.wf hsane.height hcf, withStore_of_storedRooted hrooted hfile⟩

end RpcState
end

section
open scoped Concrete
namespace RpcState

theorem lookup_agreement_payment :
    (final step (fresh durableStore, emptyDisk) payingOps).1.blockCount = 1 ∧
    LookupAgreement (final step (fresh durableStore, emptyDisk) payingOps).1 ∧
    ∃ s, withStore durableStore (final step (fresh durableStore, emptyDisk) payingOps).2 none = .ok s ∧
      LookupAgreement s := by
  refine ⟨by decide +kernel, lookup_agreement durableStore payingOps ?_ (by decide +kernel) (by decide +kernel)⟩
  refine List.forall_mem_cons.mpr ⟨rfl, List.forall_mem_cons.mpr ⟨trivial, ?_⟩⟩
  intro c hc
  cases hc

end RpcState
end
end Subhost
