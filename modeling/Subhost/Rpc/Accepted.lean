import Subhost.Rpc.Lookup
import Subhost.Rpc.Resave
import Subhost.Storage.Files
/-!
# What the validator leaves to the file (subhost-storage/src/lib.rs:253-308)

Two things that the producer fixes the validator takes from the file.

Gas. The producer refuses more than `BLOCK_GAS_LIMIT` (subhost-rpc/src/lib.rs:276-281); the validator compares
`gas_used` with the `gas_limit` of the same header. `accepted_gas_iff`: the ceiling holds for an accepted
ledger exactly if no header that declares more than it comes with a transaction that asks for more.

Receipts. Of the seven fields the validator checks five. `accepted_receipt_iff`: the receipt is the producer's
exactly if the other two, logs and contract address, are empty, and `eth_getTransactionReceipt` repeats
whatever they hold.
-/
namespace Subhost
open Uint Bincode

section
variable [Blake3]

/-! ## Gas -/

/-- The gas of an accepted block is what its transaction asks for and what its header declares. -/
theorem ValidChain.gas_le_iff {blocks : List Block} {receipts : List Receipt} {chainId : ChainId} {state : State}
    (h : ValidChain blocks receipts chainId state) {block : Block} (hb : block ∈ blocks) :
    block.header.gasUsed.toNat ≤ blockGasLimit.toNat ↔
      (blockGasLimit.toNat < block.header.gasLimit.toNat →
        ∀ tx ∈ block.transactions, tx.gasLimit.toNat ≤ blockGasLimit.toNat) := by
  obtain ⟨i, p, hok, -⟩ := blockOk_of_mem h.linked hb
  obtain ⟨tx, htxs, -, -, hgas, -⟩ := hok.committed
  have hdeclared := hok.gas_le
  rw [htxs]
  simp only [List.mem_singleton, forall_eq]
  rw [← hgas]
  omega

namespace RpcState

/-- A committed block keeps to the ceiling. -/
theorem sealNextBlock_gas {s s' : RpcState} {d d' : Disk} {txHash : Hash} {now : Timestamp} {fault : Option Fault}
    {receipt : Receipt} (h : s.sealNextBlock d txHash now fault = (.ok receipt, s', d')) :
    ∃ block, s'.blocks = s.blocks ++ [block] ∧ block.header.gasUsed.toNat ≤ blockGasLimit.toNat ∧
      block.header.gasLimit = blockGasLimit := by
  rcases s.sealNextBlock_cases d txHash now fault with ⟨e, d', hfailed⟩ | ⟨c, d', hprepared, hcommitted⟩
  · rw [hfailed] at h
    cases h
  · rw [hcommitted] at h
    cases h
    obtain ⟨tx, _, _, -, hgas, -, -, hblock, -⟩ := prepareBlock_cases hprepared
    exact ⟨c.block, rfl, by rw [hblock]; exact hgas, by rw [hblock]; rfl⟩

end RpcState

/-- **The gas ceiling.** Every block the producer seals keeps to `BLOCK_GAS_LIMIT`. The blocks of an accepted
ledger do if and only if each block whose header declares a higher limit holds only transactions within it. -/
theorem accepted_gas_iff :
    (∀ (blocks : List Block) (receipts : List Receipt) (chainId : ChainId) (state : State),
      validateChain blocks receipts chainId state = .ok () →
      ((∀ block ∈ blocks, block.header.gasUsed.toNat ≤ blockGasLimit.toNat) ↔
        ∀ block ∈ blocks, blockGasLimit.toNat < block.header.gasLimit.toNat →
          ∀ tx ∈ block.transactions, tx.gasLimit.toNat ≤ blockGasLimit.toNat)) ∧
    ∀ (s s' : RpcState) (d d' : Disk) (txHash : Hash) (now : Timestamp) (fault : Option Fault) (receipt : Receipt),
      s.sealNextBlock d txHash now fault = (.ok receipt, s', d') →
      ∃ block, s'.blocks = s.blocks ++ [block] ∧ block.header.gasUsed.toNat ≤ blockGasLimit.toNat := by
  constructor
  · intro blocks receipts chainId state hok
    have hvalid := validateChain_ok_iff.mp hok
    exact forall₂_congr fun block hb => hvalid.gas_le_iff hb
  · intro s s' d d' txHash now fault receipt hseal
    obtain ⟨block, hblocks, hgas, -⟩ := RpcState.sealNextBlock_gas hseal
    exact ⟨block, hblocks, hgas⟩

end

section
open scoped Concrete
open RpcState

/-- Alice is funded and her payment is pending. -/
def fundedNode : RpcState := { crowdedNode with state := (State.withChainId 1).setBalance alice 100000 }

theorem accepted_gas_unexecuted :
    unexecutedBlock.header.gasUsed.toNat ≤ blockGasLimit.toNat ∧
    ∃ block, (fundedNode.sealNextBlock emptyDisk payment.hash 7 none).2.1.blocks = [block] ∧
      block.header.gasUsed.toNat ≤ blockGasLimit.toNat := by
  constructor
  · refine (accepted_gas_iff.1 [unexecutedBlock] [unexecutedReceipt] 1 unexecutedState (by decide +kernel)).mpr ?_ _
      (List.mem_singleton_self _)
    intro block hb hdeclared
    rw [List.mem_singleton.mp hb] at hdeclared
    exact absurd hdeclared (lt_irrefl _)
  · have hok : (fundedNode.sealNextBlock emptyDisk payment.hash 7 none).1.isOk = true := by decide +kernel
    cases hresult : fundedNode.sealNextBlock emptyDisk payment.hash 7 none with
    | mk result after =>
      rw [hresult] at hok
      cases result with
      | error e => cases hok
      | ok receipt => exact accepted_gas_iff.2 _ _ _ _ _ _ _ _ hresult

/-- Sixty million gas, in a block that declares as much. -/
def oversizedCall : Transaction := { contractCall with gasLimit := 60000000 }

def oversizedBlock : Block where
  header :=
    { unexecutedBlock.header with
      txRoot := txRootOf [oversizedCall.hash], receiptRoot := receiptRoot oversizedCall.hash 1 60000000
      gasUsed := 60000000, gasLimit := 60000000 }
  transactions := [oversizedCall]
  signatures := []

def oversizedReceipt : Receipt := ⟨oversizedCall.hash, oversizedBlock.hash, 1, 60000000, .success, [], none⟩

theorem oversized_accepted :
    validateChain [oversizedBlock] [oversizedReceipt] 1 unexecutedState = .ok () ∧
    blockGasLimit.toNat < oversizedBlock.header.gasUsed.toNat :=
  ⟨by decide +kernel, by decide +kernel⟩

end

/-! ## Receipts -/

section
variable [Blake3]

/-- The two fields that no check reads. -/
def Receipt.Bare (r : Receipt) : Prop := r.logs = [] ∧ r.contractAddress = none

instance (r : Receipt) : Decidable r.Bare := inferInstanceAs (Decidable (_ ∧ _))

theorem ValidChain.block_of_receipt {blocks : List Block} {receipts : List Receipt} {chainId : ChainId}
    {state : State} (h : ValidChain blocks receipts chainId state) {r : Receipt} (hr : r ∈ receipts) :
    ∃ block ∈ blocks, block.hash = r.blockHash := by
  obtain ⟨block, hfind, -⟩ := h.receipts_ok r hr
  exact ⟨block, List.mem_of_find?_eq_some hfind, by simpa using List.find?_some hfind⟩

/-- The other five are those of the producer's receipt. -/
theorem ValidChain.receipt_eq_iff {blocks : List Block} {receipts : List Receipt} {chainId : ChainId} {state : State}
    (h : ValidChain blocks receipts chainId state) {r : Receipt} (hr : r ∈ receipts) {block : Block}
    (hb : block ∈ blocks) (hhash : block.hash = r.blockHash) :
    r = newReceipt r.txHash block ↔ r.Bare := by
  obtain ⟨tx, -, -, hheight, hgas, hstatus⟩ := h.receipt_matches hb hhash (h.receipts_ok r hr)
  obtain ⟨txHash, blockHash, height, gas, status, logs, contractAddress⟩ := r
  simp only at hhash hheight hgas hstatus
  simp [newReceipt, Receipt.Bare, hhash, hheight, hgas, hstatus]

omit [Blake3] in
/-- The reply shows whether the two fields are empty. -/
theorem bare_of_receiptJson {r r' : Receipt} (h : receiptJson r = receiptJson r') (hbare : r'.Bare) : r.Bare := by
  obtain ⟨hlogs, haddress⟩ := hbare
  simp only [receiptJson, hlogs, haddress, Json.object.injEq, List.cons.injEq, Prod.mk.injEq, true_and, and_true,
    Option.elim_none, List.map_nil, Json.array.injEq, List.map_eq_nil_iff] at h
  refine ⟨h.2.2.2.2.2.2.2, ?_⟩
  have hnull := h.2.2.2.2.2.2.1
  cases hsome : r.contractAddress with
  | none => rfl
  | some a =>
    rw [hsome] at hnull
    cases hnull

namespace RpcState

omit [Blake3] in
theorem getTransactionReceipt_of_requested {s : RpcState} {params : Json} {txHash : Hash}
    (h : requestedHash params = .ok txHash) :
    s.getTransactionReceipt params = .ok ((s.receipt txHash).elim .null receiptJson) := by
  simp [getTransactionReceipt, h, bind, Except.bind, pure, Except.pure]

/-- A receipt in the memory of a restarted node is one of the file. -/
theorem receipt_of_withStore {store : LedgerStore} {d : Disk} {fault : Option String} {s : RpcState}
    (h : withStore store d fault = .ok s) {txHash : Hash} {r : Receipt} (hget : s.receipt txHash = some r) :
    ∃ receipts, ValidChain s.blocks receipts store.chainId s.state ∧ r ∈ receipts ∧ r.txHash = txHash := by
  unfold withStore at h
  split at h
  · cases h
  · rename_i restored hload
    cases h
    obtain ⟨hmem, hhash⟩ := mem_of_collectReceipts hget
    exact ⟨restored.receipts, LedgerStore.validChain_of_load hload, hmem, hhash⟩

end RpcState

/-- **Accepted receipts.** Every receipt of an accepted ledger is, in all seven fields, the receipt
`seal_next_block` builds for its block if and only if all receipts have no logs and no contract address.
After a restart `eth_getTransactionReceipt` replies with the producer's receipt of that block in exactly
that case. -/
theorem accepted_receipt_iff :
    (∀ (blocks : List Block) (receipts : List Receipt) (chainId : ChainId) (state : State),
      validateChain blocks receipts chainId state = .ok () →
      ((∀ r ∈ receipts, ∃ block ∈ blocks, block.hash = r.blockHash ∧
          ∃ tx, block.transactions = [tx] ∧ r = newReceipt tx.hash block) ↔
        ∀ r ∈ receipts, r.Bare)) ∧
    ∀ (store : LedgerStore) (d : Disk) (fault : Option String) (s : RpcState),
      RpcState.withStore store d fault = .ok s →
      ∀ params txHash r, requestedHash params = .ok txHash → s.receipt txHash = some r →
        ∃ block ∈ s.blocks, block.hash = r.blockHash ∧ block.Contains txHash ∧
          (s.getTransactionReceipt params = .ok (receiptJson (newReceipt txHash block)) ↔ r.Bare) := by
  constructor
  · intro blocks receipts chainId state hok
    have hvalid := validateChain_ok_iff.mp hok
    constructor
    · intro hall r hr
      obtain ⟨block, -, -, tx, -, hsame⟩ := hall r hr
      rw [hsame]
      exact ⟨rfl, rfl⟩
    · intro hbare r hr
      obtain ⟨block, hb, hhash⟩ := hvalid.block_of_receipt hr
      obtain ⟨tx, htxs, htxHash, -⟩ := hvalid.receipt_matches hb hhash (hvalid.receipts_ok r hr)
      refine ⟨block, hb, hhash, tx, htxs, ?_⟩
      rw [← htxHash]
      exact (hvalid.receipt_eq_iff hr hb hhash).mpr (hbare r hr)
  · intro store d fault s hopen params txHash r hparams hget
    obtain ⟨receipts, hvalid, hr, rfl⟩ := RpcState.receipt_of_withStore hopen hget
    obtain ⟨block, hb, hhash⟩ := hvalid.block_of_receipt hr
    obtain ⟨tx, htxs, htxHash, -⟩ := hvalid.receipt_matches hb hhash (hvalid.receipts_ok r hr)
    refine ⟨block, hb, hhash, ⟨tx, by rw [htxs]; exact List.mem_singleton_self tx, htxHash.symm⟩, ?_⟩
    rw [RpcState.getTransactionReceipt_of_requested hparams, hget, Option.elim_some, Except.ok.injEq]
    constructor
    · intro hjson
      exact bare_of_receiptJson hjson ⟨rfl, rfl⟩
    · intro hbare
      rw [← (hvalid.receipt_eq_iff hr hb hhash).mpr hbare]

end

section
open scoped Concrete
open RpcState LedgerStore

/-- One block, with a receipt for it. -/
def receiptSnapshot (receipt : Receipt) : LedgerSnapshot :=
  ⟨1, unexecutedState.snapshot, [unexecutedBlock], [receipt]⟩

/-- The node after a restart from that ledger. -/
def receiptNode (receipt : Receipt) : RpcState :=
  ⟨1, 1, Mempool.default, unexecutedState, [unexecutedBlock], collectReceipts [receipt], plainStore⟩

theorem withStore_receiptSnapshot {receipt : Receipt}
    (hvalid : validateChain [unexecutedBlock] [receipt] 1 unexecutedState = .ok ())
    (hsize : (encodeLedger (receiptSnapshot receipt)).length ≤ maxLedgerBytes) :
    withStore plainStore (diskOf (receiptSnapshot receipt)) none = .ok (receiptNode receipt) :=
  (withStore_diskOf unexecutedState [unexecutedBlock] [receipt] rfl hvalid hsize).2.2

theorem receipt_receiptNode (receipt : Receipt) : (receiptNode receipt).receipt receipt.txHash = some receipt :=
  Map.get_insert_self ∅ receipt.txHash receipt

/-- A request for the only transaction. -/
def receiptParams : Json := .array [.string (displayBytes contractCall.hash.toList)]

theorem accepted_receipt_unexecuted :
    (∃ tx, unexecutedBlock.transactions = [tx] ∧ unexecutedReceipt = newReceipt tx.hash unexecutedBlock) ∧
    (receiptNode unexecutedReceipt).getTransactionReceipt receiptParams =
      .ok (receiptJson (newReceipt contractCall.hash unexecutedBlock)) := by
  have hvalid : validateChain [unexecutedBlock] [unexecutedReceipt] 1 unexecutedState = .ok () := by decide +kernel
  constructor
  · obtain ⟨block, hb, -, htx⟩ := (accepted_receipt_iff.1 _ _ _ _ hvalid).mpr (by decide) _ (List.mem_singleton_self _)
    rwa [List.mem_singleton.mp hb] at htx
  · obtain ⟨block, hb, -, -, hreply⟩ := accepted_receipt_iff.2 plainStore _ none _
      (withStore_receiptSnapshot hvalid (by decide +kernel)) receiptParams contractCall.hash unexecutedReceipt
      (requestedHash_display _) (receipt_receiptNode unexecutedReceipt)
    rw [show block = unexecutedBlock from List.mem_singleton.mp hb] at hreply
    exact hreply.mpr ⟨rfl, rfl⟩

/-- A log and a contract address that no producer wrote. -/
def embellishedReceipt : Receipt :=
  { unexecutedReceipt with logs := [⟨Address.zero, [], [1]⟩], contractAddress := some Address.zero }

/-- It is accepted, and reported after the restart. -/
theorem embellished_reported :
    validateChain [unexecutedBlock] [embellishedReceipt] 1 unexecutedState = .ok () ∧
    embellishedReceipt ≠ newReceipt contractCall.hash unexecutedBlock ∧
    withStore plainStore (diskOf (receiptSnapshot embellishedReceipt)) none = .ok (receiptNode embellishedReceipt) ∧
    (receiptNode embellishedReceipt).getTransactionReceipt receiptParams = .ok (receiptJson embellishedReceipt) ∧
    receiptJson embellishedReceipt ≠ receiptJson (newReceipt contractCall.hash unexecutedBlock) := by
  have hvalid : validateChain [unexecutedBlock] [embellishedReceipt] 1 unexecutedState = .ok () := by decide +kernel
  have hreply := getTransactionReceipt_of_requested (s := receiptNode embellishedReceipt)
    (requestedHash_display contractCall.hash)
  rw [show (receiptNode embellishedReceipt).receipt contractCall.hash = _ from
    receipt_receiptNode embellishedReceipt] at hreply
  refine ⟨hvalid, by decide +kernel, withStore_receiptSnapshot hvalid (by decide +kernel), hreply, ?_⟩
  intro hjson
  exact absurd (bare_of_receiptJson hjson ⟨rfl, rfl⟩) (by decide)

end
end Subhost
