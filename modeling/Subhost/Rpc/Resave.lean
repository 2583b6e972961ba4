import Subhost.Rpc.Runs
import Subhost.Storage.Receipts
import Subhost.Storage.Reload
/-!
# Loading a ledger and saving it again (subhost-rpc/src/lib.rs:137-152, 341-357)

`restore` counts receipts by the block they name: one for each block. `with_store` keeps them in a map
by the hash of their transaction. The two notions of "one receipt" differ for a ledger that has one
transaction in two blocks, which the validator accepts, as it executes nothing: the map keeps the later
receipt, the saved ledger has one receipt too few, and the next `load` refuses it.

`resave_iff` says that this is the only way to lose anything. It needs nothing of the hash function: an
accepted ledger has distinct block hashes in any case.
-/
namespace Subhost
open Uint Bincode Codec

section
variable [Blake3]

/-! ## Receipts in another order -/

theorem ValidChain.perm {blocks : List Block} {receipts receipts' : List Receipt} {chainId : ChainId} {state : State}
    (h : ValidChain blocks receipts chainId state) (hperm : receipts'.Perm receipts) :
    ValidChain blocks receipts' chainId state where
  linked := h.linked
  count := h.count.trans hperm.length_eq.symm
  receipts_ok r hr := h.receipts_ok r (hperm.mem_iff.mp hr)
  receipts_nodup := (hperm.map _).nodup_iff.mpr h.receipts_nodup
  state_root := h.state_root

/-- The receipts of an accepted ledger name the transactions of its blocks. -/
theorem ValidChain.txHashes_perm {blocks : List Block} {receipts : List Receipt} {chainId : ChainId} {state : State}
    (h : ValidChain blocks receipts chainId state) :
    (receipts.map Receipt.txHash).Perm ((blockTxs blocks).map Transaction.hash) := by
  have hone : ∀ b ∈ blocks, b.transactions.map Transaction.hash = [(receiptOfBlock b).1] := by
    intro b hb
    obtain ⟨i, p, hok, -⟩ := blockOk_of_mem h.linked hb
    obtain ⟨tx, htx, -⟩ := hok.committed
    simp [receiptOfBlock, txHashes, htx]
  have hblocks : (blockTxs blocks).map Transaction.hash = (blocks.map receiptOfBlock).map Prod.fst := by
    rw [blockTxs, List.map_flatMap, List.flatMap_congr hone, List.map_map]
    exact List.flatMap_pure_eq_map _ _
  rw [hblocks]
  simpa [Receipt.checked, Function.comp_def] using h.checked_perm.map Prod.fst

omit [Blake3] in
/-- Collecting receipts loses some or none; it adds nothing. -/
theorem orderedReceipts_collect_subperm (receipts : List Receipt) :
    (orderedReceipts (collectReceipts receipts)).Subperm receipts := by
  have hkeys := txHashes_orderedReceipts (keyedBy_collectReceipts receipts)
  have hnodup : (orderedReceipts (collectReceipts receipts)).Nodup :=
    (hkeys.nodup_iff.mpr (Map.nodup_keys_toList _)).of_map _
  refine hnodup.subperm fun r hr => ?_
  obtain ⟨⟨k, r'⟩, hk, rfl⟩ := List.mem_map.mp ((sortByKey_perm _ _).mem_iff.mp hr)
  exact (mem_of_collectReceipts (Map.mem_toList.mp hk)).1

omit [Blake3] in
/-- Nothing is lost exactly when no two receipts have one transaction hash. -/
theorem orderedReceipts_collect_perm_iff (receipts : List Receipt) :
    (orderedReceipts (collectReceipts receipts)).Perm receipts ↔ (receipts.map Receipt.txHash).Nodup := by
  have hkeys := txHashes_orderedReceipts (keyedBy_collectReceipts receipts)
  constructor
  · intro hperm
    exact (hperm.map _).nodup_iff.mp (hkeys.nodup_iff.mpr (Map.nodup_keys_toList _))
  · intro hnodup
    exact (sortByKey_perm _ _).trans (collectReceipts_perm hnodup)

/-! ## The saved ledger -/

/-- A ledger with the same accounts and blocks and no more receipts takes no more bytes. -/
theorem length_encodeLedger_le {a b : LedgerSnapshot} (hstate : a.state.accounts.Subperm b.state.accounts)
    (hblocks : a.blocks = b.blocks) (hreceipts : a.receipts.Subperm b.receipts) :
    (encodeLedger a).length ≤ (encodeLedger b).length := by
  have haccounts := length_encode_list_le (pair Address.codec Account.codec) accountEntry_encode_ne_nil hstate
  have hlist := length_encode_list_le Receipt.codec Receipt.encode_ne_nil hreceipts
  simp only [encodeLedger, LedgerEnvelope.length_encode, LedgerSnapshot.codec, StateSnapshot.codec, encode_iso,
    encode_pair, List.length_append, length_encode_u64, hblocks]
  omega

namespace RpcState

/-- `RpcState::persist` succeeds when the store does. -/
theorem persist_ok_iff {s : RpcState} {l : Ledger} {fault : Option Fault} {d d' : Disk} :
    s.persist l.state l.blocks l.receipts fault d = (.ok (), d') ↔
      s.store.persist (l.snapshot s.chainId) fault d = (.ok (), d') := by
  rw [persist_eq]
  rcases s.store.persist (l.snapshot s.chainId) fault d with ⟨e | u, d''⟩
  · simp [Except.mapError]
  · simp [Except.mapError]

/-- **An accepted ledger survives being loaded and saved again unless it repeats a transaction.** For every
snapshot that `restore` accepts and that `with_store` finds in its store: `RpcState::persist` of the
unchanged node writes, if the snapshot itself was within the size limit, and what it writes is what the
next `load` sees. `restore` accepts it again, with the same state, the same blocks and the same receipts
up to order, if and only if no two transactions of the blocks have the same hash. -/
theorem resave_iff (store : LedgerStore) (snapshot : LedgerSnapshot) (restored : RestoredLedger)
    (hrestore : store.restore snapshot = .ok restored) (d : Disk) (hload : store.load d none = .ok restored) :
    ∃ s, withStore store d none = .ok s ∧
      ((encodeLedger snapshot).length ≤ maxLedgerBytes → (s.persist s.state s.blocks s.receipts none d).1 = .ok ()) ∧
      (∀ fault d', s.persist s.state s.blocks s.receipts fault d = (.ok (), d') → store.path ≠ none →
        store.load d' none = store.restore (s.ledger.snapshot s.chainId)) ∧
      ((∃ again, store.restore (s.ledger.snapshot s.chainId) = .ok again ∧ again.state = restored.state ∧
          again.blocks = restored.blocks ∧ again.receipts.Perm restored.receipts) ↔
        ((blockTxs restored.blocks).map Transaction.hash).Nodup) := by
  obtain ⟨state, blocks, receipts⟩ := restored
  obtain ⟨-, hchain, hnodup, hlists, hblocks, hreceipts, hvalid⟩ := (store.restore_ok_iff snapshot _).mp hrestore
  dsimp only at hlists hblocks hreceipts hvalid
  have hstate : state.chainId = store.chainId := hlists.1.trans hchain
  rw [← hblocks, ← hreceipts] at hvalid
  refine ⟨_, by rw [withStore, hload], ?_, ?_, ?_⟩
  · intro hsize
    have hle : (encodeLedger ⟨store.chainId, state.snapshot, blocks,
        orderedReceipts (collectReceipts receipts)⟩).length ≤ maxLedgerBytes := by
      refine le_trans (length_encodeLedger_le ?_ hblocks ?_) hsize
      · exact (hlists.accounts_perm hnodup).subperm
      · rw [← hreceipts]
        exact orderedReceipts_collect_subperm receipts
    have hpersist := store.persist_of_chain ⟨store.chainId, state.snapshot, blocks,
      orderedReceipts (collectReceipts receipts)⟩ rfl hstate d
    rw [if_neg (fun h => absurd h.2 (Nat.not_lt.mpr hle))] at hpersist
    exact congrArg Prod.fst
      (persist_ok_iff (l := ⟨state, blocks, collectReceipts receipts⟩).mpr (Prod.ext hpersist rfl))
  · intro fault d' hok hpath
    obtain ⟨path, hpath⟩ := Option.ne_none_iff_exists'.mp hpath
    exact LedgerStore.load_of_persist_ok hpath (persist_ok_iff.mp hok)
  · rw [← hvalid.txHashes_perm.nodup_iff, ← orderedReceipts_collect_perm_iff]
    have hagain : ∀ again, store.restore ⟨store.chainId, state.snapshot, blocks,
        orderedReceipts (collectReceipts receipts)⟩ = .ok again ↔ _ := store.restore_snapshot hstate
    constructor
    · rintro ⟨again, hok, -, -, hperm⟩
      obtain ⟨-, rfl⟩ := (hagain again).mp hok
      exact hperm
    · intro hperm
      exact ⟨_, (hagain _).mpr ⟨hvalid.perm hperm, rfl⟩, rfl, rfl, hperm⟩

end RpcState
end

section
open scoped Concrete
namespace RpcState

/-- The file of a snapshot. -/
def diskOf (snapshot : LedgerSnapshot) : Disk := ⟨some ⟨encodeLedger snapshot, true⟩, none⟩

/-- Opening the file of an accepted ledger. -/
theorem withStore_diskOf (state : State) (blocks : List Block) (receipts : List Receipt) (hchain : state.chainId = 1)
    (hvalid : validateChain blocks receipts 1 state = .ok ())
    (hsize : (encodeLedger ⟨1, state.snapshot, blocks, receipts⟩).length ≤ maxLedgerBytes) :
    LedgerStore.plainStore.restore ⟨1, state.snapshot, blocks, receipts⟩ = .ok ⟨state, blocks, receipts⟩ ∧
    LedgerStore.plainStore.load (diskOf ⟨1, state.snapshot, blocks, receipts⟩) none = .ok ⟨state, blocks, receipts⟩ ∧
    withStore LedgerStore.plainStore (diskOf ⟨1, state.snapshot, blocks, receipts⟩) none =
      .ok ⟨1, lastHeight blocks, Mempool.default, state, blocks, collectReceipts receipts, LedgerStore.plainStore⟩ := by
  have hrestore : LedgerStore.plainStore.restore ⟨1, state.snapshot, blocks, receipts⟩ =
      .ok ⟨state, blocks, receipts⟩ :=
    (LedgerStore.plainStore.restore_snapshot hchain _).mpr ⟨validateChain_ok_iff.mp hvalid, rfl⟩
  have hload : LedgerStore.plainStore.load (diskOf ⟨1, state.snapshot, blocks, receipts⟩) none = .ok _ :=
    (LedgerStore.plainStore.loadBytes_encodeLedger hsize).trans hrestore
  refine ⟨hrestore, hload, ?_⟩
  rw [withStore, hload]
  rfl

/-- The next contract call. -/
def nextCall : Transaction := { contractCall with nonce := 1 }

/-- A second block with it. -/
def nextBlock : Block where
  header :=
    { unexecutedBlock.header with
      height := 2, parentHash := unexecutedBlock.hash, txRoot := txRootOf [nextCall.hash]
      receiptRoot := receiptRoot nextCall.hash 2 21000 }
  transactions := [nextCall]
  signatures := []

def nextReceipt : Receipt := ⟨nextCall.hash, nextBlock.hash, 2, 21000, .success, [], none⟩

def distinctSnapshot : LedgerSnapshot :=
  ⟨1, unexecutedState.snapshot, [unexecutedBlock, nextBlock], [nextReceipt, unexecutedReceipt]⟩

/-- Two blocks with different transactions are loaded, saved and accepted again. -/
theorem resave_accepted :
    ∃ s, withStore LedgerStore.plainStore (diskOf distinctSnapshot) none = .ok s ∧
      (s.persist s.state s.blocks s.receipts none (diskOf distinctSnapshot)).1 = .ok () ∧
      ∃ again, LedgerStore.plainStore.restore (s.ledger.snapshot s.chainId) = .ok again ∧
        again.blocks = [unexecutedBlock, nextBlock] ∧ again.receipts.Perm [nextReceipt, unexecutedReceipt] := by
  have hsize : (encodeLedger distinctSnapshot).length ≤ maxLedgerBytes := by decide +kernel
  obtain ⟨hrestore, hload, -⟩ := withStore_diskOf unexecutedState [unexecutedBlock, nextBlock]
    [nextReceipt, unexecutedReceipt] rfl (by decide +kernel) hsize
  obtain ⟨s, hopen, hwrite, -, hagain⟩ := resave_iff LedgerStore.plainStore distinctSnapshot _ hrestore
    (diskOf distinctSnapshot) hload
  obtain ⟨again, hok, -, hblocks, hreceipts⟩ := hagain.mpr (by decide +kernel)
  exact ⟨s, hopen, hwrite hsize, again, hok, hblocks, hreceipts⟩

def repeatedSnapshot : LedgerSnapshot :=
  ⟨1, unexecutedState.snapshot, [unexecutedBlock, repeatedBlock], [unexecutedReceipt, repeatedReceipt]⟩

/-- The ledger is accepted, the node opens on it and writes it again without complaint, and from then on
the file does not load: of the two receipts one is left. -/
theorem repeated_transaction_unloadable :
    (LedgerStore.plainStore.restore repeatedSnapshot).map (fun _ => ()) = .ok () ∧
    ((withStore LedgerStore.plainStore (diskOf repeatedSnapshot) none).map fun s =>
      (s.receipts.toList.length, (s.persist s.state s.blocks s.receipts none (diskOf repeatedSnapshot)).1,
        (LedgerStore.plainStore.load (s.persist s.state s.blocks s.receipts none (diskOf repeatedSnapshot)).2 none).map
          fun _ => ())) =
      .ok (1, .ok (), .error (.invalid "every block must have exactly one receipt")) := by
  have hsize : (encodeLedger repeatedSnapshot).length ≤ maxLedgerBytes := by decide +kernel
  obtain ⟨hrestore, -, hopen⟩ := withStore_diskOf unexecutedState [unexecutedBlock, repeatedBlock]
    [unexecutedReceipt, repeatedReceipt] rfl (by decide +kernel) hsize
  constructor
  · rw [repeatedSnapshot, hrestore]
    rfl
  · rw [repeatedSnapshot, hopen]
    decide +kernel

end RpcState
end
end Subhost
