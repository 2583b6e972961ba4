import Subhost.Storage.Store
/-!
# Writing and loading again (subhost-storage/src/lib.rs:109-217)

`persist` is documented to validate the snapshot before it writes it (lib.rs:161). Its code compares
two chain ids and the size of the encoding; `load` decodes the same bytes and then asks for distinct
addresses and a chain the validator accepts (lib.rs:143-158). `persist_loadable_iff` is the exact
difference: what was written loads if and only if it would have passed the validation that `persist`
leaves out.
-/
namespace Subhost
open Uint Bincode

namespace LedgerStore

/-- Everything `restore` asks of a snapshot beyond its chain ids: distinct addresses, and blocks and
receipts that the validator accepts for the state of those accounts. -/
def Restores (store : LedgerStore) [Blake3] (snapshot : LedgerSnapshot) : Prop :=
  (snapshot.state.accounts.map Prod.fst).Nodup ∧
    ∃ state : State, state.Lists snapshot.state ∧
      ValidChain snapshot.blocks snapshot.receipts store.chainId state

/-- The ledger that comes back has the snapshot's accounts, blocks and receipts. -/
def GivesBack (ledger : RestoredLedger) (snapshot : LedgerSnapshot) : Prop :=
  ledger.state.Lists snapshot.state ∧ ledger.blocks = snapshot.blocks ∧ ledger.receipts = snapshot.receipts

section
variable [Blake3]

/-- After a successful write on a durable store, `load` is `restore` of what was written. -/
theorem load_of_persist_ok {store : LedgerStore} {path : LedgerPath} (hpath : store.path = some path)
    {snapshot : LedgerSnapshot} {fault : Option Fault} {d d' : Disk}
    (h : store.persist snapshot fault d = (.ok (), d')) : store.load d' none = store.restore snapshot := by
  obtain ⟨-, -, ⟨hnone, -⟩ | ⟨hsize, rfl⟩⟩ := persist_ok h
  · rw [hpath] at hnone
    cases hnone
  · unfold load
    rw [hpath]
    exact store.loadBytes_encodeLedger hsize

/-- **A written ledger loads exactly when it is valid.** For every durable store and every snapshot
whose `persist` returns `Ok`: the `load` that follows returns `Ok` with the accounts, blocks and
receipts of that snapshot if and only if `restore` would have accepted it. -/
theorem persist_loadable_iff (store : LedgerStore) (path : LedgerPath) (hpath : store.path = some path)
    (snapshot : LedgerSnapshot) (d d' : Disk) (hok : store.persist snapshot none d = (.ok (), d')) :
    (∃ ledger, store.load d' none = .ok ledger ∧ GivesBack ledger snapshot) ↔ store.Restores snapshot := by
  obtain ⟨hchain, hstate, -⟩ := persist_ok hok
  rw [load_of_persist_ok hpath hok]
  constructor
  · rintro ⟨ledger, hrestore, -⟩
    obtain ⟨-, -, hnodup, hlists, -, -, hvalid⟩ := (restore_ok_iff store snapshot ledger).mp hrestore
    exact ⟨hnodup, ledger.state, hlists, hvalid⟩
  · rintro ⟨hnodup, state, hlists, hvalid⟩
    refine ⟨⟨state, snapshot.blocks, snapshot.receipts⟩, ?_, hlists, rfl, rfl⟩
    exact (restore_ok_iff store snapshot _).mpr ⟨hchain, hstate, hnodup, hlists, rfl, rfl, hvalid⟩

end

section
open scoped Concrete

def plainStore : LedgerStore := ⟨some (LedgerPath.ofDir "data"), 1, chainId_one_ne⟩

/-- One block, its receipt and the state its header commits to. -/
def acceptedSnapshot : LedgerSnapshot := ⟨1, unexecutedState.snapshot, [unexecutedBlock], [unexecutedReceipt]⟩

theorem persist_loadable_accepted :
    ∃ ledger, plainStore.load (plainStore.persist acceptedSnapshot none ⟨none, none⟩).2 none = .ok ledger ∧
      GivesBack ledger acceptedSnapshot := by
  have hvalid : validateChain [unexecutedBlock] [unexecutedReceipt] 1 unexecutedState = .ok () := by decide +kernel
  have hok : (plainStore.persist acceptedSnapshot none ⟨none, none⟩).1 = .ok () := by decide +kernel
  have hpair : ∀ r : Except StorageError Unit × Disk, r.1 = .ok () → r = (.ok (), r.2) := fun r h => Prod.ext h rfl
  refine (persist_loadable_iff plainStore _ rfl acceptedSnapshot ⟨none, none⟩ _ (hpair _ hok)).mpr ?_
  exact ⟨unexecutedState.nodup_snapshot, unexecutedState, unexecutedState.lists_snapshot,
    validateChain_ok_iff.mp hvalid⟩

/-- A receipt and no block. -/
def orphanReceipt : LedgerSnapshot := ⟨1, unexecutedState.snapshot, [], [unexecutedReceipt]⟩

/-- `persist` reports success, and what it wrote is refused from then on. -/
theorem orphan_receipt_unloadable :
    (plainStore.persist orphanReceipt none ⟨none, none⟩).1 = .ok () ∧
    (plainStore.load (plainStore.persist orphanReceipt none ⟨none, none⟩).2 none).map (fun _ => ()) =
      .error (.invalid "every block must have exactly one receipt") :=
  ⟨by decide +kernel, by decide +kernel⟩

end
end LedgerStore
end Subhost
