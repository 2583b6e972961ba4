import Subhost.Mempool.Rollback
import Subhost.Rpc.Runs
/-!
# A submission commits or changes nothing (subhost-rpc/src/lib.rs:217-339)

A submission first admits the transaction to the pool, which may replace or evict another one,
and then seals the next block. When sealing fails, `restore_pool` removes the transaction and
adds back what was pending in its slot and what the admission displaced, through `add` and so
under the same limits. Starting from a consistent pool those insertions always succeed and give
the pool back exactly (`restorePool_admitTx`).
-/
namespace Subhost
open Uint Bincode Mempool Run

section
variable [Blake3]

namespace RpcState

/-- Undoing an accepted admission gives the pool back. The hypothesis says that no other pending
transaction has the hash of the submitted one. -/
theorem restorePool_admitTx {p q : Mempool} {tx : Transaction} {admission : Admission} (hp : p.Consistent)
    (hsame : ∀ t, p.get tx.hash = some t → t = tx) (h : p.admitTx tx = (.ok admission, q))
    (haccepted : admission.accepted = true) :
    restorePool q admission.hash ((p.getBySenderNonce tx.fromAddr tx.nonce).map Prod.snd)
      admission.displaced = p := by
  have houtcome := hp.outcome tx
  rw [h] at houtcome
  cases houtcome with
  | outbid => cases haccepted
  | pending hget =>
    -- resubmitted: the slot holds the transaction itself, which is removed and added again
    obtain rfl := hsame _ hget
    rw [hp.getBySenderNonce_of_get hget]
    exact hp.add_remove hget
  | fresh hnew hfree _ hq =>
    rw [getBySenderNonce_of_free hfree]
    exact hp.remove_place hnew hq
  | evicting hnew hfree _ hmin hq =>
    rw [getBySenderNonce_of_free hfree]
    exact hp.restore_displaced hnew (get_of_min hmin) hq
  | @replacing existing t hnew hget hslot _ hq =>
    -- the replaced transaction is added back twice, the second time to no effect
    rw [getBySenderNonce_of_slot hslot hget]
    show ((((((p.remove existing).2.place tx.hash tx).remove tx.hash).2.add t).2).add t).2 = p
    rw [hp.restore_displaced hnew hget hq]
    exact hp.add_pending hget

/-- An accepted transaction is pending under its hash. -/
theorem pending_of_accepted {p q : Mempool} {tx : Transaction} {admission : Admission} (hp : p.Consistent)
    (hsame : ∀ t, p.get tx.hash = some t → t = tx) (h : p.admitTx tx = (.ok admission, q))
    (haccepted : admission.accepted = true) : admission.hash = tx.hash ∧ q.get admission.hash = some tx := by
  have houtcome := hp.outcome tx
  rw [h] at houtcome
  cases houtcome with
  | outbid => cases haccepted
  | pending hget => exact ⟨rfl, by rw [hget, hsame _ hget]⟩
  | fresh | evicting | replacing => exact ⟨rfl, get_place _ _ _⟩

/-! ## The commit path -/

/-- `seal_next_block` fails and leaves memory alone, or commits what it prepared (lib.rs:273). -/
theorem sealNextBlock_cases (s : RpcState) (d : Disk) (txHash : Hash) (now : Timestamp) (fault : Option Fault) :
    (∃ e d', s.sealNextBlock d txHash now fault = (.error e, s, d')) ∨
    (∃ c d', s.prepareBlock txHash now = .ok c ∧
      s.sealNextBlock d txHash now fault = (.ok c.receipt, s.commitBlock txHash c, d')) := by
  unfold sealNextBlock
  cases hprep : s.prepareBlock txHash now with
  | error e => exact .inl ⟨e, d, rfl⟩
  | ok c =>
    dsimp only
    rcases s.persist c.state (s.blocks ++ [c.block]) (s.receipts.insert txHash c.receipt) fault d with
      ⟨e | u, d'⟩
    · exact .inl ⟨e, d', rfl⟩
    · exact .inr ⟨c, d', rfl, rfl⟩

/-- What a submission can do to a node's memory: nothing, or one block with exactly the submitted
transaction, executed on the current state, its receipt, and the transaction gone from the pool. -/
inductive Submits (s : RpcState) (tx : Transaction) : Except RpcError Hash → RpcState → Prop where
  | failed (e : RpcError) : Submits s tx (.error e) s
  | committed {admission : Admission} {q : Mempool} {fee : Amount} {c : Sealed}
      (admitted : s.mempool.admitTx tx = (.ok admission, q))
      (executed : s.state.applyTransaction tx = (.ok fee, c.state))
      (block : c.block.transactions = [tx]) (receipt : c.receipt = newReceipt tx.hash c.block) :
      Submits s tx (.ok tx.hash) ((s.withPool q).commitBlock tx.hash c)

theorem submitTransaction_submits {s : RpcState} {tx : Transaction} (hpool : s.mempool.Consistent)
    (hsame : ∀ t, s.mempool.get tx.hash = some t → t = tx) (d : Disk) (now : Timestamp)
    (fault : Option Fault) :
    Submits s tx (s.submitTransaction d tx now fault).1 (s.submitTransaction d tx now fault).2.1 := by
  unfold submitTransaction
  dsimp only
  have hadmits := hpool.admits tx
  rcases hadmitted : s.mempool.admitTx tx with ⟨e | admission, q⟩
  · rw [hadmitted] at hadmits
    cases hadmits
    exact .failed _
  dsimp only
  by_cases haccepted : admission.accepted = false
  · rw [if_pos haccepted]
    rw [hadmitted] at hadmits
    cases hadmits with
    | outbid => exact .failed _
    | pending | fresh | displacing => cases haccepted
  rw [if_neg haccepted]
  have haccepted : admission.accepted = true := by simpa using haccepted
  rcases sealNextBlock_cases (s.withPool q) d admission.hash now fault with ⟨e, d', hseal⟩ | ⟨c, d', hprep, hseal⟩
  · rw [show ({ s with mempool := q } : RpcState) = s.withPool q from rfl, hseal]
    dsimp only
    have hrestored := restorePool_admitTx hpool hsame hadmitted haccepted
    rw [show (s.withPool q).mempool = q from rfl, hrestored]
    exact .failed e
  · rw [show ({ s with mempool := q } : RpcState) = s.withPool q from rfl, hseal]
    obtain ⟨t, fee, _, hget, -, happly, -, hblock, hreceipt⟩ := prepareBlock_cases hprep
    obtain ⟨hhash, hpending⟩ := pending_of_accepted hpool hsame hadmitted haccepted
    obtain rfl : t = tx := Option.some.inj (hget.symm.trans hpending)
    rw [hhash] at hreceipt ⊢
    have hcommit := Submits.committed hadmitted happly (congrArg Block.transactions hblock) hreceipt
    rwa [show t.hash = c.receipt.txHash by rw [hreceipt]; rfl] at hcommit ⊢

/-- The transactions a submission compares by hash: the submitted one and the pending ones. -/
def handled (s : RpcState) (tx : Transaction) : List Transaction := tx :: s.mempool.txs.toList.map Prod.snd

/-- No two transactions of a submission share a hash, if BLAKE3 separates their encodings. -/
theorem eq_of_pending {s : RpcState} {tx t : Transaction} (hpool : s.mempool.Consistent)
    (hcf : CollisionFree ((s.handled tx).map Transaction.codec.encode))
    (hget : s.mempool.get tx.hash = some t) : t = tx := by
  have hmem : t ∈ s.handled tx :=
    List.mem_cons_of_mem _ (List.mem_map.mpr ⟨(tx.hash, t), Map.mem_toList.mpr hget, rfl⟩)
  have hself : tx ∈ s.handled tx := List.mem_cons_self
  refine Transaction.hash_inj (hcf.mono ?_) (hpool.sound.keyed hget)
  intro bytes hbytes
  rcases List.mem_pair.mp hbytes with rfl | rfl
  · exact List.mem_map.mpr ⟨t, hmem, rfl⟩
  · exact List.mem_map.mpr ⟨tx, hself, rfl⟩

/-- Whatever the pool holds and however full it is, and wherever the commit fails: a submission
that returns an error leaves the node as it was, the pool included; one that returns a hash has
added one block with exactly the submitted transaction, whose hash it is, has stored its receipt,
and has taken it out of the pool. -/
theorem submission_all_or_nothing (s : RpcState) (d : Disk) (tx : Transaction) (now : Timestamp)
    (fault : Option Fault) (hpool : s.mempool.Consistent)
    (hcf : CollisionFree ((s.handled tx).map Transaction.codec.encode)) :
    (∀ e, (s.submitTransaction d tx now fault).1 = .error e → (s.submitTransaction d tx now fault).2.1 = s) ∧
    ∀ h, (s.submitTransaction d tx now fault).1 = .ok h →
      ∃ block, (s.submitTransaction d tx now fault).2.1.blocks = s.blocks ++ [block] ∧
        block.transactions = [tx] ∧ tx.hash = h ∧
        (s.submitTransaction d tx now fault).2.1.receipts[h]? = some (newReceipt h block) ∧
        (s.submitTransaction d tx now fault).2.1.mempool.get h = none := by
  have hsubmits := submitTransaction_submits hpool (fun _ => eq_of_pending hpool hcf) d now fault
  generalize (s.submitTransaction d tx now fault).1 = result at hsubmits ⊢
  generalize (s.submitTransaction d tx now fault).2.1 = after at hsubmits ⊢
  cases hsubmits with
  | failed e => exact ⟨fun _ _ => rfl, by rintro h ⟨⟩⟩
  | @committed _ q _ c admitted executed block receipt =>
    refine ⟨by rintro e ⟨⟩, ?_⟩
    rintro h ⟨⟩
    refine ⟨c.block, rfl, block, rfl, ?_, ?_⟩
    · rw [commitBlock, Map.get_insert_self, receipt]
    · rw [Mempool.get, commitBlock, remove_txs, Map.get_erase_self]

/-! ## The pool of a running node -/

theorem sealNextBlock_consistent {s : RpcState} (hpool : s.mempool.Consistent) (d : Disk) (txHash : Hash)
    (now : Timestamp) (fault : Option Fault) : (s.sealNextBlock d txHash now fault).2.1.mempool.Consistent := by
  rcases sealNextBlock_cases s d txHash now fault with ⟨e, d', h⟩ | ⟨c, d', -, h⟩ <;> rw [h]
  · exact hpool
  · exact hpool.remove txHash

theorem submitTransaction_consistent {s : RpcState} (hpool : s.mempool.Consistent) (d : Disk) (tx : Transaction)
    (now : Timestamp) (fault : Option Fault) :
    (s.submitTransaction d tx now fault).2.1.mempool.Consistent := by
  have hq := hpool.admitTx tx
  unfold submitTransaction
  dsimp only
  split
  · rename_i hadmitted
    rwa [hadmitted] at hq
  · rename_i admission q hadmitted
    rw [hadmitted] at hq
    split
    · exact hq
    · have hsealed := sealNextBlock_consistent (s := s.withPool q) hq d admission.hash now fault
      rw [show ({ s with mempool := q } : RpcState) = s.withPool q from rfl]
      split
      · rename_i h
        rwa [h] at hsealed
      · rename_i h
        rw [h] at hsealed
        exact restorePool_invariant (P := Mempool.Consistent) (fun _ hash hq => hq.remove hash)
          (fun _ tx hq => hq.admitTx tx) hsealed _ _ _

/-- In every run of a node from an empty store, whatever is called and whatever fails, the pool is
consistent. -/
theorem pool_consistent_run (store : LedgerStore) (ops : List RpcOp) :
    (final step (fresh store, emptyDisk) ops).1.mempool.Consistent := by
  refine final_invariant step (fun w => w.1.mempool.Consistent) ?_ consistent_default ops
  intro w op hpool
  cases op with
  | seed allocations fault =>
    show (w.1.seedAccounts w.2 allocations fault).2.1.mempool.Consistent
    unfold seedAccounts
    dsimp only
    split <;> exact hpool
  | submit tx now fault => exact submitTransaction_consistent hpool w.2 tx now fault
  | includeTx txHash now fault => exact sealNextBlock_consistent hpool w.2 txHash now fault
  | reopen fault =>
    unfold step withStore
    dsimp only
    split
    · exact hpool
    · rename_i s hopen
      split at hopen
      · cases hopen
      · cases hopen
        exact consistent_default

end RpcState
end

section
open scoped Concrete
open RpcState

/-- A pool with room for one transaction, which holds Alice's payment. -/
def crowdedNode : RpcState :=
  ⟨1, 0, (Mempool.admitTx ⟨⟨1, 1, 1, 100⟩, ∅, ∅⟩ payment).2, State.withChainId 1, [], ∅, durableStore⟩

def unfunded : Transaction := { payment with fromAddr := bob }

/-- Bob's unfunded payment evicts Alice's, fails to execute, and Alice's is pending again. -/
theorem submission_all_or_nothing_eviction :
    (crowdedNode.mempool.admitTx unfunded).1.toOption.bind Admission.displaced = some payment ∧
    (crowdedNode.submitTransaction emptyDisk unfunded 7 none).1.isOk = false ∧
    (crowdedNode.submitTransaction emptyDisk unfunded 7 none).2.1 = crowdedNode := by
  have hpool : crowdedNode.mempool.Consistent :=
    (consistent_tryNew (c := ⟨1, 1, 1, 100⟩) rfl).admitTx payment
  have hrefused : (crowdedNode.submitTransaction emptyDisk unfunded 7 none).1.isOk = false := by
    decide +kernel
  refine ⟨by decide +kernel, hrefused, ?_⟩
  have h := submission_all_or_nothing crowdedNode emptyDisk unfunded 7 none hpool (by decide +kernel)
  cases hresult : (crowdedNode.submitTransaction emptyDisk unfunded 7 none).1 with
  | error e => exact h.1 e hresult
  | ok hash =>
    rw [hresult] at hrefused
    cases hrefused

end
end Subhost
