import Subhost.Rpc.Ledger
/-!
# What one call of the node does

A call makes at most one write, of a ledger it prepared, and follows its outcome: `Tries`. The functions
themselves are opened only to show that (`seedAccounts_tries`, `sealNextBlock_tries`,
`submitTransaction_tries`); later modules use what follows from it.

* `CallEffect`, without the write itself: the call is refused and touches nothing but the pool; or it
  prepared a new ledger but the write failed, and the file may or may not have been replaced; or the write
  went through and memory follows.
* `Follows`, for calls without I/O errors: the steps of the write are all made or none is.
-/
namespace Subhost
open Uint Bincode

/-- The height a node reports for its blocks. -/
def lastHeight (blocks : List Block) : U64 := (blocks.getLast?).elim 0 fun b => b.header.height

section
variable [Blake3]

/-- A successful write of a snapshot. -/
def Written (store : LedgerStore) (snapshot : LedgerSnapshot) (d d' : Disk) : Prop :=
  (store.path = none ∧ d' = d) ∨
    ((encodeLedger snapshot).length ≤ maxLedgerBytes ∧ d' = ⟨some ⟨encodeLedger snapshot, true⟩, none⟩)

/-- A failed write of a snapshot: the file is the old one or, if the rename was reached, the new one. -/
def Attempted (snapshot : LedgerSnapshot) (d d' : Disk) : Prop :=
  d'.ledger = d.ledger ∨
    ((encodeLedger snapshot).length ≤ maxLedgerBytes ∧ d'.ledger = some ⟨encodeLedger snapshot, true⟩)

namespace RpcState

def ledger (s : RpcState) : Ledger := ⟨s.state, s.blocks, s.receipts⟩

def withPool (s : RpcState) (p : Mempool) : RpcState := { s with mempool := p }

/-- The node with another ledger and pool. -/
def withLedger (s : RpcState) (l : Ledger) (p : Mempool) : RpcState :=
  ⟨s.chainId, lastHeight l.blocks, p, l.state, l.blocks, l.receipts, s.store⟩

/-- The pool is sound and has the default limits. -/
structure PoolReady (p : Mempool) : Prop where
  sound : p.Sound
  limits : p.config = MempoolConfig.default

/-- Everything a call can do to memory and disk, where `New` describes the ledgers it may produce. -/
inductive CallEffect (New : Ledger → Prop) (s : RpcState) (d : Disk) : Except RpcError Unit → RpcState → Disk → Prop where
  | refused {e : RpcError} {p : Mempool} (pool : PoolReady p) : CallEffect New s d (.error e) (s.withPool p) d
  | failed {e : RpcError} {p : Mempool} {l : Ledger} {d' : Disk} (pool : PoolReady p)
      (next : New l) (attempted : Attempted (l.snapshot s.chainId) d d') :
      CallEffect New s d (.error e) (s.withPool p) d'
  | committed {p : Mempool} {l : Ledger} {d' : Disk} (pool : PoolReady p)
      (next : New l) (written : Written s.store (l.snapshot s.chainId) d d') :
      CallEffect New s d (.ok ()) (s.withLedger l p) d'

/-- A call leaves the ledger alone, or it succeeds with one of the new ledgers. -/
theorem CallEffect.ledger_cases {New : Ledger → Prop} {s s' : RpcState} {d d' : Disk} {r : Except RpcError Unit}
    (h : CallEffect New s d r s' d') : s'.ledger = s.ledger ∨ (r = .ok () ∧ New s'.ledger) := by
  cases h with
  | refused pool => exact .inl rfl
  | failed pool next attempted => exact .inl rfl
  | committed pool next written => exact .inr ⟨rfl, next⟩

/-! ## Writing -/

theorem attempted_of_persist_error {store : LedgerStore} {snapshot : LedgerSnapshot} {fault : Option Fault}
    {d d' : Disk} {e : StorageError} (h : store.persist snapshot fault d = (.error e, d')) :
    Attempted snapshot d d' := by
  rcases LedgerStore.persist_error h with ⟨rfl, -⟩ | ⟨-, -, hsize, f, -, -, -, hfile⟩
  · exact .inl rfl
  · by_cases hearly : f.step ≤ 5
    · rw [if_pos hearly] at hfile
      exact .inl hfile
    · rw [if_neg hearly] at hfile
      exact .inr ⟨hsize, hfile⟩

/-- `RpcState::persist` is the store's, up to the error. -/
theorem persist_eq (s : RpcState) (l : Ledger) (fault : Option Fault) (d : Disk) :
    s.persist l.state l.blocks l.receipts fault d =
      ((s.store.persist (l.snapshot s.chainId) fault d).1.mapError fun e => .persistence e.display,
        (s.store.persist (l.snapshot s.chainId) fault d).2) := by
  unfold persist Ledger.snapshot
  split <;> rename_i hp <;> rw [hp] <;> rfl

/-! ## Pools -/

theorem PoolReady.remove {p : Mempool} (h : PoolReady p) (hash : Hash) : PoolReady (p.remove hash).2 :=
  ⟨h.sound.remove hash, (Mempool.remove_spec p hash).1.trans h.limits⟩

theorem PoolReady.admitTx {p : Mempool} (h : PoolReady p) (tx : Transaction) : PoolReady (p.admitTx tx).2 :=
  ⟨h.sound.admitTx tx, (Mempool.admitTx_spec p tx).1.trans h.limits⟩

/-- What removals and admissions keep, a rollback keeps. -/
theorem restorePool_invariant {P : Mempool → Prop} (hremove : ∀ p hash, P p → P (p.remove hash).2)
    (hadmitTx : ∀ p tx, P p → P (p.admitTx tx).2) {p : Mempool} (hp : P p) (hash : Hash)
    (previous displaced : Option Transaction) : P (restorePool p hash previous displaced) := by
  have hfold : ∀ (txs : List Transaction) (q : Mempool), P q → P (txs.foldl (fun p tx => (p.add tx).2) q) := by
    intro txs
    induction txs with
    | nil => exact fun q hq => hq
    | cons tx rest ih => exact fun q hq => ih _ (hadmitTx q tx hq)
  exact hfold _ _ (hremove p hash hp)

theorem PoolReady.restorePool {p : Mempool} (h : PoolReady p) (hash : Hash) (previous displaced : Option Transaction) :
    PoolReady (restorePool p hash previous displaced) :=
  restorePool_invariant (fun _ hash hq => hq.remove hash) (fun _ tx hq => hq.admitTx tx) h hash previous displaced

/-! ## What a call tries to write -/

/-- What `seal_next_block` prepares (lib.rs:274-329). -/
theorem prepareBlock_cases {s : RpcState} {txHash : Hash} {now : Timestamp} {c : Sealed}
    (h : s.prepareBlock txHash now = .ok c) :
    ∃ tx fee height, s.mempool.get txHash = some tx ∧ tx.gasLimit.toNat ≤ blockGasLimit.toNat ∧
      s.state.applyTransaction tx = (.ok fee, c.state) ∧ nextHeight s.blocks = some height ∧
      c.block = newBlock s.chainId height now (headHash s.blocks) c.state.root txHash tx ∧
      c.receipt = newReceipt txHash c.block := by
  unfold prepareBlock at h
  split at h
  · cases h
  · rename_i tx hget
    split at h
    · cases h
    · rename_i hgas
      rw [lt_iff_toNat, Nat.not_lt] at hgas
      split at h
      · cases h
      · rename_i fee candidate happly
        split at h
        · cases h
        · rename_i height hheight
          cases h
          exact ⟨tx, fee, height, hget, hgas, happly, hheight, rfl, rfl⟩

/-- A prepared block extends the ledger by one executed transaction of the pool. -/
theorem prepareBlock_ok {s : RpcState} {txHash : Hash} {now : Timestamp} {c : Sealed} (hpool : PoolReady s.mempool)
    (h : s.prepareBlock txHash now = .ok c) :
    Ledger.Extends s.chainId s.ledger ⟨c.state, s.blocks ++ [c.block], s.receipts.insert txHash c.receipt⟩ := by
  obtain ⟨tx, fee, height, htx, hgas, happly, hheight, hblock, hreceipt⟩ := prepareBlock_cases h
  obtain rfl := hpool.sound.keyed htx
  have hsmall := hpool.sound.bounded htx
  rw [hpool.limits] at hsmall
  rw [hreceipt, hblock]
  exact Ledger.Extends.sealed (l := s.ledger) hsmall hgas happly hheight

/-- The ledger `seal_next_block` tries to write, if it gets as far as writing. -/
def sealTarget (s : RpcState) (txHash : Hash) (now : Timestamp) : Option Ledger :=
  match s.prepareBlock txHash now with
  | .error _ => none
  | .ok c => some ⟨c.state, s.blocks ++ [c.block], s.receipts.insert txHash c.receipt⟩

/-- The ledger a submission tries to write, if it gets as far as writing. -/
def submitTarget (s : RpcState) (tx : Transaction) (now : Timestamp) : Option Ledger :=
  match s.mempool.admitTx tx with
  | (.error _, _) => none
  | (.ok admission, p) =>
    if admission.accepted = false then none
    else
      match (s.withPool p).prepareBlock admission.hash now with
      | .error _ => none
      | .ok c => some ⟨c.state, s.blocks ++ [c.block], s.receipts.insert admission.hash c.receipt⟩

theorem sealTarget_extends {s : RpcState} {txHash : Hash} {now : Timestamp} {l : Ledger}
    (hpool : PoolReady s.mempool) (h : s.sealTarget txHash now = some l) : Ledger.Extends s.chainId s.ledger l := by
  unfold sealTarget at h
  split at h
  · cases h
  · rename_i c hprep
    cases h
    exact prepareBlock_ok hpool hprep

theorem submitTarget_extends {s : RpcState} {tx : Transaction} {now : Timestamp} {l : Ledger}
    (hpool : PoolReady s.mempool) (h : s.submitTarget tx now = some l) : Ledger.Extends s.chainId s.ledger l := by
  have hready := hpool.admitTx tx
  unfold submitTarget at h
  split at h
  · cases h
  · rename_i admission p hp
    rw [hp] at hready
    split at h
    · cases h
    · split at h
      · cases h
      · rename_i c hprep
        cases h
        exact prepareBlock_ok (s := s.withPool p) hready hprep

/-! ## The calls -/

/-- What a call does that tries to write the target ledger, if there is one: it answers an error that is not
about persistence; or the write fails and the ledger in memory stays; or it succeeds and memory follows. -/
inductive Tries (s : RpcState) (d : Disk) (target : Option Ledger) (fault : Option Fault) :
    Except RpcError Unit → RpcState → Disk → Prop where
  | idle {e : RpcError} {p : Mempool} (pool : PoolReady p) (no_target : target = none)
      (other : ∀ message, e ≠ .persistence message) : Tries s d target fault (.error e) (s.withPool p) d
  | failed {l : Ledger} {e : StorageError} {p : Mempool} {d' : Disk} (pool : PoolReady p) (target_eq : target = some l)
      (write : s.store.persist (l.snapshot s.chainId) fault d = (.error e, d')) :
      Tries s d target fault (.error (.persistence e.display)) (s.withPool p) d'
  | written {l : Ledger} {p : Mempool} {d' : Disk} (pool : PoolReady p) (target_eq : target = some l)
      (write : s.store.persist (l.snapshot s.chainId) fault d = (.ok (), d')) :
      Tries s d target fault (.ok ()) (s.withLedger l p) d'

omit [Blake3] in
/-- Setting balances keeps the blocks and so the height. -/
theorem withLedger_seed {s : RpcState} (hheight : s.blockHeight = lastHeight s.blocks)
    (allocations : List (Address × Amount)) :
    s.withLedger (s.ledger.seed allocations) s.mempool = { s with state := setBalances s.state allocations } := by
  rw [withLedger, show (s.ledger.seed allocations).blocks = s.blocks from rfl, ← hheight]
  rfl

theorem seedAccounts_tries (s : RpcState) (d : Disk) (allocations : List (Address × Amount)) (fault : Option Fault)
    (hpool : PoolReady s.mempool) (hheight : s.blockHeight = lastHeight s.blocks) :
    Tries s d (some (s.ledger.seed allocations)) fault (s.seedAccounts d allocations fault).1
      (s.seedAccounts d allocations fault).2.1 (s.seedAccounts d allocations fault).2.2 := by
  have hpersist := persist_eq s (s.ledger.seed allocations) fault d
  unfold seedAccounts
  dsimp only
  rw [show s.persist (setBalances s.state allocations) s.blocks s.receipts fault d = _ from hpersist]
  rcases hwrite : s.store.persist ((s.ledger.seed allocations).snapshot s.chainId) fault d with ⟨e | u, d'⟩
  · exact Tries.failed (p := s.mempool) hpool rfl hwrite
  · have hwritten : Tries s d (some (s.ledger.seed allocations)) fault (.ok ())
        (s.withLedger (s.ledger.seed allocations) s.mempool) d' := .written hpool rfl hwrite
    rw [withLedger_seed hheight] at hwritten
    exact hwritten

theorem prepareBlock_error {s : RpcState} {txHash : Hash} {now : Timestamp} {e : RpcError}
    (h : s.prepareBlock txHash now = .error e) (message : String) : e ≠ .persistence message := by
  unfold prepareBlock at h
  split at h
  · cases h
    exact RpcError.noConfusion
  · split at h
    · cases h
      exact RpcError.noConfusion
    · split at h
      · cases h
        exact RpcError.noConfusion
      · split at h
        · cases h
          exact RpcError.noConfusion
        · cases h

theorem sealNextBlock_tries (s : RpcState) (d : Disk) (txHash : Hash) (now : Timestamp) (fault : Option Fault)
    (hpool : PoolReady s.mempool) :
    Tries s d (s.sealTarget txHash now) fault ((s.sealNextBlock d txHash now fault).1.map fun _ => ())
      (s.sealNextBlock d txHash now fault).2.1 (s.sealNextBlock d txHash now fault).2.2 := by
  unfold sealNextBlock sealTarget
  cases hprep : s.prepareBlock txHash now with
  | error e => exact Tries.idle (p := s.mempool) hpool rfl (prepareBlock_error hprep)
  | ok c =>
    dsimp only
    rw [persist_eq s ⟨c.state, s.blocks ++ [c.block], s.receipts.insert txHash c.receipt⟩ fault d]
    rcases hwrite : s.store.persist (Ledger.snapshot s.chainId
      ⟨c.state, s.blocks ++ [c.block], s.receipts.insert txHash c.receipt⟩) fault d with ⟨e | u, d'⟩
    · exact Tries.failed (p := s.mempool) hpool rfl hwrite
    · have hwritten := Tries.written (s := s) (hpool.remove txHash) rfl hwrite
      unfold withLedger lastHeight at hwritten
      rw [List.getLast?_concat] at hwritten
      exact hwritten

theorem submitTransaction_tries (s : RpcState) (d : Disk) (tx : Transaction) (now : Timestamp) (fault : Option Fault)
    (hpool : PoolReady s.mempool) :
    Tries s d (s.submitTarget tx now) fault ((s.submitTransaction d tx now fault).1.map fun _ => ())
      (s.submitTransaction d tx now fault).2.1 (s.submitTransaction d tx now fault).2.2 := by
  have hready := hpool.admitTx tx
  unfold submitTransaction submitTarget
  dsimp only
  rcases h : s.mempool.admitTx tx with ⟨e | admission, p⟩
  · rw [h] at hready
    exact .idle hready rfl fun _ => RpcError.noConfusion
  rw [h] at hready
  dsimp only
  by_cases hacc : admission.accepted = false
  · rw [if_pos hacc, if_pos hacc]
    exact .idle hready rfl fun _ => RpcError.noConfusion
  rw [if_neg hacc, if_neg hacc]
  have htries := sealNextBlock_tries (s.withPool p) d admission.hash now fault hready
  unfold sealTarget at htries
  rw [show ({ s with mempool := p } : RpcState) = s.withPool p from rfl]
  -- rolling the pool back touches neither the ledger nor the disk
  revert htries
  generalize sealNextBlock (s.withPool p) d admission.hash now fault = outcome
  obtain ⟨e | receipt, s', d'⟩ := outcome
  · intro htries
    cases htries with
    | idle pool no_target other => exact .idle (pool.restorePool _ _ _) no_target other
    | failed pool target_eq write => exact .failed (pool.restorePool _ _ _) target_eq write
  · intro htries
    cases htries with
    | written pool target_eq write => exact .written pool target_eq write

/-! ## Effects -/

theorem Tries.effect {s s' : RpcState} {d d' : Disk} {target : Option Ledger} {fault : Option Fault}
    {r : Except RpcError Unit} {New : Ledger → Prop} (h : Tries s d target fault r s' d')
    (hnew : ∀ l, target = some l → New l) : CallEffect New s d r s' d' := by
  cases h with
  | idle pool no_target other => exact .refused pool
  | failed pool target_eq write => exact .failed pool (hnew _ target_eq) (attempted_of_persist_error write)
  | written pool target_eq write => exact .committed pool (hnew _ target_eq) (LedgerStore.persist_ok write).2.2

theorem seedAccounts_effect (s : RpcState) (d : Disk) (allocations : List (Address × Amount)) (fault : Option Fault)
    (hpool : PoolReady s.mempool) (hheight : s.blockHeight = lastHeight s.blocks) :
    CallEffect (· = s.ledger.seed allocations) s d (s.seedAccounts d allocations fault).1
      (s.seedAccounts d allocations fault).2.1 (s.seedAccounts d allocations fault).2.2 :=
  (seedAccounts_tries s d allocations fault hpool hheight).effect fun _ hl => (Option.some.inj hl).symm

theorem sealNextBlock_effect (s : RpcState) (d : Disk) (txHash : Hash) (now : Timestamp) (fault : Option Fault)
    (hpool : PoolReady s.mempool) :
    CallEffect (Ledger.Extends s.chainId s.ledger) s d ((s.sealNextBlock d txHash now fault).1.map fun _ => ())
      (s.sealNextBlock d txHash now fault).2.1 (s.sealNextBlock d txHash now fault).2.2 :=
  (sealNextBlock_tries s d txHash now fault hpool).effect fun _ hl => sealTarget_extends hpool hl

theorem submitTransaction_effect (s : RpcState) (d : Disk) (tx : Transaction) (now : Timestamp)
    (fault : Option Fault) (hpool : PoolReady s.mempool) :
    CallEffect (Ledger.Extends s.chainId s.ledger) s d ((s.submitTransaction d tx now fault).1.map fun _ => ())
      (s.submitTransaction d tx now fault).2.1 (s.submitTransaction d tx now fault).2.2 :=
  (submitTransaction_tries s d tx now fault hpool).effect fun _ hl => submitTarget_extends hpool hl

/-- A seeding call on a durable store that succeeded met no I/O error and wrote within the limit. -/
theorem not_fault_of_seedAccounts_ok {s : RpcState} {path : LedgerPath} (hpath : s.store.path = some path) {d : Disk}
    {allocations : List (Address × Amount)} {fault : Option Fault}
    (h : (s.seedAccounts d allocations fault).1 = .ok ()) :
    (∀ f, fault = some f → 7 < f.step) ∧
      (encodeLedger ((s.ledger.seed allocations).snapshot s.chainId)).length ≤ maxLedgerBytes := by
  unfold seedAccounts persist at h
  rcases hp : s.store.persist ((s.ledger.seed allocations).snapshot s.chainId) fault d with ⟨e | u, d'⟩
  · unfold Ledger.snapshot Ledger.seed at hp
    dsimp only [ledger] at hp
    simp only [hp] at h
    cases h
  · exact LedgerStore.not_fault_of_persist_ok hpath hp

/-! ## Calls without I/O errors, step by step -/

/-- The file-system steps of writing a ledger. -/
def writeSteps (s : RpcState) (l : Ledger) : List FsOp := s.store.persistSteps (l.snapshot s.chainId)

/-- What a call does that tries to write the target ledger, if there is one, and meets no I/O error:
no step and the ledger stays, or every step and memory follows. -/
inductive Follows (s : RpcState) (d : Disk) (target : Option Ledger) :
    Except RpcError Unit → RpcState → Disk → Prop where
  | idle {e : RpcError} {p : Mempool} (pool : PoolReady p) (steps : target.elim [] s.writeSteps = []) :
      Follows s d target (.error e) (s.withPool p) d
  | written {l : Ledger} {p : Mempool} (pool : PoolReady p) (target_eq : target = some l)
      (steps : s.writeSteps l = persistOps (encodeLedger (l.snapshot s.chainId)))
      (size : (encodeLedger (l.snapshot s.chainId)).length ≤ maxLedgerBytes) :
      Follows s d target (.ok ()) (s.withLedger l p)
        ((persistOps (encodeLedger (l.snapshot s.chainId))).foldl (fun d op => op.run d) d)

theorem Tries.follows {s s' : RpcState} {path : LedgerPath} (hpath : s.store.path = some path) {d d' : Disk}
    {target : Option Ledger} {r : Except RpcError Unit} (h : Tries s d target none r s' d') :
    Follows s d target r s' d' := by
  cases h with
  | idle pool no_target other =>
    refine .idle pool ?_
    rw [no_target]
    rfl
  | @failed l _ _ _ pool target_eq write =>
    rcases LedgerStore.persist_durable hpath (l.snapshot s.chainId) d with ⟨-, -, hok⟩ | ⟨hsteps, e, herror⟩
    · rw [hok] at write
      cases write
    · rw [herror] at write
      cases write
      refine .idle pool ?_
      rw [target_eq]
      exact hsteps
  | @written l _ _ pool target_eq write =>
    rcases LedgerStore.persist_durable hpath (l.snapshot s.chainId) d with ⟨hsteps, hsize, hok⟩ | ⟨-, e, herror⟩
    · rw [hok] at write
      cases write
      exact .written pool target_eq hsteps hsize
    · rw [herror] at write
      cases write

theorem seedAccounts_follows {s : RpcState} {path : LedgerPath} (hpath : s.store.path = some path)
    (hpool : PoolReady s.mempool) (hheight : s.blockHeight = lastHeight s.blocks) (d : Disk)
    (allocations : List (Address × Amount)) :
    Follows s d (some (s.ledger.seed allocations)) (s.seedAccounts d allocations none).1
      (s.seedAccounts d allocations none).2.1 (s.seedAccounts d allocations none).2.2 :=
  (seedAccounts_tries s d allocations none hpool hheight).follows hpath

theorem submitTransaction_follows {s : RpcState} {path : LedgerPath} (hpath : s.store.path = some path)
    (hpool : PoolReady s.mempool) (d : Disk) (tx : Transaction) (now : Timestamp) :
    Follows s d (s.submitTarget tx now) ((s.submitTransaction d tx now none).1.map fun _ => ())
      (s.submitTransaction d tx now none).2.1 (s.submitTransaction d tx now none).2.2 :=
  (submitTransaction_tries s d tx now none hpool).follows hpath

end RpcState
end
end Subhost
