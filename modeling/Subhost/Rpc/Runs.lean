import Subhost.Rpc.Steps
/-!
# Runs of the node

A run is a list of calls (`RpcOp`), each of which may fail, and each write of which may fail at any
file-system step; `reopen` drops the memory and builds it again from the file. `Sane` holds in every
state of every run from an empty store, whatever the hash function does. From it:

* the blocks never hold one transaction twice (`replay_free`);
* a node whose seeding precedes its blocks keeps a ledger the validator accepts, and its state is
  the seeded one with the blocks executed on it (`producer_valid`);
* a file written by a call that returned `Ok` can be loaded (`written_restorable`), **unless**
  `seed_accounts` changed the state of a node that already has blocks: the newest header keeps the
  root of the old state, nothing is checked before the write, and the file is refused from then on
  (`reseeded_unloadable`).
-/
namespace Subhost
open Uint Bincode Run

/-- The calls of a run, with the clock and the failures the outside world decides. -/
inductive RpcOp where
  | seed (allocations : List (Address × Amount)) (fault : Option Fault)
  | submit (tx : Transaction) (now : Timestamp) (fault : Option Fault)
  | includeTx (txHash : Hash) (now : Timestamp) (fault : Option Fault)
  | reopen (fault : Option String)

inductive OpError where
  | rpc (e : RpcError)
  | storage (e : StorageError)
deriving DecidableEq

namespace RpcState

section
variable [Blake3]

/-- One call on memory and disk. A node that cannot be reopened is left as it is. -/
def step (w : RpcState × Disk) : RpcOp → Except OpError Unit × RpcState × Disk
  | .seed allocations fault =>
    let (r, w') := w.1.seedAccounts w.2 allocations fault
    (r.mapError .rpc, w')
  | .submit tx now fault =>
    let (r, w') := w.1.submitTransaction w.2 tx now fault
    ((r.map fun _ => ()).mapError .rpc, w')
  | .includeTx txHash now fault =>
    let (r, w') := w.1.includeTransaction w.2 txHash now fault
    ((r.map fun _ => ()).mapError .rpc, w')
  | .reopen fault =>
    match withStore w.1.store w.2 fault with
    | .error e => (.error (.storage e), w)
    | .ok s => (.ok (), s, w.2)

/-- The node `with_store` builds on an empty store. -/
def fresh (store : LedgerStore) : RpcState where
  chainId := store.chainId
  blockHeight := 0
  mempool := Mempool.default
  state := State.withChainId store.chainId
  blocks := []
  receipts := ∅
  store := store

def emptyDisk : Disk := ⟨none, none⟩

/-- The ledgers a call may produce. -/
def Produces (s : RpcState) : RpcOp → Ledger → Prop
  | .seed allocations _, l => l = s.ledger.seed allocations
  | .submit .., l | .includeTx .., l => Ledger.Extends s.chainId s.ledger l
  | .reopen _, _ => False

/-- The file, if there is one, is the encoding of a well-formed ledger. -/
def Stored (chainId : ChainId) (d : Disk) : Prop :=
  ∀ f, d.ledger = some f → ∃ l : Ledger, l.Wf chainId ∧
    (encodeLedger (l.snapshot chainId)).length ≤ maxLedgerBytes ∧ f = ⟨encodeLedger (l.snapshot chainId), true⟩

/-- What holds in every state of every run. -/
structure Sane (store : LedgerStore) (w : RpcState × Disk) : Prop where
  store_eq : w.1.store = store
  chain : w.1.chainId = store.chainId
  pool : PoolReady w.1.mempool
  height : w.1.blockHeight = lastHeight w.1.blocks
  wf : w.1.ledger.Wf store.chainId
  stored : Stored store.chainId w.2

/-! ## Opening a store -/

/-- Without a ledger file every store opens empty. -/
theorem withStore_empty (store : LedgerStore) {d : Disk} (hd : d.ledger = none) (fault : Option String) :
    withStore store d fault = .ok (fresh store) := by
  obtain ⟨path, chainId, hne⟩ := store
  obtain ⟨file, temp⟩ := d
  cases hd
  cases path with
  | none => rfl
  | some path => rfl

theorem poolReady_default : PoolReady Mempool.default := ⟨Mempool.sound_default, rfl⟩

/-- The node that holds ledger `l` and an empty pool. -/
def holding (store : LedgerStore) (l : Ledger) : RpcState :=
  (fresh store).withLedger l Mempool.default

/-- The receipts of a well-formed ledger are read back as they were written. -/
theorem collectReceipts_of_wf {chainId : ChainId} {l : Ledger} (h : l.Wf chainId) :
    collectReceipts (orderedReceipts l.receipts) = l.receipts := by
  rw [h.receipts_eq]
  exact collectReceipts_orderedReceipts (keyedBy_collectReceipts _)

/-- **Opening a written file** gives the ledger it was made from, if and only if the validator
accepts that ledger. -/
theorem withStore_written {store : LedgerStore} {path : LedgerPath} {l : Ledger} {d : Disk} {s : RpcState}
    (hpath : store.path = some path) (hwf : l.Wf store.chainId)
    (hsize : (encodeLedger (l.snapshot store.chainId)).length ≤ maxLedgerBytes)
    (hfile : d.ledger = some ⟨encodeLedger (l.snapshot store.chainId), true⟩) :
    withStore store d none = .ok s ↔
      ValidChain l.blocks (orderedReceipts l.receipts) store.chainId l.state ∧ s = holding store l := by
  have hload : store.load d none = store.restore (l.snapshot store.chainId) := by
    unfold LedgerStore.load
    rw [hpath, hfile]
    exact store.loadBytes_encodeLedger hsize
  have hrestore : ∀ restored, store.restore (l.snapshot store.chainId) = .ok restored ↔
      ValidChain l.blocks (orderedReceipts l.receipts) store.chainId l.state ∧
        restored = ⟨l.state, l.blocks, orderedReceipts l.receipts⟩ := store.restore_snapshot hwf.chain
  have hsame : (⟨store.chainId, RestoredLedger.height ⟨l.state, l.blocks, orderedReceipts l.receipts⟩,
      Mempool.default, l.state, l.blocks, collectReceipts (orderedReceipts l.receipts), store⟩ : RpcState) =
      holding store l := by
    rw [collectReceipts_of_wf hwf]
    rfl
  unfold withStore
  rw [hload]
  constructor
  · intro h
    split at h
    · cases h
    · rename_i restored hok
      obtain ⟨hvalid, rfl⟩ := (hrestore restored).mp hok
      cases h
      exact ⟨hvalid, hsame⟩
  · rintro ⟨hvalid, rfl⟩
    rw [(hrestore _).mpr ⟨hvalid, rfl⟩]
    exact congrArg Except.ok hsame

theorem sane_fresh (store : LedgerStore) : Sane store (fresh store, emptyDisk) :=
  ⟨rfl, rfl, poolReady_default, rfl, Ledger.wf_empty _, fun f hf => by cases hf⟩

/-- A store that opened despite a read error opens without one: nothing was read. -/
theorem withStore_without_fault {store : LedgerStore} {d : Disk} {fault : Option String} {s : RpcState}
    (h : withStore store d fault = .ok s) : withStore store d none = .ok s := by
  cases fault with
  | none => exact h
  | some message =>
    obtain ⟨path, chainId, hne⟩ := store
    obtain ⟨file, temp⟩ := d
    cases path with
    | none => exact h
    | some path =>
      cases file with
      | none => exact h
      | some f => cases h

/-- A node opened on a stored file holds a well-formed ledger that matches its newest header. -/
theorem withStore_ok {store : LedgerStore} {d : Disk} {fault : Option String} {s : RpcState}
    (hstored : Stored store.chainId d) (h : withStore store d fault = .ok s) :
    ∃ l : Ledger, l.Wf store.chainId ∧ l.Rooted ∧ s = holding store l := by
  have hempty : ∃ l : Ledger, l.Wf store.chainId ∧ l.Rooted ∧ fresh store = holding store l :=
    ⟨_, Ledger.wf_empty _, fun last hlast => (by cases hlast), rfl⟩
  rcases hpath : store.path with _ | path
  · have hload : store.load d fault = .ok store.empty := by
      unfold LedgerStore.load
      rw [hpath]
    rw [withStore, hload] at h
    cases h
    exact hempty
  · rcases hfile : d.ledger with _ | f
    · rw [withStore_empty store hfile] at h
      cases h
      exact hempty
    · obtain ⟨l, hwf, hsize, rfl⟩ := hstored f hfile
      cases fault with
      | some message =>
        unfold withStore LedgerStore.load at h
        rw [hpath, hfile] at h
        cases h
      | none =>
        obtain ⟨hvalid, rfl⟩ := (withStore_written hpath hwf hsize hfile).mp h
        exact ⟨l, hwf, hvalid.state_root, rfl⟩

/-! ## One call -/

theorem Produces.next {s : RpcState} {op : RpcOp} {l : Ledger} (h : s.Produces op l) :
    Ledger.Next s.chainId s.ledger l := by
  cases op with
  | seed allocations fault =>
    rw [show l = s.ledger.seed allocations from h]
    exact .seeded allocations
  | submit tx now fault => exact .sealed h
  | includeTx txHash now fault => exact .sealed h
  | reopen fault => exact h.elim

/-- Everything one call of a run can do. -/
theorem step_cases {store : LedgerStore} {w : RpcState × Disk} (h : Sane store w) (op : RpcOp) :
    (∃ r, (step w op).1 = r.mapError .rpc ∧
      CallEffect (w.1.Produces op) w.1 w.2 r (step w op).2.1 (step w op).2.2) ∨
    ((∃ e, (step w op).1 = .error e) ∧ (step w op).2 = w) ∨
    (∃ l : Ledger, l.Wf store.chainId ∧ l.Rooted ∧ withStore store w.2 none = .ok (holding store l) ∧
      (step w op).2 = (holding store l, w.2)) := by
  cases op with
  | seed allocations fault =>
    exact .inl ⟨_, rfl, seedAccounts_effect w.1 w.2 allocations fault h.pool h.height⟩
  | submit tx now fault => exact .inl ⟨_, rfl, submitTransaction_effect w.1 w.2 tx now fault h.pool⟩
  | includeTx txHash now fault => exact .inl ⟨_, rfl, sealNextBlock_effect w.1 w.2 txHash now fault h.pool⟩
  | reopen fault =>
    right
    cases hopen : withStore w.1.store w.2 fault with
    | error e => exact .inl ⟨⟨_, by rw [step, hopen]⟩, by rw [step, hopen]⟩
    | ok s =>
      rw [h.store_eq] at hopen
      obtain ⟨l, hwf, hrooted, rfl⟩ := withStore_ok h.stored hopen
      refine .inr ⟨l, hwf, hrooted, withStore_without_fault hopen, ?_⟩
      rw [step, h.store_eq, hopen]

theorem Sane.of_effect {store : LedgerStore} {New : Ledger → Prop} {s s' : RpcState} {d d' : Disk}
    {r : Except RpcError Unit} (h : Sane store (s, d))
    (hnew : ∀ l, New l → Ledger.Next s.chainId s.ledger l) (heffect : CallEffect New s d r s' d') :
    Sane store (s', d') := by
  have hchain : s.chainId = store.chainId := h.chain
  cases heffect with
  | refused pool => exact ⟨h.store_eq, h.chain, pool, h.height, h.wf, h.stored⟩
  | failed pool next attempted =>
    refine ⟨h.store_eq, h.chain, pool, h.height, h.wf, ?_⟩
    have hnext := hnew _ next
    rw [hchain] at hnext attempted
    rcases attempted with hold | ⟨hsize, hfile⟩
    · intro f hf
      exact h.stored f (hold.symm.trans hf)
    · intro f hf
      rw [hfile] at hf
      cases hf
      exact ⟨_, h.wf.next hnext, hsize, rfl⟩
  | committed pool next written =>
    have hnext := hnew _ next
    rw [hchain] at hnext written
    refine ⟨h.store_eq, h.chain, pool, rfl, h.wf.next hnext, ?_⟩
    rcases written with ⟨-, rfl⟩ | ⟨hsize, rfl⟩
    · exact h.stored
    · intro f hf
      cases hf
      exact ⟨_, h.wf.next hnext, hsize, rfl⟩

/-- **Every call keeps a node sane.** -/
theorem Sane.step {store : LedgerStore} {w : RpcState × Disk} (h : Sane store w) (op : RpcOp) :
    Sane store (step w op).2 := by
  rcases step_cases h op with ⟨r, -, heffect⟩ | ⟨-, hsame⟩ | ⟨l, hwf, -, -, hopen⟩
  · exact h.of_effect (fun l hl => Produces.next hl) heffect
  · rw [hsame]
    exact h
  · rw [hopen]
    exact ⟨rfl, rfl, poolReady_default, rfl, hwf, h.stored⟩

/-- Every run from an empty store is sane throughout. -/
theorem sane_run (store : LedgerStore) (ops : List RpcOp) :
    Sane store (final RpcState.step (fresh store, emptyDisk) ops) :=
  final_invariant RpcState.step (Sane store) (fun _ op hw => hw.step op) (sane_fresh store) ops

/-! ## A small run -/

section Sample

def alice : Address := Vector.replicate addressSize 1
def bob : Address := Vector.replicate addressSize 2

/-- Alice pays Bob 5. -/
def payment : Transaction :=
  ⟨.transfer, 0, alice, some bob, 5, 1, 21000, [], 1, TransactionSignature.empty⟩

def durableStore : LedgerStore := ⟨some (LedgerPath.ofDir "data"), 1, chainId_one_ne⟩

/-- Alice is funded and pays Bob. -/
def payingOps : List RpcOp := [.seed [(alice, 100000)] none, .submit payment 7 none]

end Sample

/-! ## No replay -/

/-- **No replay and consecutive nonces.** Along every run of state operations from nonces 0 each
sender's applied transactions carry the nonces 0, 1, 2, … and no transaction is applied twice; and no
transaction hash is in two blocks of a node that started from an empty store. -/
theorem replay_free :
    (∀ s : State, (∀ a, s.nonce a = 0) → ∀ ops : List State.StateOp,
      (∀ a, State.noncesOf a (State.applied s ops) =
        List.range (State.noncesOf a (State.applied s ops)).length) ∧ (State.applied s ops).Nodup) ∧
    (∀ (store : LedgerStore) (ops : List RpcOp),
      CollisionFree (hashedBytes (final step (fresh store, emptyDisk) ops).1.blocks) →
      ((blockTxs (final step (fresh store, emptyDisk) ops).1.blocks).map Transaction.hash).Nodup) := by
  constructor
  · intro s hzero ops
    have hrange : ∀ a, ∃ k, State.noncesOf a (State.applied s ops) = List.range k := by
      intro a
      obtain ⟨k, hk⟩ := State.noncesOf_applied s ops a
      rw [hzero a] at hk
      exact ⟨k, hk.trans (List.range_eq_range' ..).symm⟩
    constructor
    · intro a
      obtain ⟨k, hk⟩ := hrange a
      rw [hk, List.length_range]
    · apply State.nodup_of_noncesOf
      intro a
      obtain ⟨k, hk⟩ := hrange a
      rw [hk]
      exact List.nodup_range
  · intro store ops hcf
    exact (sane_run store ops).wf.txHashes_nodup hcf

end

section
open scoped Concrete

/-- One block after Alice's payment, and a second submission of it changes nothing. -/
theorem replay_free_payment :
    (final step (fresh durableStore, emptyDisk) (payingOps ++ [.submit payment 8 none])).1.blocks.length = 1 ∧
    ((blockTxs (final step (fresh durableStore, emptyDisk) (payingOps ++ [.submit payment 8 none])).1.blocks).map
      Transaction.hash).Nodup ∧
    (State.applied (State.withChainId 1) [.setBalance alice 100000, .applyTransaction payment,
      .applyTransaction payment]).Nodup := by
  refine ⟨by decide +kernel, replay_free.2 durableStore _ (by decide +kernel), ?_⟩
  exact (replay_free.1 (State.withChainId 1) (fun a => rfl) _).2

end

section
variable [Blake3]

/-! ## Seeding first, then blocks -/

/-- The calls that produce blocks. -/
inductive CommitOp where
  | submit (tx : Transaction) (now : Timestamp) (fault : Option Fault)
  | includeTx (txHash : Hash) (now : Timestamp) (fault : Option Fault)

def CommitOp.toOp : CommitOp → RpcOp
  | .submit tx now fault => .submit tx now fault
  | .includeTx txHash now fault => .includeTx txHash now fault

/-- A call of `seed_accounts`. -/
structure SeedOp where
  allocations : List (Address × Amount)
  fault : Option Fault

def SeedOp.toOp (op : SeedOp) : RpcOp := .seed op.allocations op.fault

/-- The node after a run of seeding calls on an empty store. -/
def seededRun (store : LedgerStore) (seeds : List SeedOp) : RpcState × Disk :=
  final step (fresh store, emptyDisk) (seeds.map SeedOp.toOp)

/-- The node after seeding and then producing blocks. -/
def producerRun (store : LedgerStore) (seeds : List SeedOp) (calls : List CommitOp) : RpcState × Disk :=
  final step (seededRun store seeds) (calls.map CommitOp.toOp)

theorem seededRun_spec (store : LedgerStore) (seeds : List SeedOp) :
    Sane store (seededRun store seeds) ∧ (seededRun store seeds).1.blocks = [] := by
  unfold seededRun
  rw [final_map]
  refine final_invariant _ (fun w => Sane store w ∧ w.1.blocks = []) ?_ ⟨sane_fresh store, rfl⟩ seeds
  rintro w op ⟨hsane, hblocks⟩
  refine ⟨hsane.step op.toOp, ?_⟩
  have heffect := seedAccounts_effect w.1 w.2 op.allocations op.fault hsane.pool hsane.height
  rcases heffect.ledger_cases with hsame | ⟨-, hseeded⟩
  · exact (congrArg Ledger.blocks hsame).trans hblocks
  · exact (congrArg Ledger.blocks hseeded).trans hblocks

/-- A call that produces blocks leaves the ledger alone or extends it. -/
theorem step_commit {store : LedgerStore} {w : RpcState × Disk} (h : Sane store w) (op : CommitOp) :
    (step w op.toOp).2.1.ledger = w.1.ledger ∨
      Ledger.Extends w.1.chainId w.1.ledger (step w op.toOp).2.1.ledger := by
  cases op with
  | submit tx now fault =>
    exact (submitTransaction_effect w.1 w.2 tx now fault h.pool).ledger_cases.imp_right And.right
  | includeTx txHash now fault =>
    exact (sealNextBlock_effect w.1 w.2 txHash now fault h.pool).ledger_cases.imp_right And.right

/-- The blocks of a producer run execute on the seeded state. -/
theorem producerRun_spec (store : LedgerStore) (seeds : List SeedOp) (calls : List CommitOp) :
    Sane store (producerRun store seeds calls) ∧
    Executes (seededRun store seeds).1.state (producerRun store seeds calls).1.ledger.blocks
      (producerRun store seeds calls).1.ledger.state := by
  obtain ⟨hsane, hblocks⟩ := seededRun_spec store seeds
  have hstart : Executes (seededRun store seeds).1.state (seededRun store seeds).1.ledger.blocks
      (seededRun store seeds).1.ledger.state := by
    rw [show (seededRun store seeds).1.ledger.blocks = [] from hblocks]
    rfl
  rw [producerRun, final_map]
  refine final_invariant _ (fun w => Sane store w ∧ Executes (seededRun store seeds).1.state w.1.ledger.blocks
    w.1.ledger.state) ?_ ⟨hsane, hstart⟩ calls
  rintro w op ⟨hw, hexec⟩
  refine ⟨hw.step op.toOp, ?_⟩
  rcases step_commit hw op with hsame | hext
  · rw [hsame]
    exact hexec
  · exact hext.executes hexec

/-- **The producer satisfies the validator.** After seeding an empty store and any calls that produce
blocks, failed ones included, the validator accepts the ledger, and the state is the seeded one with
the blocks executed on it, each to the root its header claims. -/
theorem producer_valid (store : LedgerStore) (seeds : List SeedOp) (calls : List CommitOp)
    (hcf : CollisionFree (hashedBytes (producerRun store seeds calls).1.blocks)) :
    validateChain (producerRun store seeds calls).1.blocks
      (orderedReceipts (producerRun store seeds calls).1.receipts) (producerRun store seeds calls).1.chainId
      (producerRun store seeds calls).1.state = .ok () ∧
    Executes (seededRun store seeds).1.state (producerRun store seeds calls).1.blocks
      (producerRun store seeds calls).1.state := by
  obtain ⟨hsane, hexec⟩ := producerRun_spec store seeds calls
  refine ⟨?_, hexec⟩
  rw [validateChain_ok_iff, hsane.chain]
  exact hsane.wf.validChain (fun last hlast => hexec.root_eq hlast) hcf

end

section
open scoped Concrete

/-- A paid block, and a call for a transaction that is not in the pool. -/
theorem producer_valid_payment :
    (producerRun durableStore [⟨[(alice, 100000)], none⟩]
      [.submit payment 7 none, .includeTx Hash.zero 8 none]).1.blocks.length = 1 ∧
    validateChain (producerRun durableStore [⟨[(alice, 100000)], none⟩]
      [.submit payment 7 none, .includeTx Hash.zero 8 none]).1.blocks
      (orderedReceipts (producerRun durableStore [⟨[(alice, 100000)], none⟩]
        [.submit payment 7 none, .includeTx Hash.zero 8 none]).1.receipts)
      (producerRun durableStore [⟨[(alice, 100000)], none⟩]
        [.submit payment 7 none, .includeTx Hash.zero 8 none]).1.chainId
      (producerRun durableStore [⟨[(alice, 100000)], none⟩]
        [.submit payment 7 none, .includeTx Hash.zero 8 none]).1.state = .ok () :=
  ⟨by decide +kernel, (producer_valid durableStore _ _ (by decide +kernel)).1⟩

end

section
variable [Blake3]

/-! ## Files that can be loaded -/

/-- The call does not put the state at odds with the newest block: a seeding call comes before the
first block, or changes nothing, or cannot complete its write because one of the file-system steps
fails or the ledger is too large. -/
def SeedsSafely (s : RpcState) : RpcOp → Prop
  | .seed allocations fault =>
    s.blocks = [] ∨ setBalances s.state allocations = s.state ∨ (∃ f, fault = some f ∧ f.step ≤ 7) ∨
      maxLedgerBytes < (encodeLedger ((s.ledger.seed allocations).snapshot s.chainId)).length
  | _ => True

/-- The file left by the call opens to the ledger and height the call left in memory. -/
def Restorable (store : LedgerStore) (c : Call (RpcState × Disk) RpcOp (Except OpError Unit)) : Prop :=
  ∃ s, withStore store c.after.2 none = .ok s ∧ s.state = c.after.1.state ∧ s.blocks = c.after.1.blocks ∧
    s.receipts = c.after.1.receipts ∧ s.blockHeight = c.after.1.blockHeight

/-- A ledger seeded before the first block, or to no effect, matches its newest header. -/
theorem rooted_seed {l : Ledger} (hl : l.Rooted) {allocations : List (Address × Amount)}
    (h : l.blocks = [] ∨ setBalances l.state allocations = l.state) : (l.seed allocations).Rooted := by
  rcases h with hnone | hsame
  · intro last hlast
    rw [show (l.seed allocations).blocks = [] from hnone] at hlast
    cases hlast
  · rw [Ledger.seed, hsame]
    exact hl

/-- The new ledger of a safe call that succeeded matches its newest header. -/
theorem Produces.rooted {w : RpcState × Disk} {path : LedgerPath} (hpath : w.1.store.path = some path) {op : RpcOp}
    {l : Ledger} (h : w.1.Produces op l) (hs : w.1.ledger.Rooted) (hsafe : w.1.SeedsSafely op)
    (hok : (step w op).1 = .ok ()) : l.Rooted := by
  cases op with
  | seed allocations fault =>
    cases (show l = w.1.ledger.seed allocations from h)
    have hdone : (w.1.seedAccounts w.2 allocations fault).1 = .ok () := by
      have hmapped : (w.1.seedAccounts w.2 allocations fault).1.mapError OpError.rpc = .ok () := hok
      cases hr : (w.1.seedAccounts w.2 allocations fault).1 with
      | error e =>
        rw [hr] at hmapped
        cases hmapped
      | ok u => rfl
    obtain ⟨hfault, hsize⟩ := not_fault_of_seedAccounts_ok hpath hdone
    rcases hsafe with hnone | hsame | ⟨f, hf, hstep⟩ | hbig
    · exact rooted_seed hs (.inl hnone)
    · exact rooted_seed hs (.inr hsame)
    · exact absurd (hfault f hf) (Nat.not_lt.mpr hstep)
    · exact absurd hbig (Nat.not_lt.mpr hsize)
  | submit tx now fault => exact Ledger.Extends.rooted h
  | includeTx txHash now fault => exact Ledger.Extends.rooted h
  | reopen fault => exact h.elim

/-- A committed, matching ledger on a durable store can be opened again. -/
theorem restorable_of_written {store : LedgerStore} {path : LedgerPath} {l : Ledger} {d d' : Disk}
    (hpath : store.path = some path) (hwf : l.Wf store.chainId) (hroot : l.Rooted)
    (hcf : CollisionFree (hashedBytes l.blocks)) (hw : Written store (l.snapshot store.chainId) d d') :
    withStore store d' none = .ok (holding store l) := by
  rcases hw with ⟨hnone, -⟩ | ⟨hsize, rfl⟩
  · rw [hpath] at hnone
    cases hnone
  · exact (withStore_written hpath hwf hsize rfl).mpr ⟨hwf.validChain hroot hcf, rfl⟩

/-- One safe call on a node that matches its newest header: it still does, and if the call succeeds
its file can be loaded. -/
theorem step_restorable {store : LedgerStore} {path : LedgerPath} (hpath : store.path = some path)
    {w : RpcState × Disk} (h : Sane store w) (hroot : w.1.ledger.Rooted) (op : RpcOp)
    (hsafe : w.1.SeedsSafely op)
    (hcf : CollisionFree (hashedBytes (step w op).2.1.blocks)) :
    (step w op).2.1.ledger.Rooted ∧
      ((step w op).1 = .ok () → Restorable store ⟨w, op, (step w op).1, (step w op).2⟩) := by
  rcases step_cases h op with ⟨r, hr, heffect⟩ | ⟨⟨e, he⟩, hsame⟩ | ⟨l, -, hrooted, hopen, hafter⟩
  · have hsane := h.step op
    have hnew : r = .ok () → ∀ l, w.1.Produces op l → l.Rooted := by
      rintro rfl l hl
      exact hl.rooted (by rw [h.store_eq]; exact hpath) hroot hsafe hr
    unfold Restorable
    rw [hr]
    revert heffect hcf hsane
    generalize (step w op).2 = w'
    obtain ⟨s', d'⟩ := w'
    intro hcf heffect hsane
    cases heffect with
    | refused pool => exact ⟨hroot, fun hok => by cases hok⟩
    | failed pool next attempted => exact ⟨hroot, fun hok => by cases hok⟩
    | @committed p l d' pool next written =>
      have hrooted := hnew rfl l next
      rw [show w.1.chainId = store.chainId from h.chain, h.store_eq] at written
      exact ⟨hrooted, fun _ => ⟨holding store l, restorable_of_written hpath hsane.wf hrooted hcf written,
        rfl, rfl, rfl, rfl⟩⟩
  · rw [hsame]
    refine ⟨hroot, fun hok => ?_⟩
    rw [he] at hok
    cases hok
  · rw [hafter]
    exact ⟨hrooted, fun _ => ⟨holding store l, hopen, rfl, rfl, rfl, rfl⟩⟩

/-- **What is written can be loaded**, along every run on a durable store whose seeding calls come
before the first block, change nothing or cannot complete their write. -/
theorem written_restorable (store : LedgerStore) (path : LedgerPath) (hpath : store.path = some path)
    (ops : List RpcOp)
    (hsafe : ∀ c ∈ trace step (fresh store, emptyDisk) ops, c.before.1.SeedsSafely c.input)
    (hcf : ∀ c ∈ trace step (fresh store, emptyDisk) ops, CollisionFree (hashedBytes c.after.1.blocks)) :
    ∀ c ∈ trace step (fresh store, emptyDisk) ops, c.result = .ok () → Restorable store c := by
  have hinv := trace_invariant_of step (fun w => Sane store w ∧ w.1.ledger.Rooted)
    (fun c => c.before.1.SeedsSafely c.input ∧ CollisionFree (hashedBytes c.after.1.blocks))
    (fun w op hw hc => ⟨hw.1.step op, (step_restorable hpath hw.1 hw.2 op hc.1 hc.2).1⟩)
    ⟨sane_fresh store, fun last hlast => by cases hlast⟩ ops fun c hc => ⟨hsafe c hc, hcf c hc⟩
  intro c hc hok
  obtain ⟨hsane, hroot⟩ := hinv c hc
  have hstep := trace_step step _ ops c hc
  have hcall : c = ⟨c.before, c.input, (step c.before c.input).1, (step c.before c.input).2⟩ := by
    rw [hstep]
  have hafter := hcf c hc
  rw [hcall] at hafter hok ⊢
  exact (step_restorable hpath hsane hroot c.input (hsafe c hc) hafter).2 hok

/-- A run whose last call succeeds and leaves a file that is refused. -/
theorem not_restorable_last {store : LedgerStore} {w : RpcState × Disk} {ops : List RpcOp} {op : RpcOp}
    {e : StorageError} (hok : (step (final step w ops) op).1 = .ok ())
    (hrefused : (withStore store (final step w (ops ++ [op])).2 none).map (fun _ => ()) = .error e) :
    ¬ ∀ c ∈ trace step w (ops ++ [op]), c.result = .ok () → Restorable store c := by
  intro hall
  obtain ⟨s, hs, -⟩ := hall _ (last_mem_trace step w ops op) hok
  rw [final_append, final, final, hs] at hrefused
  cases hrefused

end

section
open scoped Concrete

theorem written_restorable_payment :
    (∀ c ∈ trace step (fresh durableStore, emptyDisk) payingOps, c.result = .ok ()) ∧
    ∀ c ∈ trace step (fresh durableStore, emptyDisk) payingOps, c.result = .ok () → Restorable durableStore c := by
  refine ⟨by decide +kernel, written_restorable durableStore _ rfl payingOps ?_ (by decide +kernel)⟩
  refine List.forall_mem_cons.mpr ⟨.inl rfl, List.forall_mem_cons.mpr ⟨trivial, ?_⟩⟩
  intro c hc
  cases hc

/-- Funding Bob after the payment is reported as done, and the file it leaves is refused. -/
theorem reseeded_unloadable :
    ¬ (∀ c ∈ trace step (fresh durableStore, emptyDisk) (payingOps ++ [.seed [(bob, 1)] none]),
      c.result = .ok () → Restorable durableStore c) ∧
    (withStore durableStore (final step (fresh durableStore, emptyDisk)
      (payingOps ++ [.seed [(bob, 1)] none])).2 none).map (fun _ => ()) =
        .error (.invalid "state does not match the newest block state root") := by
  have hrefused : (withStore durableStore (final step (fresh durableStore, emptyDisk)
      (payingOps ++ [.seed [(bob, 1)] none])).2 none).map (fun _ => ()) =
        .error (.invalid "state does not match the newest block state root") := by decide +kernel
  exact ⟨not_restorable_last (by decide +kernel) hrefused, hrefused⟩

end

end RpcState
end Subhost
