import Subhost.Rpc.Runs
/-!
# Writes that fail (subhost-storage/src/lib.rs:195-217, subhost-rpc/src/lib.rs:238-244, 330-338)

The caller of `persist` takes an error for "nothing was committed": memory keeps the old ledger and the
pool is restored. Opening and syncing the directory come after the rename, so an error there is reported
with the new file already in place: the node goes on without the block and a restart shows it.

* `content_after_error`: a failed write leaves the content of the file exactly if it is `Harmless`.
* `failed_write_unseen`: without harmful failures the file and memory never part, so the block of a failed
  submission is in neither; a harmful one always brings the block back on a restart.
-/
namespace Subhost
open Uint Bincode Run

/-- The content of the ledger file, or its absence. -/
def Disk.content (d : Disk) : Option Bytes := d.ledger.map File.data

/-- The step that fails comes after the rename: the directory is opened or synced. -/
def LateFault (fault : Option Fault) : Prop := ∃ f, fault = some f ∧ (f.step = 6 ∨ f.step = 7)

/-- The failure the write of a call meets. -/
def RpcOp.fault : RpcOp → Option Fault
  | .seed _ fault | .submit _ _ fault | .includeTx _ _ fault => fault
  | .reopen _ => none

section
variable [Blake3]

/-- The write does not fail after the rename, or does not reach it, or renames the same bytes. -/
def LedgerStore.Harmless (store : LedgerStore) (snapshot : LedgerSnapshot) (fault : Option Fault) (d : Disk) : Prop :=
  LateFault fault → snapshot.chainId ≠ store.chainId ∨ snapshot.state.chainId ≠ store.chainId ∨
    maxLedgerBytes < (encodeLedger snapshot).length ∨ d.content = some (encodeLedger snapshot)

/-! ## One write -/

/-- **A failed write leaves the content of the file** exactly if it is harmless. -/
theorem LedgerStore.content_after_error {store : LedgerStore} {snapshot : LedgerSnapshot} {fault : Option Fault}
    {d d' : Disk} {e : StorageError} (h : store.persist snapshot fault d = (.error e, d')) :
    d'.content = d.content ↔ store.Harmless snapshot fault d := by
  rcases persist_error h with ⟨rfl, hwhy⟩ | ⟨hchain, hstate, hsize, f, rfl, hlo, hhi, hfile⟩
  · refine ⟨?_, fun _ => rfl⟩
    rintro - ⟨f, rfl, hlate⟩
    rcases hwhy with hchain | hstate | hsize | ⟨g, hg, hzero⟩
    · exact .inl hchain
    · exact .inr (.inl hstate)
    · exact .inr (.inr (.inl hsize))
    · cases hg
      omega
  · by_cases hearly : f.step ≤ 5
    · rw [if_pos hearly] at hfile
      refine ⟨?_, fun _ => congrArg (Option.map File.data) hfile⟩
      rintro - ⟨g, hg, hlate⟩
      cases hg
      omega
    · rw [if_neg hearly] at hfile
      have hnew : d'.content = some (encodeLedger snapshot) := congrArg (Option.map File.data) hfile
      rw [hnew]
      constructor
      · intro hsame _
        exact .inr (.inr (.inr hsame.symm))
      · intro hharmless
        rcases hharmless ⟨f, rfl, by omega⟩ with hne | hne | hlarge | hsame
        · exact absurd hchain hne
        · exact absurd hstate hne
        · exact absurd hlarge (Nat.not_lt.mpr hsize)
        · exact hsame.symm

/-- A write that meets a harmful failure reports an error, and the file is the new one. -/
theorem LedgerStore.persist_harmful {store : LedgerStore} {path : LedgerPath} (hpath : store.path = some path)
    {snapshot : LedgerSnapshot} {fault : Option Fault} {d : Disk} (h : ¬ store.Harmless snapshot fault d) :
    ∃ e d', store.persist snapshot fault d = (.error e, d') ∧
      (encodeLedger snapshot).length ≤ maxLedgerBytes ∧ d'.ledger = some ⟨encodeLedger snapshot, true⟩ := by
  unfold Harmless at h
  push Not at h
  obtain ⟨⟨f, rfl, hlate⟩, hchain, hstate, hsize, -⟩ := h
  rcases hp : store.persist snapshot (some f) d with ⟨e | u, d'⟩
  · refine ⟨e, d', rfl, hsize, ?_⟩
    rcases persist_error hp with ⟨-, hne | hne | hlarge | ⟨g, hg, hzero⟩⟩ | ⟨-, -, -, g, hg, -, -, hfile⟩
    · exact absurd hchain hne
    · exact absurd hstate hne
    · exact absurd hlarge (Nat.not_lt.mpr hsize)
    · cases hg
      omega
    · cases hg
      rwa [if_neg (by omega)] at hfile
  · have hnever := (not_fault_of_persist_ok hpath hp).1 f rfl
    omega

namespace RpcState

/-! ## One call -/

/-- The ledger a call tries to write. -/
def target (s : RpcState) : RpcOp → Option Ledger
  | .seed allocations _ => some (s.ledger.seed allocations)
  | .submit tx now _ => s.submitTarget tx now
  | .includeTx txHash now _ => s.sealTarget txHash now
  | .reopen _ => none

/-- The write of the call, if it makes one, does not fail after it replaced the file by other bytes. -/
def HarmlessCall (w : RpcState × Disk) (op : RpcOp) : Prop :=
  ∀ l, w.1.target op = some l → w.1.store.Harmless (l.snapshot w.1.chainId) op.fault w.2

theorem target_produces {s : RpcState} {op : RpcOp} {l : Ledger} (hpool : PoolReady s.mempool)
    (h : s.target op = some l) : s.Produces op l := by
  cases op with
  | seed allocations fault => exact (Option.some.inj h).symm
  | submit tx now fault => exact submitTarget_extends hpool h
  | includeTx txHash now fault => exact sealTarget_extends hpool h
  | reopen fault => cases h

/-- Everything one call of a run does to the file and the ledger in memory. -/
theorem step_tries {store : LedgerStore} {w : RpcState × Disk} (h : Sane store w) (op : RpcOp) :
    (∃ r, (step w op).1 = r.mapError .rpc ∧
      Tries w.1 w.2 (w.1.target op) op.fault r (step w op).2.1 (step w op).2.2) ∨
    (step w op).2 = w ∨
    ∃ fault s, withStore w.1.store w.2 fault = .ok s ∧ (step w op).2 = (s, w.2) := by
  cases op with
  | seed allocations fault => exact .inl ⟨_, rfl, seedAccounts_tries w.1 w.2 allocations fault h.pool h.height⟩
  | submit tx now fault => exact .inl ⟨_, rfl, submitTransaction_tries w.1 w.2 tx now fault h.pool⟩
  | includeTx txHash now fault => exact .inl ⟨_, rfl, sealNextBlock_tries w.1 w.2 txHash now fault h.pool⟩
  | reopen fault =>
    right
    cases hopen : withStore w.1.store w.2 fault with
    | error e =>
      rw [step, hopen]
      exact .inl rfl
    | ok s => exact .inr ⟨fault, s, hopen, by rw [step, hopen]⟩

/-! ## Restarts -/

/-- Whenever the file opens, it shows the blocks in memory. -/
def Shows (store : LedgerStore) (w : RpcState × Disk) : Prop :=
  ∀ fault s, withStore store w.2 fault = .ok s → s.blocks = w.1.blocks

/-- Opening a store looks at the content of the file only. -/
theorem withStore_congr (store : LedgerStore) {d d' : Disk} (h : d'.content = d.content) (fault : Option String) :
    withStore store d' fault = withStore store d fault := by
  obtain ⟨file, temp⟩ := d
  obtain ⟨file', temp'⟩ := d'
  have hload : store.load ⟨file', temp'⟩ fault = store.load ⟨file, temp⟩ fault := by
    unfold LedgerStore.load
    cases file with
    | none =>
      cases file' with
      | none => rfl
      | some f' => cases h
    | some f =>
      cases file' with
      | none => cases h
      | some f' =>
        have hdata : f'.data = f.data := Option.some.inj h
        obtain ⟨data, synced⟩ := f
        obtain ⟨data', synced'⟩ := f'
        cases hdata
        cases store.path with
        | none => rfl
        | some path => rfl
  unfold withStore
  rw [hload]

theorem shows_fresh (store : LedgerStore) : Shows store (fresh store, emptyDisk) := by
  intro fault s h
  rw [withStore_empty store rfl] at h
  cases h
  rfl

/-- **Every call without a harmful failure** keeps the file and memory together. -/
theorem Shows.step {store : LedgerStore} {path : LedgerPath} (hpath : store.path = some path)
    {w : RpcState × Disk} (hsane : Sane store w) (h : Shows store w) {op : RpcOp} (hop : HarmlessCall w op) :
    Shows store (step w op).2 := by
  rcases step_tries hsane op with ⟨r, -, htries⟩ | hsame | ⟨readFault, s, hopen, hafter⟩
  · revert htries
    generalize (RpcState.step w op).2 = w'
    obtain ⟨s', d'⟩ := w'
    intro htries fault restarted hrestart
    cases htries with
    | idle pool no_target other => exact h fault restarted hrestart
    | failed pool target_eq write =>
      have hcontent := (LedgerStore.content_after_error write).mpr (hop _ target_eq)
      rw [withStore_congr store hcontent] at hrestart
      exact h fault restarted hrestart
    | @written l _ _ pool target_eq write =>
      have hnext := (target_produces hsane.pool target_eq).next
      rw [hsane.chain] at hnext write
      rw [hsane.store_eq] at write
      obtain ⟨-, -, ⟨hnone, -⟩ | ⟨hsize, rfl⟩⟩ := LedgerStore.persist_ok write
      · rw [hpath] at hnone
        cases hnone
      · obtain ⟨-, rfl⟩ := (withStore_written hpath (hsane.wf.next hnext) hsize rfl).mp
          (withStore_without_fault hrestart)
        rfl
  · rw [hsame]
    exact h
  · rw [hafter]
    intro fault restarted hrestart
    rw [hsane.store_eq] at hopen
    have hboth := (withStore_without_fault hrestart).symm.trans (withStore_without_fault hopen)
    exact congrArg RpcState.blocks (Except.ok.inj hboth)

/-- A block that extends a well-formed ledger is new: its height is. -/
theorem new_block {chainId : ChainId} {l l' : Ledger} (hwf : l'.Wf chainId) (h : Ledger.Extends chainId l l') :
    ∃ block, l'.blocks = l.blocks ++ [block] ∧ block ∉ l.blocks := by
  cases h with
  | sealed small gas applied next =>
    refine ⟨_, rfl, fun hmem => ?_⟩
    have hheights := heights_increase hwf.linked
    have hlt := (List.pairwise_append.mp hheights).2.2 _ hmem _ (List.mem_singleton_self _)
    exact lt_irrefl _ hlt

/-! ## Runs -/

/-- Before every call of a run without harmful failures the file shows the blocks in memory. -/
theorem shows_run {store : LedgerStore} {path : LedgerPath} (hpath : store.path = some path) (ops : List RpcOp)
    (h : ∀ c ∈ trace step (fresh store, emptyDisk) ops, HarmlessCall c.before c.input) :
    ∀ c ∈ trace step (fresh store, emptyDisk) ops, Sane store c.before ∧ Shows store c.before := by
  refine trace_invariant_of step (fun w => Sane store w ∧ Shows store w) (fun c => HarmlessCall c.before c.input) ?_
    ⟨sane_fresh store, shows_fresh store⟩ ops h
  rintro w op ⟨hsane, hshows⟩ hop
  exact ⟨hsane.step op, hshows.step hpath hsane hop⟩

/-- A submission that reports a persistence error got as far as writing. -/
theorem target_of_submit_error {w : RpcState × Disk} (hpool : PoolReady w.1.mempool) {tx : Transaction}
    {now : Timestamp} {fault : Option Fault} {message : String}
    (h : (step w (.submit tx now fault)).1 = .error (.rpc (.persistence message))) :
    ∃ l, w.1.submitTarget tx now = some l := by
  have htries := submitTransaction_tries w.1 w.2 tx now fault hpool
  change ((w.1.submitTransaction w.2 tx now fault).1.map fun _ => ()).mapError OpError.rpc = _ at h
  generalize (w.1.submitTransaction w.2 tx now fault).1.map (fun _ => ()) = r at htries h
  generalize (w.1.submitTransaction w.2 tx now fault).2 = after at htries
  obtain ⟨s', d'⟩ := after
  cases htries with
  | idle pool no_target other =>
    cases h
    exact absurd rfl (other message)
  | failed pool target_eq write => exact ⟨_, target_eq⟩
  | written pool target_eq write => exact ⟨_, target_eq⟩

/-- A submission that gets as far as writing answers what its write answered. -/
theorem submit_of_target {w : RpcState × Disk} (hpool : PoolReady w.1.mempool) {tx : Transaction} {now : Timestamp}
    {l : Ledger} (h : w.1.submitTarget tx now = some l) (fault : Option Fault) :
    (step w (.submit tx now fault)).1 = (w.1.store.persist (l.snapshot w.1.chainId) fault w.2).1.mapError
      (fun e => .rpc (.persistence e.display)) ∧
    (step w (.submit tx now fault)).2.2 = (w.1.store.persist (l.snapshot w.1.chainId) fault w.2).2 := by
  have htries := submitTransaction_tries w.1 w.2 tx now fault hpool
  change ((w.1.submitTransaction w.2 tx now fault).1.map fun _ => ()).mapError OpError.rpc = _ ∧
    (w.1.submitTransaction w.2 tx now fault).2.2 = _
  generalize (w.1.submitTransaction w.2 tx now fault).1.map (fun _ => ()) = r at htries ⊢
  generalize (w.1.submitTransaction w.2 tx now fault).2 = after at htries ⊢
  obtain ⟨s', d'⟩ := after
  rw [h] at htries
  cases htries with
  | idle pool no_target other => cases no_target
  | failed pool target_eq write =>
    cases target_eq
    rw [write]
    exact ⟨rfl, rfl⟩
  | written pool target_eq write =>
    cases target_eq
    rw [write]
    exact ⟨rfl, rfl⟩

/-- The block of a submission that failed harmlessly is not shown by a restart. -/
theorem submit_unseen {store : LedgerStore} {w : RpcState × Disk} (hsane : Sane store w) (hshows : Shows store w)
    {tx : Transaction} {now : Timestamp} {fault : Option Fault} {message : String}
    (hop : HarmlessCall w (.submit tx now fault))
    (h : (step w (.submit tx now fault)).1 = .error (.rpc (.persistence message))) :
    (step w (.submit tx now fault)).2.2.content = w.2.content ∧
    ∃ l block, w.1.submitTarget tx now = some l ∧ l.blocks = w.1.blocks ++ [block] ∧
      ∀ readFault s, withStore store (step w (.submit tx now fault)).2.2 readFault = .ok s → block ∉ s.blocks := by
  obtain ⟨l, htarget⟩ := target_of_submit_error hsane.pool h
  obtain ⟨hreply, hdisk⟩ := submit_of_target hsane.pool htarget fault
  have hcontent : (step w (.submit tx now fault)).2.2.content = w.2.content := by
    rw [hdisk]
    rw [hreply] at h
    rcases hwrite : w.1.store.persist (l.snapshot w.1.chainId) fault w.2 with ⟨e | u, d'⟩
    · exact (LedgerStore.content_after_error hwrite).mpr (hop l htarget)
    · rw [hwrite] at h
      cases h
  have hextends := submitTarget_extends hsane.pool htarget
  rw [hsane.chain] at hextends
  obtain ⟨block, hblocks, hnew⟩ := new_block (hsane.wf.next (.sealed hextends)) hextends
  refine ⟨hcontent, l, block, htarget, hblocks, ?_⟩
  intro readFault s hrestart
  rw [withStore_congr store hcontent] at hrestart
  rw [hshows readFault s hrestart]
  exact hnew

/-- The block of a submission that failed harmfully is shown by a restart. -/
theorem submit_seen {store : LedgerStore} {path : LedgerPath} (hpath : store.path = some path) {w : RpcState × Disk}
    (hsane : Sane store w) {tx : Transaction} {now : Timestamp} {fault : Option Fault} {l : Ledger}
    (htarget : w.1.submitTarget tx now = some l)
    (hharm : ¬ w.1.store.Harmless (l.snapshot w.1.chainId) fault w.2) (hcf : CollisionFree (hashedBytes l.blocks)) :
    (∃ message, (step w (.submit tx now fault)).1 = .error (.rpc (.persistence message))) ∧
    withStore store (step w (.submit tx now fault)).2.2 none = .ok (holding store l) := by
  obtain ⟨hreply, hdisk⟩ := submit_of_target hsane.pool htarget fault
  have hextends := submitTarget_extends hsane.pool htarget
  rw [hsane.store_eq, hsane.chain] at hharm hreply hdisk
  rw [hsane.chain] at hextends
  obtain ⟨e, d', hwrite, hsize, hfile⟩ := LedgerStore.persist_harmful hpath hharm
  rw [hwrite] at hreply hdisk
  rw [hreply, hdisk]
  have hwf := hsane.wf.next (.sealed hextends)
  exact ⟨⟨_, rfl⟩, (withStore_written hpath hwf hsize hfile).mpr ⟨hwf.validChain hextends.rooted hcf, rfl⟩⟩

/-- **A failed write leaves the file alone, unless it fails after the rename.**

A failed `persist` leaves the content of the file exactly if it is harmless. In every run without harmful
failures a submission that reports a persistence error leaves the file as it was, and no restart shows its
block. A submission whose write fails harmfully, in any run, reports a persistence error, and a restart
shows its block. -/
theorem failed_write_unseen (store : LedgerStore) (path : LedgerPath) (hpath : store.path = some path) :
    (∀ (snapshot : LedgerSnapshot) (fault : Option Fault) (d d' : Disk) (e : StorageError),
      store.persist snapshot fault d = (.error e, d') →
      (d'.content = d.content ↔ store.Harmless snapshot fault d)) ∧
    ∀ ops : List RpcOp,
      ((∀ c ∈ trace step (fresh store, emptyDisk) ops, HarmlessCall c.before c.input) →
        ∀ c ∈ trace step (fresh store, emptyDisk) ops, ∀ tx now fault message, c.input = .submit tx now fault →
          c.result = .error (.rpc (.persistence message)) →
          c.after.2.content = c.before.2.content ∧
          ∃ l block, c.before.1.submitTarget tx now = some l ∧ l.blocks = c.before.1.blocks ++ [block] ∧
            ∀ readFault s, withStore store c.after.2 readFault = .ok s → block ∉ s.blocks) ∧
      (∀ c ∈ trace step (fresh store, emptyDisk) ops, ∀ tx now fault l, c.input = .submit tx now fault →
        c.before.1.submitTarget tx now = some l →
        ¬ c.before.1.store.Harmless (l.snapshot c.before.1.chainId) fault c.before.2 →
        CollisionFree (hashedBytes l.blocks) →
        (∃ message, c.result = .error (.rpc (.persistence message))) ∧
        withStore store c.after.2 none = .ok (holding store l)) := by
  refine ⟨fun snapshot fault d d' e h => LedgerStore.content_after_error h, fun ops => ⟨?_, ?_⟩⟩
  · intro hharmless c hc tx now fault message hinput hresult
    obtain ⟨hsane, hshows⟩ := shows_run hpath ops hharmless c hc
    have hop := hharmless c hc
    have hstep := trace_step step _ ops c hc
    rw [hinput] at hop hstep
    have hreply : (step c.before (.submit tx now fault)).1 = .error (.rpc (.persistence message)) := by
      rw [hstep]
      exact hresult
    have hunseen := submit_unseen hsane hshows hop hreply
    rw [hstep] at hunseen
    exact hunseen
  · intro c hc tx now fault l hinput htarget hharm hcf
    have hsane := trace_invariant step (Sane store) (fun _ op hw => hw.step op) (sane_fresh store) ops c hc
    have hstep := trace_step step _ ops c hc
    rw [hinput] at hstep
    have hseen := submit_seen hpath hsane htarget hharm hcf
    rw [hstep] at hseen
    exact hseen

omit [Blake3] in
theorem not_lateFault {f : Fault} (h : f.step ≤ 5) : ¬ LateFault (some f) := by
  rintro ⟨g, hg, hlate⟩
  cases hg
  omega

end RpcState
end

namespace RpcState
section
open scoped Concrete

/-- An error of step `n`. -/
def ioError (n : Nat) : Fault := ⟨n, "Input/output error (os error 5)"⟩

/-- Alice is funded. -/
def fundingOps : List RpcOp := [.seed [(alice, 100000)] none]

def funded : RpcState × Disk := final step (fresh durableStore, emptyDisk) fundingOps

/-- The ledger the payment leads to. -/
def paid : Ledger := (funded.1.submitTarget payment 7).getD funded.1.ledger

theorem submitTarget_funded : funded.1.submitTarget payment 7 = some paid := by
  have hsome : (funded.1.submitTarget payment 7).isSome := by decide +kernel
  obtain ⟨l, hl⟩ := Option.isSome_iff_exists.mp hsome
  rw [paid, hl]
  rfl

/-- The error a submission reports for a failed step on the file. -/
def fileError : StorageError := .io "data/node-state.bin" "Input/output error (os error 5)"

/-- Alice pays Bob. If the file cannot be synced nothing is seen of the block; if the directory cannot, a
restart shows it. -/
theorem failed_write_unseen_payment :
    (durableStore.persist (funded.1.ledger.snapshot 1) (some (ioError 3)) funded.2 =
        (.error fileError, ⟨funded.2.ledger, none⟩) ∧
      (Disk.content ⟨funded.2.ledger, none⟩ = funded.2.content ↔
        durableStore.Harmless (funded.1.ledger.snapshot 1) (some (ioError 3)) funded.2)) ∧
    ((step funded (.submit payment 7 (some (ioError 3)))).2.2.content = funded.2.content ∧
      ∃ l block, funded.1.submitTarget payment 7 = some l ∧ l.blocks = funded.1.blocks ++ [block] ∧
        ∀ readFault s, withStore durableStore (step funded (.submit payment 7 (some (ioError 3)))).2.2 readFault =
          .ok s → block ∉ s.blocks) ∧
    withStore durableStore (step funded (.submit payment 7 (some (ioError 7)))).2.2 none =
      .ok (holding durableStore paid) := by
  -- the payment as the last call of a run
  have hlast : ∀ n, (⟨funded, .submit payment 7 (some (ioError n)),
      (step funded (.submit payment 7 (some (ioError n)))).1, (step funded (.submit payment 7 (some (ioError n)))).2⟩ : Call _ _ _) ∈
      trace step (fresh durableStore, emptyDisk) (fundingOps ++ [.submit payment 7 (some (ioError n))]) :=
    fun n => last_mem_trace step (fresh durableStore, emptyDisk) fundingOps _
  have hwrite : durableStore.persist (funded.1.ledger.snapshot 1) (some (ioError 3)) funded.2 =
      (.error fileError, ⟨funded.2.ledger, none⟩) := by decide +kernel
  have hreply : (step funded (.submit payment 7 (some (ioError 3)))).1 =
      .error (.rpc (.persistence fileError.display)) := by decide +kernel
  have hharmless : ∀ c ∈ trace step (fresh durableStore, emptyDisk)
      (fundingOps ++ [.submit payment 7 (some (ioError 3))]), HarmlessCall c.before c.input := by
    refine List.forall_mem_cons.mpr ⟨?_, List.forall_mem_cons.mpr ⟨?_, ?_⟩⟩
    · rintro l - ⟨f, hf, -⟩
      cases hf
    · exact fun l _ hlate => absurd hlate (not_lateFault (by decide))
    · intro c hc
      cases hc
  refine ⟨⟨hwrite, (failed_write_unseen durableStore _ rfl).1 _ _ _ _ _ hwrite⟩, ?_, ?_⟩
  · have hunseen := ((failed_write_unseen durableStore _ rfl).2
      (fundingOps ++ [.submit payment 7 (some (ioError 3))])).1 hharmless _ (hlast 3)
    dsimp only at hunseen
    exact hunseen payment 7 (some (ioError 3)) fileError.display rfl hreply
  · have hseen := ((failed_write_unseen durableStore _ rfl).2
      (fundingOps ++ [.submit payment 7 (some (ioError 7))])).2 _ (hlast 7)
    dsimp only at hseen
    refine (hseen payment 7 (some (ioError 7)) paid rfl submitTarget_funded ?_ (by decide +kernel)).2
    intro hharmless
    have hwritten : ¬ ((paid.snapshot funded.1.chainId).chainId ≠ funded.1.store.chainId ∨
        (paid.snapshot funded.1.chainId).state.chainId ≠ funded.1.store.chainId ∨
        maxLedgerBytes < (encodeLedger (paid.snapshot funded.1.chainId)).length ∨
        funded.2.content = some (encodeLedger (paid.snapshot funded.1.chainId))) := by decide +kernel
    exact hwritten (hharmless ⟨_, rfl, .inr rfl⟩)

/-- **The directory cannot be synced**: Alice's payment is refused with a persistence error and memory has no
block, but the file was replaced, and a restart shows the block. -/
theorem late_failure_shown :
    ∃ e d', durableStore.persist (funded.1.ledger.snapshot 1) (some (ioError 7)) emptyDisk = (.error e, d') ∧
      d'.content ≠ emptyDisk.content ∧
    (step funded (.submit payment 7 (some (ioError 7)))).1 = .error (.rpc (.persistence e.display)) ∧
    (step funded (.submit payment 7 (some (ioError 7)))).2.1.blocks = [] ∧
    (withStore durableStore (step funded (.submit payment 7 (some (ioError 7)))).2.2 none).map
      (fun s => s.blocks.map Block.transactions) = .ok [[payment]] := by
  refine ⟨.io "data" "Input/output error (os error 5)", ⟨some ⟨encodeLedger (funded.1.ledger.snapshot 1), true⟩, none⟩,
    ?_, ?_, ?_, ?_, ?_⟩
  all_goals decide +kernel

end
end RpcState
end Subhost
