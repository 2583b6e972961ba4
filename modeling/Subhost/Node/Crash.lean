import Subhost.Node.Bootstrap
/-!
# A node that crashes

The process runs `Node::bootstrap` and submissions; it may stop between any two file-system steps
of a write, or while idle, and then only the disk is left. A crash keeps data that was synced, may
turn unsynced data into anything, and leaves any temporary file behind; a rename happens as a whole and
is not undone.

`World` carries a log of the ledgers whose rename was reached, in order, with a mark on the one
that applied the genesis allocations. The log is not read by the node: it is what the disk is compared
with. `Inv` says that the ledger file is always the last entry, complete and synced, and that a running
node's memory is that entry too, so that nothing a restart reads can differ from it.

`bootstrap_recovers` is the result: every bootstrap succeeds with the last renamed ledger (before the
first one: the empty ledger with genesis applied), and genesis is applied once.
-/
namespace Subhost
open Uint Bincode Run

/-- What a crash makes of data that was not synced, and what it leaves of the temporary file. -/
structure Loss where
  data : Bytes
  temp : Option File

def Disk.crash (loss : Loss) (d : Disk) : Disk :=
  ⟨d.ledger.map fun f => if f.synced then f else ⟨loss.data, true⟩, loss.temp⟩

/-- A ledger whose rename was reached; `genesis` marks a write of the genesis allocations. -/
structure Commit where
  ledger : Ledger
  genesis : Bool

/-- Disk, process (`none` while it is down) and the log of renamed ledgers. -/
structure World where
  disk : Disk
  node : Option RpcState
  log : List Commit

/-- What happens to a node. `cut` is a crash during the call, after that many file-system steps. -/
inductive Event where
  | boot (cut : Option (Nat × Loss))
  | submit (tx : Transaction) (now : Timestamp) (cut : Option (Nat × Loss))
  | crash (loss : Loss)

/-- The log after some steps of a write. -/
def record (log : List Commit) (commit : Option Commit) (done : List FsOp) : List Commit :=
  if FsOp.rename ∈ done then log ++ commit.toList else log

def applySteps (steps : List FsOp) (d : Disk) : Disk := steps.foldl (fun d op => op.run d) d

namespace NodeSetup

section
variable [Blake3]

/-- The ledger a bootstrap writes: genesis, if there is no file and there is something to allocate. -/
def bootTarget (n : NodeSetup) (d : Disk) : Option Ledger :=
  if n.store.fileExists d = true ∨ n.allocations = [] then none else some n.genesisLedger

/-- A call that crashes after some of its steps. -/
def cutOff (w : World) (commit : Option Commit) (steps : List FsOp) (cut : Nat × Loss) : World :=
  ⟨(applySteps (steps.take cut.1) w.disk).crash cut.2, none, record w.log commit (steps.take cut.1)⟩

/-- One event. The result is that of a bootstrap that was not cut off. -/
def step (n : NodeSetup) (w : World) : Event → Option (Except NodeError RpcState) × World
  | .boot cut =>
    let target := n.bootTarget w.disk
    let steps := target.elim [] (RpcState.fresh n.store).writeSteps
    let commit := target.map fun l => ⟨l, true⟩
    match cut with
    | some cut => (none, cutOff w commit steps cut)
    | none =>
      let (r, d) := bootstrap n.config (some n.genesis) w.disk .none
      (some r, ⟨d, r.toOption, record w.log commit steps⟩)
  | .submit tx now cut =>
    match w.node with
    | none => (none, w)
    | some s =>
      let target := s.submitTarget tx now
      let steps := target.elim [] s.writeSteps
      let commit := target.map fun l => ⟨l, false⟩
      match cut with
      | some cut => (none, cutOff w commit steps cut)
      | none =>
        let (_, s', d) := s.submitTransaction w.disk tx now none
        (none, ⟨d, some s', record w.log commit steps⟩)
  | .crash loss => (none, ⟨w.disk.crash loss, none, w.log⟩)

/-- The ledger the log ends with. -/
def lastLedger (n : NodeSetup) (log : List Commit) : Ledger := (log.getLast?).elim n.genesisLedger Commit.ledger

/-- A ledger this node may write: well formed, the genesis balances with its blocks executed on
them, and within the size limit. -/
structure Writable (n : NodeSetup) (l : Ledger) : Prop where
  wf : l.Wf n.chainId
  executes : Executes n.genesisLedger.state l.blocks l.state
  size : (encodeLedger (l.snapshot n.chainId)).length ≤ maxLedgerBytes

/-- The file a ledger is stored as. -/
def fileOf (n : NodeSetup) (l : Ledger) : File := ⟨encodeLedger (l.snapshot n.chainId), true⟩

/-- The disk holds the last ledger of the log. -/
structure Durable (n : NodeSetup) (d : Disk) (log : List Commit) : Prop where
  writable : ∀ c ∈ log, n.Writable c.ledger
  file : d.ledger = log.getLast?.map fun c => n.fileOf c.ledger

/-- A running node holds the last ledger of the log. -/
structure Current (n : NodeSetup) (log : List Commit) (s : RpcState) : Prop where
  store_eq : s.store = n.store
  chain : s.chainId = n.chainId
  pool : RpcState.PoolReady s.mempool
  height : s.blockHeight = lastHeight s.blocks
  ledger : s.ledger = n.lastLedger log

/-- How often the log has genesis applied. -/
def mints (log : List Commit) : Nat := log.countP Commit.genesis

structure Inv (n : NodeSetup) (w : World) : Prop where
  durable : n.Durable w.disk w.log
  current : ∀ s, w.node = some s → n.Current w.log s
  seeded : w.node ≠ none → n.allocations ≠ [] → w.log ≠ []
  minted : mints w.log = if w.log = [] ∨ n.allocations = [] then 0 else 1

/-! ## Writing and crashing -/

variable {n : NodeSetup}

omit [Blake3] in
theorem record_cases (log : List Commit) (commit : Option Commit) (done : List FsOp) :
    record log commit done = log ∨ ∃ c, commit = some c ∧ record log commit done = log ++ [c] := by
  unfold record
  split
  · cases commit with
    | none => exact .inl (List.append_nil log)
    | some c => exact .inr ⟨c, rfl, rfl⟩
  · exact .inl rfl

theorem writeSteps_cases (s : RpcState) (l : Ledger) :
    s.writeSteps l = [] ∨ (s.writeSteps l = persistOps (encodeLedger (l.snapshot s.chainId)) ∧
      (encodeLedger (l.snapshot s.chainId)).length ≤ maxLedgerBytes) := by
  unfold RpcState.writeSteps LedgerStore.persistSteps
  split
  · exact .inl rfl
  · split
    · exact .inl rfl
    · rename_i hbig
      rw [not_or, Nat.not_lt] at hbig
      exact .inr ⟨rfl, hbig.2⟩

/-- A crash loses nothing of a durable disk: its ledger file is synced. -/
theorem Durable.crash {d : Disk} {log : List Commit} (h : n.Durable d log) (loss : Loss) :
    n.Durable (d.crash loss) log := by
  refine ⟨h.writable, ?_⟩
  rw [Disk.crash, h.file, Option.map_map]
  rfl

/-- Any number of steps of writing a ledger keep the disk durable. -/
theorem Durable.write {d : Disk} {log : List Commit} (h : n.Durable d log) {c : Commit}
    (hc : n.Writable c.ledger) (k : Nat) :
    n.Durable (applySteps ((persistOps (encodeLedger (c.ledger.snapshot n.chainId))).take k) d)
      (record log (some c) ((persistOps (encodeLedger (c.ledger.snapshot n.chainId))).take k)) := by
  have hledger := LedgerStore.ledger_after_steps (encodeLedger (c.ledger.snapshot n.chainId)) d k
  unfold record
  split
  · rename_i hrenamed
    rw [if_pos hrenamed] at hledger
    refine ⟨?_, ?_⟩
    · intro c' hc'
      rcases List.mem_append.mp hc' with hold | hnew
      · exact h.writable c' hold
      · rw [List.mem_singleton.mp hnew]
        exact hc
    · rw [applySteps, hledger, Option.toList_some, List.getLast?_concat]
      rfl
  · rename_i hbefore
    rw [if_neg hbefore] at hledger
    exact ⟨h.writable, hledger.trans h.file⟩

/-- Any number of the steps a call makes keep the disk durable. -/
theorem Durable.callSteps {d : Disk} {log : List Commit} (h : n.Durable d log) {s : RpcState}
    (hchain : s.chainId = n.chainId) {target : Option Ledger}
    (htarget : ∀ l, target = some l → l.Wf n.chainId ∧ Executes n.genesisLedger.state l.blocks l.state)
    (genesis : Bool) (k : Nat) :
    n.Durable (applySteps ((target.elim [] s.writeSteps).take k) d)
      (record log (target.map fun l => ⟨l, genesis⟩) ((target.elim [] s.writeSteps).take k)) := by
  cases target with
  | none => simpa [applySteps, record] using h
  | some l =>
    obtain ⟨hwf, hexec⟩ := htarget l rfl
    rcases writeSteps_cases s l with hnone | ⟨hsteps, hsize⟩
    · simpa [applySteps, record, hnone] using h
    · rw [hchain] at hsteps hsize
      rw [Option.elim_some, hsteps]
      exact h.write (c := ⟨l, genesis⟩) ⟨hwf, hexec, hsize⟩ k

/-! ## What the node may write -/

theorem wf_genesisLedger (n : NodeSetup) : n.genesisLedger.Wf n.chainId :=
  (Ledger.wf_empty n.chainId).next (.seeded n.allocations)

theorem executes_genesisLedger (n : NodeSetup) :
    Executes n.genesisLedger.state n.genesisLedger.blocks n.genesisLedger.state := rfl

/-- The last ledger of a durable log is well formed and executes from genesis. -/
theorem Durable.lastLedger_ok {d : Disk} {log : List Commit} (h : n.Durable d log) :
    (n.lastLedger log).Wf n.chainId ∧
      Executes n.genesisLedger.state (n.lastLedger log).blocks (n.lastLedger log).state := by
  unfold lastLedger
  cases hlast : log.getLast? with
  | none => exact ⟨wf_genesisLedger n, executes_genesisLedger n⟩
  | some c =>
    have hc := h.writable c (List.mem_of_getLast? hlast)
    exact ⟨hc.wf, hc.executes⟩

omit [Blake3] in
/-- A node's store is durable, so the decision about genesis reads the disk. -/
theorem fileExists_eq (n : NodeSetup) (d : Disk) : n.store.fileExists d = d.ledger.isSome := Bool.true_and _

omit [Blake3] in
theorem bootTarget_ok {d : Disk} {l : Ledger} (h : n.bootTarget d = some l) :
    l = n.genesisLedger ∧ n.allocations ≠ [] ∧ d.ledger = none := by
  unfold bootTarget at h
  split at h
  · cases h
  · rename_i hfresh
    rw [not_or] at hfresh
    cases h
    refine ⟨rfl, hfresh.2, ?_⟩
    have hfile := hfresh.1
    rw [fileExists_eq] at hfile
    simpa using hfile

theorem submitTarget_ok {d : Disk} {log : List Commit} {s : RpcState} {tx : Transaction} {now : Timestamp} {l : Ledger}
    (hd : n.Durable d log) (hs : n.Current log s) (h : s.submitTarget tx now = some l) :
    l.Wf n.chainId ∧ Executes n.genesisLedger.state l.blocks l.state := by
  have hext := RpcState.submitTarget_extends hs.pool h
  rw [hs.chain, hs.ledger] at hext
  obtain ⟨hwf, hexec⟩ := hd.lastLedger_ok
  exact ⟨hwf.next (.sealed hext), hext.executes hexec⟩

/-! ## Counting the genesis writes -/

/-- The file is missing exactly while nothing was renamed. -/
theorem Durable.log_eq_nil {d : Disk} {log : List Commit} (h : n.Durable d log) : d.ledger = none ↔ log = [] := by
  rw [h.file, Option.map_eq_none_iff, List.getLast?_eq_none_iff]

/-- The count is right after any part of a bootstrap. -/
theorem minted_boot {w : World} (h : n.Inv w) (done : List FsOp) :
    mints (record w.log ((n.bootTarget w.disk).map fun l => ⟨l, true⟩) done) =
      if record w.log ((n.bootTarget w.disk).map fun l => ⟨l, true⟩) done = [] ∨ n.allocations = [] then 0 else 1 := by
  rcases record_cases w.log ((n.bootTarget w.disk).map fun l => ⟨l, true⟩) done with hsame | ⟨c, hc, hnew⟩
  · rw [hsame]
    exact h.minted
  · obtain ⟨l, hl, rfl⟩ := Option.map_eq_some_iff.mp hc
    obtain ⟨-, hsome, hnone⟩ := bootTarget_ok hl
    rw [hnew, h.durable.log_eq_nil.mp hnone]
    simp [mints, hsome]

/-- And after any part of a submission to a running node. -/
theorem minted_submit {w : World} (h : n.Inv w) (hup : w.node ≠ none) (target : Option Ledger) (done : List FsOp) :
    mints (record w.log (target.map fun l => ⟨l, false⟩) done) =
      if record w.log (target.map fun l => ⟨l, false⟩) done = [] ∨ n.allocations = [] then 0 else 1 := by
  rcases record_cases w.log (target.map fun l => ⟨l, false⟩) done with hsame | ⟨c, hc, hnew⟩
  · rw [hsame]
    exact h.minted
  · obtain ⟨l, -, rfl⟩ := Option.map_eq_some_iff.mp hc
    have hcount : mints (w.log ++ [⟨l, false⟩]) = mints w.log := by simp [mints]
    rw [hnew, hcount, h.minted]
    by_cases halloc : n.allocations = []
    · simp [halloc]
    · simp [halloc, h.seeded hup halloc]

/-! ## Every event -/

/-- A call that is cut off keeps the invariant. -/
theorem Inv.cutOff {w : World} {s : RpcState} (h : n.Inv w) (hchain : s.chainId = n.chainId) {target : Option Ledger}
    {genesis : Bool} (cut : Nat × Loss)
    (htarget : ∀ l, target = some l → l.Wf n.chainId ∧ Executes n.genesisLedger.state l.blocks l.state)
    (hminted : ∀ done, mints (record w.log (target.map fun l => ⟨l, genesis⟩) done) =
      if record w.log (target.map fun l => ⟨l, genesis⟩) done = [] ∨ n.allocations = [] then 0 else 1) :
    n.Inv (cutOff w (target.map fun l => ⟨l, genesis⟩) (target.elim [] s.writeSteps) cut) :=
  ⟨(h.durable.callSteps hchain htarget genesis cut.1).crash cut.2, fun _ hs => (by cases hs),
    fun hup => absurd rfl hup, hminted _⟩

omit [Blake3] in
/-- A complete write is recorded. -/
theorem record_persistOps (log : List Commit) (c : Commit) (encoded : Bytes) :
    record log (some c) (persistOps encoded) = log ++ [c] := by
  simp [record, persistOps]

/-- A complete write leaves a durable disk. -/
theorem Durable.written {d : Disk} {log : List Commit} (h : n.Durable d log) {l : Ledger} (hl : n.Writable l)
    (genesis : Bool) :
    n.Durable (applySteps (persistOps (encodeLedger (l.snapshot n.chainId))) d) (log ++ [⟨l, genesis⟩]) := by
  have hall := h.write (c := ⟨l, genesis⟩) hl (persistOps (encodeLedger (l.snapshot n.chainId))).length
  rw [List.take_length, record_persistOps] at hall
  exact hall

/-- A node that took over a new ledger holds what the log now ends with. -/
theorem current_written {s : RpcState} {log : List Commit} {l : Ledger} {p : Mempool} {genesis : Bool}
    (hstore : s.store = n.store) (hchain : s.chainId = n.chainId) (pool : RpcState.PoolReady p) :
    n.Current (log ++ [⟨l, genesis⟩]) (s.withLedger l p) := by
  refine ⟨hstore, hchain, pool, rfl, ?_⟩
  rw [lastLedger, List.getLast?_concat]
  rfl

/-- A submission that returns. -/
theorem Inv.submit {w : World} {s : RpcState} (h : n.Inv w) (hup : w.node = some s) (tx : Transaction)
    (now : Timestamp) : n.Inv (n.step w (.submit tx now none)).2 := by
  have hs := h.current s hup
  have hne : w.node ≠ none := by simp [hup]
  have hpath : s.store.path = some (LedgerPath.ofDir n.config.dataDir) := by rw [hs.store_eq]; rfl
  have hfollows := RpcState.submitTransaction_follows hpath hs.pool w.disk tx now
  have hminted := minted_submit h hne (s.submitTarget tx now)
    ((s.submitTarget tx now).elim [] s.writeSteps)
  have htarget : ∀ l, s.submitTarget tx now = some l →
      l.Wf n.chainId ∧ Executes n.genesisLedger.state l.blocks l.state := fun l => submitTarget_ok h.durable hs
  unfold step
  rw [hup]
  dsimp only
  revert hfollows hminted htarget
  generalize s.submitTransaction w.disk tx now none = out
  generalize s.submitTarget tx now = target
  obtain ⟨r, s', d⟩ := out
  dsimp only
  generalize (r.map fun _ => ()) = r'
  intro hfollows hminted htarget
  cases hfollows with
  | idle pool steps =>
    rw [steps] at hminted ⊢
    refine ⟨h.durable, ?_, fun _ => h.seeded hne, hminted⟩
    intro s' hs'
    cases hs'
    exact ⟨hs.store_eq, hs.chain, pool, hs.height, hs.ledger⟩
  | @written l p pool target_eq steps size =>
    subst target_eq
    obtain ⟨hwf, hexec⟩ := htarget l rfl
    rw [hs.chain] at steps size ⊢
    rw [Option.elim_some, steps] at hminted ⊢
    rw [Option.map_some, record_persistOps] at hminted ⊢
    refine ⟨?_, ?_, fun _ _ => by simp, hminted⟩
    · exact h.durable.written ⟨hwf, hexec, size⟩ false
    · intro s' hs'
      cases hs'
      exact current_written hs.store_eq hs.chain pool

/-! ## Bootstrap -/

omit [Blake3] in
theorem genesisLedger_of_nil (h : n.allocations = []) : n.genesisLedger = (RpcState.fresh n.store).ledger := by
  rw [genesisLedger, h]
  rfl

/-- With a ledger file, bootstrap opens it and writes nothing. -/
theorem bootstrap_existing {d : Disk} {f : File} (h : d.ledger = some f) :
    bootstrap n.config (some n.genesis) d .none =
      ((RpcState.withStore n.store d none).mapError NodeError.storage, d) := by
  have hexists : n.store.fileExists d = true := by
    rw [fileExists_eq, h]
    rfl
  rw [bootstrap_eq, hexists]
  cases RpcState.withStore n.store d none with
  | error e => rfl
  | ok s => simp [applyGenesis, Except.mapError]

/-- Without one it starts empty and applies genesis. -/
theorem bootstrap_fresh {d : Disk} (h : d.ledger = none) :
    bootstrap n.config (some n.genesis) d .none =
      if n.allocations = [] then (.ok (RpcState.fresh n.store), d)
      else
        match (RpcState.fresh n.store).seedAccounts d n.allocations none with
        | (.error e, _, d) => (.error (.rpc e), d)
        | (.ok (), s, d) => (.ok s, d) := by
  have hexists : n.store.fileExists d = false := by
    rw [fileExists_eq, h]
    rfl
  rw [bootstrap_eq, hexists, RpcState.withStore_empty _ h]
  by_cases halloc : n.allocations = []
  · rw [if_pos halloc]
    simp [applyGenesis, show n.genesis.allocations.toList = [] from halloc]
  · rw [if_neg halloc]
    simp only [applyGenesis]
    rw [if_pos ⟨rfl, halloc⟩]
    rfl

/-- The node restored from the last entry of the log. -/
theorem current_holding (n : NodeSetup) (log : List Commit) :
    n.Current log (RpcState.holding n.store (n.lastLedger log)) :=
  ⟨rfl, rfl, RpcState.poolReady_default, rfl, rfl⟩

/-- Opening the file of a durable disk gives the last ledger, if the validator accepts it. -/
theorem Durable.withStore_iff {d : Disk} {log : List Commit} (h : n.Durable d log) {f : File}
    (hfile : d.ledger = some f) {s : RpcState} :
    RpcState.withStore n.store d none = .ok s ↔
      ValidChain (n.lastLedger log).blocks (orderedReceipts (n.lastLedger log).receipts) n.chainId
        (n.lastLedger log).state ∧ s = RpcState.holding n.store (n.lastLedger log) := by
  have hlog := h.file
  rw [hfile] at hlog
  obtain ⟨c, hc, hf⟩ := Option.map_eq_some_iff.mp hlog.symm
  have hw := h.writable c (List.mem_of_getLast? hc)
  have hlast : n.lastLedger log = c.ledger := by rw [lastLedger, hc]; rfl
  rw [hlast]
  exact RpcState.withStore_written rfl hw.wf hw.size (hfile.trans (congrArg some hf.symm))

/-- Seeding a fresh node: nothing is written and it fails, or genesis is written and taken over. -/
theorem seed_fresh_cases (n : NodeSetup) (d : Disk) :
    ((RpcState.fresh n.store).writeSteps n.genesisLedger = [] ∧
      ∃ e s, (RpcState.fresh n.store).seedAccounts d n.allocations none = (.error e, s, d)) ∨
    (n.Writable n.genesisLedger ∧
      (RpcState.fresh n.store).writeSteps n.genesisLedger = persistOps (encodeLedger (n.genesisLedger.snapshot n.chainId)) ∧
      ∃ p, RpcState.PoolReady p ∧ (RpcState.fresh n.store).seedAccounts d n.allocations none =
        (.ok (), (RpcState.fresh n.store).withLedger n.genesisLedger p,
          applySteps (persistOps (encodeLedger (n.genesisLedger.snapshot n.chainId))) d)) := by
  have hfollows := RpcState.seedAccounts_follows (s := RpcState.fresh n.store) rfl RpcState.poolReady_default rfl
    d n.allocations
  revert hfollows
  generalize (RpcState.fresh n.store).seedAccounts d n.allocations none = out
  obtain ⟨r, s', d'⟩ := out
  intro hfollows
  cases hfollows with
  | idle pool steps => exact .inl ⟨steps, _, _, rfl⟩
  | written pool target_eq steps size =>
    cases target_eq
    exact .inr ⟨⟨wf_genesisLedger n, executes_genesisLedger n, size⟩, steps, _, pool, rfl⟩

omit [Blake3] in
theorem bootTarget_existing {d : Disk} {f : File} (h : d.ledger = some f) : n.bootTarget d = none := by
  cases ht : n.bootTarget d with
  | none => rfl
  | some l =>
    rw [(bootTarget_ok ht).2.2] at h
    cases h

omit [Blake3] in
theorem bootTarget_fresh {d : Disk} (h : d.ledger = none) (halloc : n.allocations ≠ []) :
    n.bootTarget d = some n.genesisLedger :=
  if_neg (by simp [fileExists_eq, h, halloc])

/-- A bootstrap that finds a ledger file. -/
theorem Inv.boot_existing {w : World} (h : n.Inv w) {f : File} (hd : w.disk.ledger = some f) :
    n.Inv (n.step w (.boot none)).2 := by
  have hlog : w.log ≠ [] := by
    intro hnil
    rw [h.durable.log_eq_nil.mpr hnil] at hd
    cases hd
  unfold step
  dsimp only
  rw [bootstrap_existing hd, bootTarget_existing hd]
  refine ⟨h.durable, ?_, fun _ _ => hlog, h.minted⟩
  intro s hs
  cases hopen : RpcState.withStore n.store w.disk none with
  | error e =>
    rw [hopen] at hs
    cases hs
  | ok s' =>
    rw [hopen] at hs
    cases hs
    rw [((h.durable.withStore_iff hd).mp hopen).2]
    exact current_holding n w.log

/-- A bootstrap that finds none. -/
theorem Inv.boot_fresh {w : World} (h : n.Inv w) (hd : w.disk.ledger = none) :
    n.Inv (n.step w (.boot none)).2 := by
  have hminted := minted_boot h ((n.bootTarget w.disk).elim [] (RpcState.fresh n.store).writeSteps)
  unfold step
  dsimp only
  rw [bootstrap_fresh hd]
  by_cases halloc : n.allocations = []
  · have htarget : n.bootTarget w.disk = none := if_pos (.inr halloc)
    rw [if_pos halloc, htarget]
    refine ⟨h.durable, ?_, fun _ hne => absurd halloc hne, h.minted⟩
    intro s hs
    cases hs
    refine ⟨rfl, rfl, RpcState.poolReady_default, rfl, (genesisLedger_of_nil halloc).symm.trans ?_⟩
    rw [show record w.log _ _ = w.log from rfl, h.durable.log_eq_nil.mp hd]
    rfl
  · rw [if_neg halloc]
    rw [bootTarget_fresh hd halloc, Option.elim_some] at hminted ⊢
    rcases seed_fresh_cases n w.disk with ⟨hsteps, e, s, hseed⟩ | ⟨hw, hsteps, p, hpool, hseed⟩
    · rw [hsteps] at hminted ⊢
      rw [hseed]
      exact ⟨h.durable, fun _ hs => (by cases hs), fun hup => absurd rfl hup, hminted⟩
    · rw [hsteps, Option.map_some, record_persistOps] at hminted ⊢
      rw [hseed]
      refine ⟨h.durable.written hw true, ?_, fun _ _ => by simp, hminted⟩
      intro s hs
      cases hs
      exact current_written rfl rfl hpool

/-- **Every event keeps the invariant.** -/
theorem Inv.step {w : World} (h : n.Inv w) (e : Event) : n.Inv (n.step w e).2 := by
  cases e with
  | boot cut =>
    cases cut with
    | none =>
      cases hd : w.disk.ledger with
      | none => exact h.boot_fresh hd
      | some f => exact h.boot_existing hd
    | some cut =>
      refine Inv.cutOff (s := RpcState.fresh n.store) h rfl cut ?_ (minted_boot h)
      intro l hl
      rw [(bootTarget_ok hl).1]
      exact ⟨wf_genesisLedger n, executes_genesisLedger n⟩
  | submit tx now cut =>
    cases hup : w.node with
    | none => rwa [NodeSetup.step, hup]
    | some s =>
      cases cut with
      | none => exact h.submit hup tx now
      | some cut =>
        have hs := h.current s hup
        rw [NodeSetup.step, hup]
        exact h.cutOff hs.chain cut (fun l hl => submitTarget_ok h.durable hs hl)
          (minted_submit h (by simp [hup]) (s.submitTarget tx now))
  | crash loss =>
    exact ⟨h.durable.crash loss, fun _ hs => (by cases hs), fun hup => absurd rfl hup, h.minted⟩

/-- A machine on which the node never ran. -/
def start : World := ⟨⟨none, none⟩, none, []⟩

theorem inv_start (n : NodeSetup) : n.Inv start :=
  ⟨⟨fun _ hc => (by cases hc), rfl⟩, fun _ hs => (by cases hs), fun hup => absurd rfl hup, rfl⟩

/-- Within the size limit the genesis write is made. -/
theorem writeSteps_genesis (hsize : (encodeLedger (n.genesisLedger.snapshot n.chainId)).length ≤ maxLedgerBytes) :
    (RpcState.fresh n.store).writeSteps n.genesisLedger =
      persistOps (encodeLedger (n.genesisLedger.snapshot n.chainId)) := by
  have hchain : n.genesisLedger.state.chainId = n.chainId := (wf_genesisLedger n).chain
  unfold RpcState.writeSteps LedgerStore.persistSteps
  rw [if_neg, if_neg]
  · rfl
  · rw [not_or, Nat.not_lt]
    exact ⟨fun hnone => (by cases hnone), hsize⟩
  · rw [not_or, not_not, not_not]
    exact ⟨rfl, hchain⟩

/-- A bootstrap on any disk a run can leave succeeds with the last ledger. -/
theorem bootstrap_succeeds {w : World} (h : n.Inv w)
    (hsize : (encodeLedger (n.genesisLedger.snapshot n.chainId)).length ≤ maxLedgerBytes)
    (hcf : CollisionFree (hashedBytes (n.lastLedger w.log).blocks)) :
    ∃ s, (bootstrap n.config (some n.genesis) w.disk .none).1 = .ok s ∧ s.ledger = n.lastLedger w.log ∧
      s.blockHeight = lastHeight s.blocks := by
  cases hd : w.disk.ledger with
  | some f =>
    obtain ⟨hwf, hexec⟩ := h.durable.lastLedger_ok
    have hvalid := hwf.validChain (fun last hlast => hexec.root_eq hlast) hcf
    rw [bootstrap_existing hd, (h.durable.withStore_iff hd).mpr ⟨hvalid, rfl⟩]
    exact ⟨_, rfl, rfl, rfl⟩
  | none =>
    have hgenesis : n.lastLedger w.log = n.genesisLedger := by
      rw [h.durable.log_eq_nil.mp hd]
      rfl
    rw [bootstrap_fresh hd, hgenesis]
    by_cases halloc : n.allocations = []
    · rw [if_pos halloc]
      exact ⟨_, rfl, (genesisLedger_of_nil halloc).symm, rfl⟩
    · rw [if_neg halloc]
      rcases seed_fresh_cases n w.disk with ⟨hsteps, -⟩ | ⟨-, -, p, -, hseed⟩
      · rw [writeSteps_genesis hsize] at hsteps
        cases hsteps
      · rw [hseed]
        exact ⟨_, rfl, rfl, rfl⟩

/-- **Crash and restart safety.** Along every run of bootstraps, submissions and crashes at any point,
every bootstrap that is not itself cut off succeeds, with the last ledger whose rename completed, or
with the empty ledger and genesis applied before there is one. Its state is the genesis balances with
its blocks executed on them, memory never differs from the last renamed ledger, and the genesis
allocations are written once. -/
theorem bootstrap_recovers (n : NodeSetup)
    (hsize : (encodeLedger (n.genesisLedger.snapshot n.chainId)).length ≤ maxLedgerBytes) (events : List Event)
    (hcf : ∀ c ∈ trace n.step start events, CollisionFree (hashedBytes (n.lastLedger c.before.log).blocks)) :
    ∀ c ∈ trace n.step start events,
      (c.input = .boot none → ∃ s, c.result = some (.ok s) ∧ c.after.node = some s ∧
        s.ledger = n.lastLedger c.before.log ∧ s.blockHeight = lastHeight s.blocks ∧
        Executes n.genesisLedger.state s.blocks s.state ∧
        mints c.after.log = if n.allocations = [] then 0 else 1) ∧
      (∀ s, c.after.node = some s → s.ledger = n.lastLedger c.after.log) ∧
      mints c.after.log ≤ 1 := by
  intro c hc
  have hbefore : n.Inv c.before :=
    trace_invariant n.step n.Inv (fun _ e hw => hw.step e) (inv_start n) events c hc
  have hstep := trace_step n.step start events c hc
  have hafter : n.Inv c.after := by
    have := hbefore.step c.input
    rwa [hstep] at this
  refine ⟨?_, fun s hs => (hafter.current s hs).ledger, ?_⟩
  · intro hboot
    obtain ⟨s, hs, hledger, hheight⟩ := bootstrap_succeeds hbefore hsize (hcf c hc)
    have hexec := hbefore.durable.lastLedger_ok.2
    rw [← hledger] at hexec
    rw [hboot, NodeSetup.step] at hstep
    dsimp only at hstep
    rw [hs, Prod.mk.injEq] at hstep
    have hup : c.after.node = some s := by rw [← hstep.2]; rfl
    refine ⟨s, hstep.1.symm, hup, hledger, hheight, hexec, ?_⟩
    rw [hafter.minted]
    by_cases halloc : n.allocations = []
    · simp [halloc]
    · simp [halloc, hafter.seeded (by simp [hup]) halloc]
  · rw [hafter.minted]
    split <;> decide

end

section Sample
open scoped Concrete

/-- Chain 1 with Alice funded. -/
def sampleSetup : NodeSetup where
  config := ⟨"data", false, 1⟩
  genesis := ⟨1, [], (∅ : Map Address Amount).insert RpcState.alice 100000, defaultBlockTimeMs, blockGasLimit⟩
  valid := by decide
  validators := by decide

/-- A crash while genesis is being written, a restart, a crash just after the rename of Alice's
payment, and another restart. -/
def sampleEvents : List Event :=
  [.boot (some (3, ⟨[], none⟩)), .boot none, .submit RpcState.payment 7 (some (5, ⟨[], none⟩)), .boot none]

theorem bootstrap_recovers_sample :
    ((final sampleSetup.step start sampleEvents).log.map Commit.genesis = [true, false]) ∧
    ∀ c ∈ trace sampleSetup.step start sampleEvents, c.input = .boot none →
      ∃ s, c.result = some (.ok s) ∧ s.ledger = sampleSetup.lastLedger c.before.log := by
  refine ⟨by decide +kernel, ?_⟩
  intro c hc hboot
  obtain ⟨s, hs, -, hledger, -⟩ :=
    (bootstrap_recovers sampleSetup (by decide +kernel) sampleEvents (by decide +kernel) c hc).1 hboot
  exact ⟨s, hs, hledger⟩

end Sample

end NodeSetup
end Subhost
