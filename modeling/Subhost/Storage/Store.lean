import Subhost.Storage.Chain
/-!
# The ledger file (subhost-storage/src/lib.rs:21-226)

A ledger is written as `magic ‖ version ‖ checksum ‖ payload` to a temporary file that then
replaces the target. `persistOps` is that sequence of file-system steps; any of them may fail
(`Fault`), and one that fails after the `rename` leaves the file replaced.

`persist_ok` says what a completed write leaves and `loadBytes_encodeLedger` that it is read back
as it was, so that only the validation in `restore` decides whether it loads.
-/
namespace Subhost
open Uint Bincode Codec

/-- `MAX_LEDGER_BYTES` (lib.rs:24). -/
def maxLedgerBytes : Nat := 64 * 1024 * 1024

def ledgerMagic : Vector UInt8 8 := #v[83, 85, 66, 72, 79, 83, 84, 49]
def ledgerFormatVersion : U32 := 1

/-- `LedgerSnapshot` (lib.rs:33). -/
structure LedgerSnapshot where
  chainId : ChainId
  state : StateSnapshot
  blocks : List Block
  receipts : List Receipt
deriving DecidableEq

/-- `LedgerEnvelope` (lib.rs:41). -/
structure LedgerEnvelope where
  magic : Vector UInt8 8
  version : U32
  checksum : Hash
  payload : Bytes

/-- `RestoredLedger` (lib.rs:50). -/
structure RestoredLedger where
  state : State
  blocks : List Block
  receipts : List Receipt

/-- `RestoredLedger::height` (lib.rs:58). -/
def RestoredLedger.height (l : RestoredLedger) : U64 := (l.blocks.getLast?).elim 0 fun b => b.header.height

def LedgerSnapshot.codec : Codec LedgerSnapshot :=
  (pair u64 <| pair StateSnapshot.codec <| pair (list Block.codec Block.encode_ne_nil)
    (list Receipt.codec Receipt.encode_ne_nil)).iso
    (fun s => (s.chainId, s.state, s.blocks, s.receipts)) (fun (c, s, b, r) => ⟨c, s, b, r⟩)
    (fun _ => rfl) (fun _ => rfl)

def LedgerEnvelope.codec : Codec LedgerEnvelope :=
  (pair (array 8) <| pair u32 <| pair Hash.codec bytes).iso
    (fun e => (e.magic, e.version, e.checksum, e.payload)) (fun (m, v, c, p) => ⟨m, v, c, p⟩)
    (fun _ => rfl) (fun _ => rfl)

theorem LedgerEnvelope.length_encode (e : LedgerEnvelope) :
    (LedgerEnvelope.codec.encode e).length = e.payload.length + 52 := by
  simp [LedgerEnvelope.codec]
  omega

/-- Where a durable store keeps its file. -/
structure LedgerPath where
  parent : String
  file : String
deriving DecidableEq

/-- `LEDGER_FILE_NAME` in a data directory. -/
def LedgerPath.ofDir (dataDir : String) : LedgerPath := ⟨dataDir, dataDir ++ "/node-state.bin"⟩

/-- `LedgerStore` (lib.rs:69); `path` is `none` for an ephemeral store. Its two constructors refuse
chain 0. -/
structure LedgerStore where
  path : Option LedgerPath
  chainId : ChainId
  chainId_ne : chainId ≠ 0
deriving DecidableEq

theorem chainId_one_ne : (1 : ChainId) ≠ 0 := by decide

/-- `LedgerStore::open` (lib.rs:76); `fault` is an error of creating the directory. -/
def LedgerStore.openAt (chainId : ChainId) (dataDir : String) (fault : Option String) :
    Except StorageError LedgerStore :=
  if h : chainId = 0 then .error .invalidChainId
  else
    match fault with
    | some message => .error (.io dataDir message)
    | none => .ok ⟨some (LedgerPath.ofDir dataDir), chainId, h⟩

/-- `LedgerStore::ephemeral` (lib.rs:87). -/
def LedgerStore.ephemeral (chainId : ChainId) : Except StorageError LedgerStore :=
  if h : chainId = 0 then .error .invalidChainId else .ok ⟨none, chainId, h⟩

/-! ## The disk -/

/-- A file, and whether its data has reached the disk. -/
structure File where
  data : Bytes
  synced : Bool
deriving DecidableEq

/-- The ledger file and the temporary file of the write in progress. -/
structure Disk where
  ledger : Option File
  temp : Option File
deriving DecidableEq

/-- The file-system steps of `persist` after `create_dir_all` (lib.rs:193-215). -/
inductive FsOp where
  | createTemp
  | write (data : Bytes)
  | syncFile
  | chmod
  | rename
  | openDir
  | syncDir
deriving DecidableEq

/-- A step that succeeds. `rename` replaces the target at once. -/
def FsOp.run : FsOp → Disk → Disk
  | .createTemp, d => ⟨d.ledger, some ⟨[], false⟩⟩
  | .write data, d => ⟨d.ledger, d.temp.map fun f => ⟨f.data ++ data, false⟩⟩
  | .syncFile, d => ⟨d.ledger, d.temp.map fun f => ⟨f.data, true⟩⟩
  | .rename, d => ⟨d.temp, none⟩
  | .chmod, d | .openDir, d | .syncDir, d => d

def persistOps (encoded : Bytes) : List FsOp :=
  [.createTemp, .write encoded, .syncFile, .chmod, .rename, .openDir, .syncDir]

/-- The path an error of a step is reported for. -/
def FsOp.errorPath (path : LedgerPath) : FsOp → String
  | .createTemp | .openDir | .syncDir => path.parent
  | .write _ | .syncFile | .chmod | .rename => path.file

/-- The step of `persist` that fails, if one does, and the operating system's message. Step 0 is
`create_dir_all`, step `i + 1` the `i`-th of `persistOps`. -/
structure Fault where
  step : Nat
  message : String
deriving DecidableEq

/-- Steps run until one fails; the temporary file is dropped on the way out. -/
def runOps (path : LedgerPath) (fault : Option Fault) : Nat → List FsOp → Disk → Except StorageError Unit × Disk
  | _, [], d => (.ok (), d)
  | i, op :: ops, d =>
    match fault with
    | some f =>
      if f.step = i then (.error (.io (op.errorPath path) f.message), ⟨d.ledger, none⟩)
      else runOps path fault (i + 1) ops (op.run d)
    | none => runOps path fault (i + 1) ops (op.run d)

section
variable [Blake3]

/-- The bytes `persist` writes (lib.rs:176-186). -/
def encodeLedger (snapshot : LedgerSnapshot) : Bytes :=
  let payload := LedgerSnapshot.codec.encode snapshot
  LedgerEnvelope.codec.encode ⟨ledgerMagic, ledgerFormatVersion, Blake3.hash payload, payload⟩

/-- The envelope it puts around a payload. -/
def sealPayload (payload : Bytes) : LedgerEnvelope := ⟨ledgerMagic, ledgerFormatVersion, Blake3.hash payload, payload⟩

@[simp] theorem payload_sealPayload (payload : Bytes) : (sealPayload payload).payload = payload := rfl

theorem encodeLedger_eq (snapshot : LedgerSnapshot) :
    encodeLedger snapshot = LedgerEnvelope.codec.encode (sealPayload (LedgerSnapshot.codec.encode snapshot)) := rfl

namespace LedgerStore

/-- `LedgerStore::empty` (lib.rs:219). -/
def empty (store : LedgerStore) : RestoredLedger := ⟨State.withChainId store.chainId, [], []⟩

/-- `LedgerStore::exists` (lib.rs:104). -/
def fileExists (store : LedgerStore) (d : Disk) : Bool := store.path.isSome && d.ledger.isSome

/-- `LedgerStore::restore` (lib.rs:143). -/
def restore (store : LedgerStore) (snapshot : LedgerSnapshot) : Except StorageError RestoredLedger :=
  if snapshot.chainId ≠ store.chainId ∨ snapshot.state.chainId ≠ store.chainId then
    .error (.chainMismatch store.chainId snapshot.chainId)
  else
    match State.fromSnapshot snapshot.state with
    | .error e => .error (.invalid e.display)
    | .ok state =>
      match validateChain snapshot.blocks snapshot.receipts store.chainId state with
      | .error e => .error e
      | .ok () => .ok ⟨state, snapshot.blocks, snapshot.receipts⟩

/-- The part of `load` after the file has been read (lib.rs:118-140). -/
def loadBytes (store : LedgerStore) (encoded : Bytes) : Except StorageError RestoredLedger :=
  if maxLedgerBytes < encoded.length then .error (.tooLarge encoded.length maxLedgerBytes)
  else
    match LedgerEnvelope.codec.deserialize encoded with
    | none => .error .decode
    | some envelope =>
      if envelope.magic ≠ ledgerMagic then .error .unsupportedFormat
      else if envelope.version ≠ ledgerFormatVersion then .error (.unsupportedVersion envelope.version)
      else if Blake3.hash envelope.payload ≠ envelope.checksum then .error .checksumMismatch
      else
        match LedgerSnapshot.codec.deserialize envelope.payload with
        | none => .error .decode
        | some snapshot => store.restore snapshot

/-- `LedgerStore::load` (lib.rs:109); `fault` is an error of reading the file. -/
def load (store : LedgerStore) (d : Disk) (fault : Option String) : Except StorageError RestoredLedger :=
  match store.path, d.ledger with
  | none, _ | some _, none => .ok store.empty
  | some path, some f =>
    match fault with
    | some message => .error (.io path.file message)
    | none => store.loadBytes f.data

/-- `LedgerStore::persist` (lib.rs:163). -/
def persist (store : LedgerStore) (snapshot : LedgerSnapshot) (fault : Option Fault) (d : Disk) :
    Except StorageError Unit × Disk :=
  if snapshot.chainId ≠ store.chainId ∨ snapshot.state.chainId ≠ store.chainId then
    (.error (.chainMismatch store.chainId snapshot.chainId), d)
  else
    match store.path with
    | none => (.ok (), d)
    | some path =>
      match fault.filter fun f => f.step = 0 with
      | some f => (.error (.io path.parent f.message), d)
      | none =>
        let encoded := encodeLedger snapshot
        if maxLedgerBytes < encoded.length then (.error (.tooLarge encoded.length maxLedgerBytes), d)
        else runOps path fault 1 (persistOps encoded) d

/-- The file-system steps a `persist` makes when none fails. -/
def persistSteps (store : LedgerStore) (snapshot : LedgerSnapshot) : List FsOp :=
  if snapshot.chainId ≠ store.chainId ∨ snapshot.state.chainId ≠ store.chainId then []
  else if store.path = none ∨ maxLedgerBytes < (encodeLedger snapshot).length then []
  else persistOps (encodeLedger snapshot)

/-! ## What a write leaves -/

omit [Blake3] in
theorem runOps_none (path : LedgerPath) (i : Nat) (ops : List FsOp) (d : Disk) :
    runOps path none i ops d = (.ok (), ops.foldl (fun d op => op.run d) d) := by
  induction ops generalizing i d with
  | nil => rfl
  | cons op ops ih => exact ih (i + 1) (op.run d)

/-- Without I/O errors a `persist` on a durable store makes all its steps and succeeds, or makes none
and fails. -/
theorem persist_durable {store : LedgerStore} {path : LedgerPath} (hpath : store.path = some path)
    (snapshot : LedgerSnapshot) (d : Disk) :
    (store.persistSteps snapshot = persistOps (encodeLedger snapshot) ∧
      (encodeLedger snapshot).length ≤ maxLedgerBytes ∧
      store.persist snapshot none d = (.ok (), (persistOps (encodeLedger snapshot)).foldl (fun d op => op.run d) d)) ∨
    (store.persistSteps snapshot = [] ∧ ∃ e, store.persist snapshot none d = (.error e, d)) := by
  unfold persist persistSteps
  by_cases hchain : snapshot.chainId ≠ store.chainId ∨ snapshot.state.chainId ≠ store.chainId
  · right
    rw [if_pos hchain, if_pos hchain]
    exact ⟨rfl, _, rfl⟩
  · rw [if_neg hchain, if_neg hchain, hpath]
    by_cases hsize : maxLedgerBytes < (encodeLedger snapshot).length
    · right
      simp [hsize]
    · left
      simp [hsize, Nat.le_of_not_lt hsize, runOps_none]

/-- Without I/O errors a ledger of the store's chain is refused for one reason: a durable store has a size
limit. -/
theorem persist_of_chain (store : LedgerStore) (snapshot : LedgerSnapshot) (hchain : snapshot.chainId = store.chainId)
    (hstate : snapshot.state.chainId = store.chainId) (d : Disk) :
    (store.persist snapshot none d).1 =
      if store.path.isSome ∧ maxLedgerBytes < (encodeLedger snapshot).length then
        .error (.tooLarge (encodeLedger snapshot).length maxLedgerBytes)
      else .ok () := by
  unfold persist
  rw [if_neg (by simp [hchain, hstate])]
  cases store.path with
  | none => simp
  | some path =>
    by_cases hsize : maxLedgerBytes < (encodeLedger snapshot).length
    · simp [hsize]
    · simp [hsize, runOps_none]

omit [Blake3] in
/-- Any number of steps of a write leaves the old file until the rename, and the complete, synced new
one from then on. -/
theorem ledger_after_steps (encoded : Bytes) (d : Disk) (n : Nat) :
    (((persistOps encoded).take n).foldl (fun d op => op.run d) d).ledger =
      if FsOp.rename ∈ (persistOps encoded).take n then some ⟨encoded, true⟩ else d.ledger := by
  rcases n with _ | _ | _ | _ | _ | _ | _ | n
  all_goals simp [persistOps, FsOp.run]

omit [Blake3] in
/-- A completed sequence of steps has replaced the ledger by synced data. -/
theorem runOps_ok {path : LedgerPath} {fault : Option Fault} {encoded : Bytes} {d d' : Disk}
    (h : runOps path fault 1 (persistOps encoded) d = (.ok (), d')) :
    d' = ⟨some ⟨encoded, true⟩, none⟩ := by
  have hrun : ∀ (ops : List FsOp) (i : Nat) (d : Disk), runOps path fault i ops d = (.ok (), d') →
      d' = ops.foldl (fun d op => op.run d) d := by
    intro ops
    induction ops with
    | nil =>
      intro i d hd
      unfold runOps at hd
      cases hd
      rfl
    | cons op ops ih =>
      intro i d hd
      unfold runOps at hd
      split at hd
      · split at hd
        · cases hd
        · exact ih _ _ hd
      · exact ih _ _ hd
  rw [hrun _ _ _ h]
  simp [persistOps, FsOp.run]

/-- A successful `persist`: the chain ids agreed, and on a durable store the file now holds the
encoded ledger, within the size limit and synced. -/
theorem persist_ok {store : LedgerStore} {snapshot : LedgerSnapshot} {fault : Option Fault} {d d' : Disk}
    (h : store.persist snapshot fault d = (.ok (), d')) :
    snapshot.chainId = store.chainId ∧ snapshot.state.chainId = store.chainId ∧
    ((store.path = none ∧ d' = d) ∨
      ((encodeLedger snapshot).length ≤ maxLedgerBytes ∧ d' = ⟨some ⟨encodeLedger snapshot, true⟩, none⟩)) := by
  unfold persist at h
  split at h
  · cases h
  · rename_i hchain
    simp only [not_or, ne_eq, Decidable.not_not] at hchain
    refine ⟨hchain.1, hchain.2, ?_⟩
    split at h
    · rename_i hpath
      cases h
      exact .inl ⟨hpath, rfl⟩
    · split at h
      · cases h
      · dsimp only at h
        split at h
        · cases h
        · rename_i hsize
          exact .inr ⟨Nat.le_of_not_lt hsize, runOps_ok h⟩

omit [Blake3] in
/-- Steps that stop at a failure leave the old file up to the rename and the new one after it, never
anything else. -/
theorem runOps_error {path : LedgerPath} {fault : Option Fault} {encoded : Bytes} {d d' : Disk} {e : StorageError}
    (h : runOps path fault 1 (persistOps encoded) d = (.error e, d')) :
    ∃ f, fault = some f ∧ 1 ≤ f.step ∧ f.step ≤ 7 ∧
      d'.ledger = if f.step ≤ 5 then d.ledger else some ⟨encoded, true⟩ := by
  cases fault with
  | none =>
    rw [runOps_none] at h
    cases h
  | some f =>
    obtain ⟨step, message⟩ := f
    refine ⟨_, rfl, ?_⟩
    rcases step with _ | _ | _ | _ | _ | _ | _ | _ | step
    all_goals
      simp only [persistOps, runOps, FsOp.run] at h
      cases h
    all_goals exact ⟨by simp, by simp, rfl⟩

/-- A failed `persist`: it was refused before the first step, or one of the steps failed. -/
theorem persist_error {store : LedgerStore} {snapshot : LedgerSnapshot} {fault : Option Fault} {d d' : Disk}
    {e : StorageError} (h : store.persist snapshot fault d = (.error e, d')) :
    (d' = d ∧ (snapshot.chainId ≠ store.chainId ∨ snapshot.state.chainId ≠ store.chainId ∨
      maxLedgerBytes < (encodeLedger snapshot).length ∨ ∃ f, fault = some f ∧ f.step = 0)) ∨
    (snapshot.chainId = store.chainId ∧ snapshot.state.chainId = store.chainId ∧
      (encodeLedger snapshot).length ≤ maxLedgerBytes ∧ ∃ f, fault = some f ∧ 1 ≤ f.step ∧ f.step ≤ 7 ∧
      d'.ledger = if f.step ≤ 5 then d.ledger else some ⟨encodeLedger snapshot, true⟩) := by
  unfold persist at h
  split at h
  · rename_i hchain
    cases h
    exact .inl ⟨rfl, hchain.imp_right .inl⟩
  · rename_i hchain
    simp only [not_or, ne_eq, Decidable.not_not] at hchain
    split at h
    · cases h
    · split at h
      · rename_i f hzero
        cases h
        obtain ⟨hf, hstep⟩ := Option.filter_eq_some_iff.mp hzero
        exact .inl ⟨rfl, .inr (.inr (.inr ⟨f, hf, of_decide_eq_true hstep⟩))⟩
      · dsimp only at h
        split at h
        · rename_i hsize
          cases h
          exact .inl ⟨rfl, .inr (.inr (.inl hsize))⟩
        · rename_i hsize
          exact .inr ⟨hchain.1, hchain.2, Nat.le_of_not_lt hsize, runOps_error h⟩

/-- A write on a durable store that succeeded met none of the I/O errors of its steps, and its
ledger was within the limit. -/
theorem not_fault_of_persist_ok {store : LedgerStore} {path : LedgerPath} (hpath : store.path = some path)
    {snapshot : LedgerSnapshot} {fault : Option Fault} {d d' : Disk}
    (h : store.persist snapshot fault d = (.ok (), d')) :
    (∀ f, fault = some f → 7 < f.step) ∧ (encodeLedger snapshot).length ≤ maxLedgerBytes := by
  unfold persist at h
  rw [hpath] at h
  split at h
  · cases h
  · dsimp only at h
    split at h
    · cases h
    · rename_i hzero
      split at h
      · cases h
      · rename_i hsize
        refine ⟨?_, Nat.le_of_not_lt hsize⟩
        rintro f rfl
        have hne : f.step ≠ 0 := by simpa [Option.filter] using hzero
        by_contra hle
        have hstep : f.step = 1 ∨ f.step = 2 ∨ f.step = 3 ∨ f.step = 4 ∨ f.step = 5 ∨ f.step = 6 ∨ f.step = 7 := by
          omega
        -- whichever step it is, the run stops there
        rcases hstep with e | e | e | e | e | e | e <;> simp [persistOps, runOps, e] at h

/-! ## Reading it back -/

theorem length_payload_lt (snapshot : LedgerSnapshot) :
    (LedgerSnapshot.codec.encode snapshot).length < (encodeLedger snapshot).length := by
  unfold encodeLedger
  rw [LedgerEnvelope.length_encode]
  exact Nat.lt_add_of_pos_right (by decide)

omit [Blake3] in
theorem readsBack_of_length_le {α : Type} {c : Codec α} {a : α} (h : (c.encode a).length ≤ maxLedgerBytes) :
    c.ReadsBack a :=
  c.readsBack_of_length (Nat.lt_of_le_of_lt h (by decide))

/-- An encoded ledger within the limit, followed by any bytes, is decoded to its envelope and those bytes. -/
theorem decode_encodeLedger {snapshot : LedgerSnapshot} (hsize : (encodeLedger snapshot).length ≤ maxLedgerBytes)
    (more : Bytes) :
    LedgerEnvelope.codec.decode (encodeLedger snapshot ++ more) =
      some (sealPayload (LedgerSnapshot.codec.encode snapshot), more) :=
  readsBack_of_length_le (c := LedgerEnvelope.codec) hsize more

/-- An encoded ledger within the limit is decoded to the envelope and the snapshot it was made from. -/
theorem deserialize_encodeLedger {snapshot : LedgerSnapshot}
    (hsize : (encodeLedger snapshot).length ≤ maxLedgerBytes) :
    LedgerEnvelope.codec.deserialize (encodeLedger snapshot) =
      some (sealPayload (LedgerSnapshot.codec.encode snapshot)) ∧
    LedgerSnapshot.codec.deserialize (LedgerSnapshot.codec.encode snapshot) = some snapshot := by
  have hpayload := length_payload_lt snapshot
  have hmax : maxLedgerBytes < 2 ^ 64 := by decide
  exact ⟨deserialize_encode _ _ (lt_of_le_of_lt hsize hmax), deserialize_encode _ _ (by omega)⟩

/-- **Round trip of the file**: an encoded ledger within the limit is decoded to the snapshot it
was made from, and only `restore` decides. Bytes after the envelope are ignored. -/
theorem loadBytes_append (store : LedgerStore) {snapshot : LedgerSnapshot} {more : Bytes}
    (hsize : (encodeLedger snapshot ++ more).length ≤ maxLedgerBytes) :
    store.loadBytes (encodeLedger snapshot ++ more) = store.restore snapshot := by
  have hlength := hsize
  rw [List.length_append] at hlength
  have hfile : (encodeLedger snapshot).length ≤ maxLedgerBytes := by omega
  unfold loadBytes
  rw [if_neg (by omega), deserialize, decode_encodeLedger hfile]
  simp [sealPayload, (deserialize_encodeLedger hfile).2]

theorem loadBytes_encodeLedger (store : LedgerStore) {snapshot : LedgerSnapshot}
    (hsize : (encodeLedger snapshot).length ≤ maxLedgerBytes) :
    store.loadBytes (encodeLedger snapshot) = store.restore snapshot := by
  rw [← List.append_nil (encodeLedger snapshot)] at hsize ⊢
  exact store.loadBytes_append hsize

/-- `restore`, in full: chain ids, distinct addresses and the validator decide, and what comes back is
the snapshot's. -/
theorem restore_ok_iff (store : LedgerStore) (snapshot : LedgerSnapshot) (ledger : RestoredLedger) :
    store.restore snapshot = .ok ledger ↔
      snapshot.chainId = store.chainId ∧ snapshot.state.chainId = store.chainId ∧
      (snapshot.state.accounts.map Prod.fst).Nodup ∧ ledger.state.Lists snapshot.state ∧
      ledger.blocks = snapshot.blocks ∧ ledger.receipts = snapshot.receipts ∧
      ValidChain snapshot.blocks snapshot.receipts store.chainId ledger.state := by
  obtain ⟨state, blocks, receipts⟩ := ledger
  unfold restore
  by_cases hchain : snapshot.chainId ≠ store.chainId ∨ snapshot.state.chainId ≠ store.chainId
  · rw [if_pos hchain]
    constructor
    · intro h; cases h
    · rintro ⟨h, h', -⟩
      exact absurd hchain (by simp [h, h'])
  rw [if_neg hchain]
  simp only [not_or, ne_eq, Decidable.not_not] at hchain
  have hzero : snapshot.state.chainId ≠ 0 := hchain.2 ▸ store.chainId_ne
  rw [← validateChain_ok_iff]
  constructor
  · intro h
    split at h
    · cases h
    · rename_i s hstate
      split at h
      · cases h
      · rename_i hvalid
        cases h
        obtain ⟨-, hnodup, hlists⟩ := State.fromSnapshot_ok_iff.mp hstate
        exact ⟨hchain.1, hchain.2, hnodup, hlists, rfl, rfl, hvalid⟩
  · rintro ⟨-, -, hnodup, hlists, rfl, rfl, hvalid⟩
    rw [State.fromSnapshot_ok_iff.mpr ⟨hzero, hnodup, hlists⟩]
    dsimp only at hvalid ⊢
    rw [hvalid]

/-- `restore` gives back a ledger of this chain exactly when the validator accepts it. -/
theorem restore_snapshot (store : LedgerStore) {state : State} {blocks : List Block} {receipts : List Receipt}
    (hchain : state.chainId = store.chainId) (ledger : RestoredLedger) :
    store.restore ⟨store.chainId, state.snapshot, blocks, receipts⟩ = .ok ledger ↔
      ValidChain blocks receipts store.chainId state ∧ ledger = ⟨state, blocks, receipts⟩ := by
  rw [restore_ok_iff]
  constructor
  · obtain ⟨state', blocks', receipts'⟩ := ledger
    rintro ⟨-, -, -, hlists, rfl, rfl, hvalid⟩
    obtain rfl := hlists.unique state.lists_snapshot
    exact ⟨hvalid, rfl⟩
  · rintro ⟨hvalid, rfl⟩
    exact ⟨rfl, hchain, state.nodup_snapshot, state.lists_snapshot, rfl, rfl, hvalid⟩

end LedgerStore
end
end Subhost
