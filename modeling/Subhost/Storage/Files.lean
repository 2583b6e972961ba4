import Subhost.Storage.Reload
/-!
# Which files load (subhost-storage/src/lib.rs:109-140, 178-187)

A ledger file is `magic ‖ version ‖ checksum ‖ length ‖ payload`, and `load` decodes it twice: the envelope,
and then the payload the checksum is over. Both times `bincode` ignores the bytes that follow.

`corruption_detected`: a flipped bit and a missing end are found all the same. A change of one byte leaves
the first 44 bytes or all the others as they were. In the first case the checksum is the old one, so that the
payload must be the old one; in the second the payload is the old one, so that the checksum must be.

`load_canonical_iff`: what `load` accepts beyond the files of `persist` are the files with bytes after the
envelope, with bytes after the ledger in the payload, or with accounts out of order.
-/
namespace Subhost
open Uint Bincode Codec

/-- One bit of one byte is changed. -/
def flipBit (f : Bytes) (i : Nat) (k : Fin 8) : Bytes := f.modify i fun b => b ^^^ (1 <<< UInt8.ofNat k)

@[simp] theorem length_flipBit (f : Bytes) (i : Nat) (k : Fin 8) : (flipBit f i k).length = f.length := by
  simp [flipBit]

theorem flipBit_ne {f : Bytes} {i : Nat} (h : i < f.length) (k : Fin 8) : flipBit f i k ≠ f := by
  have hbit : ∀ k : Fin 8, (1 : UInt8) <<< UInt8.ofNat k ≠ 0 := by decide
  intro heq
  have hbyte := congrArg (·[i]?) heq
  simp only [flipBit, List.getElem?_modify_eq, List.getElem?_eq_getElem h, Option.map_eq_map, Option.map_some,
    Option.some.injEq] at hbyte
  have hzero : f[i] ^^^ (1 <<< UInt8.ofNat k) = f[i] ^^^ 0 := by rw [hbyte, UInt8.xor_zero]
  exact hbit k ((UInt8.xor_right_inj _).mp hzero)

/-- The byte strings whose checksum `load` computes. -/
def checksummed (f : Bytes) : List Bytes := ((LedgerEnvelope.codec.deserialize f).map LedgerEnvelope.payload).toList

/-- The file is an envelope and nothing else, its payload a ledger and nothing else, and the accounts of the
ledger are in order. -/
def isCanonical (f : Bytes) : Bool :=
  match LedgerEnvelope.codec.decode f with
  | some (envelope, []) =>
    match LedgerSnapshot.codec.decode envelope.payload with
    | some (snapshot, []) => decide snapshot.state.Ordered
    | _ => false
  | _ => false

theorem isCanonical_iff {f : Bytes} {envelope : LedgerEnvelope} {rest : Bytes} {snapshot : LedgerSnapshot} {left : Bytes}
    (henvelope : LedgerEnvelope.codec.decode f = some (envelope, rest))
    (hsnapshot : LedgerSnapshot.codec.decode envelope.payload = some (snapshot, left)) :
    isCanonical f = true ↔ rest = [] ∧ left = [] ∧ snapshot.state.Ordered := by
  unfold isCanonical
  rw [henvelope]
  cases rest with
  | cons b rest => simp
  | nil =>
    dsimp only
    rw [hsnapshot]
    cases left with
    | cons b left => simp
    | nil => simp

/-- The snapshot of a ledger in memory. -/
def RestoredLedger.snapshot (l : RestoredLedger) (chainId : ChainId) : LedgerSnapshot :=
  ⟨chainId, l.state.snapshot, l.blocks, l.receipts⟩

/-! ## The two halves of an envelope -/

/-- Magic, version and checksum. -/
def LedgerEnvelope.head (e : LedgerEnvelope) : Bytes :=
  (array 8).encode e.magic ++ (u32.encode e.version ++ Hash.codec.encode e.checksum)

theorem LedgerEnvelope.length_head (e : LedgerEnvelope) : e.head.length = 44 := by
  simp [head]

theorem LedgerEnvelope.encode_eq (e : LedgerEnvelope) :
    LedgerEnvelope.codec.encode e = e.head ++ bytes.encode e.payload := by
  simp [LedgerEnvelope.codec, head, List.append_assoc]

theorem LedgerEnvelope.take_encode (e : LedgerEnvelope) (rest : Bytes) :
    (LedgerEnvelope.codec.encode e ++ rest).take 44 = e.head := by
  rw [encode_eq, List.append_assoc, List.take_left' e.length_head]

theorem LedgerEnvelope.drop_encode (e : LedgerEnvelope) (rest : Bytes) :
    (LedgerEnvelope.codec.encode e ++ rest).drop 44 = bytes.encode e.payload ++ rest := by
  rw [encode_eq, List.append_assoc, List.drop_left' e.length_head]

theorem hash_eq_of_head [Blake3] {a b : Bytes} (h : (sealPayload a).head = (sealPayload b).head) :
    Blake3.hash a = Blake3.hash b := by
  have hdigests := List.append_cancel_left (List.append_cancel_left h)
  exact (Hash.readsBack _).inj (Hash.readsBack _) hdigests

namespace LedgerStore

section
variable [Blake3]

/-! ## What `load` accepts -/

/-- The part of `load` after the file has been read, in full: a sealed payload, a ledger in it, and what
follows either. -/
theorem loadBytes_ok {store : LedgerStore} {f : Bytes} {ledger : RestoredLedger} (h : store.loadBytes f = .ok ledger) :
    f.length ≤ maxLedgerBytes ∧ ∃ payload rest snapshot left, payload.length ≤ maxLedgerBytes ∧
      LedgerEnvelope.codec.decode f = some (sealPayload payload, rest) ∧
      LedgerSnapshot.codec.decode payload = some (snapshot, left) ∧ store.restore snapshot = .ok ledger := by
  unfold loadBytes at h
  split at h
  · cases h
  rename_i hsize
  have hsize := Nat.le_of_not_lt hsize
  split at h
  · cases h
  rename_i envelope henvelope
  obtain ⟨⟨e, rest⟩, hdecode, rfl⟩ := Option.map_eq_some_iff.mp henvelope
  split at h
  · cases h
  rename_i hmagic
  split at h
  · cases h
  rename_i hversion
  split at h
  · cases h
  rename_i hchecksum
  split at h
  · cases h
  rename_i snapshot hsnapshot
  obtain ⟨⟨p, left⟩, hpayload, rfl⟩ := Option.map_eq_some_iff.mp hsnapshot
  obtain ⟨magic, version, checksum, payload⟩ := e
  simp only [ne_eq, Decidable.not_not] at hmagic hversion hchecksum
  subst hmagic hversion hchecksum
  refine ⟨hsize, payload, rest, p, left, ?_, hdecode, hpayload, h⟩
  rw [LedgerEnvelope.codec.encode_decode f _ rest hdecode, List.length_append, LedgerEnvelope.length_encode] at hsize
  exact Nat.le_trans (Nat.le_trans (Nat.le_add_right _ _) (Nat.le_add_right _ _)) hsize

/-- Whatever `load` returns has passed the validator. -/
theorem validChain_of_load {store : LedgerStore} {d : Disk} {fault : Option String} {ledger : RestoredLedger}
    (h : store.load d fault = .ok ledger) :
    ValidChain ledger.blocks ledger.receipts store.chainId ledger.state := by
  have hempty : ValidChain [] [] store.chainId (State.withChainId store.chainId) :=
    ⟨trivial, rfl, fun r hr => (by cases hr), List.nodup_nil, fun last hlast => (by cases hlast)⟩
  unfold load at h
  split at h
  · cases h
    exact hempty
  · cases h
    exact hempty
  split at h
  · cases h
  · obtain ⟨-, -, -, snapshot, -, -, -, -, hrestore⟩ := loadBytes_ok h
    obtain ⟨-, -, -, -, hblocks, hreceipts, hvalid⟩ := (restore_ok_iff store snapshot ledger).mp hrestore
    rw [hblocks, hreceipts]
    exact hvalid

/-- A file that loads is the file of the ledger it gives exactly if it is canonical. -/
theorem encodeLedger_eq_iff {store : LedgerStore} {f : Bytes} {ledger : RestoredLedger}
    (h : store.loadBytes f = .ok ledger) :
    encodeLedger (ledger.snapshot store.chainId) = f ↔ isCanonical f = true := by
  obtain ⟨hsize, payload, rest, snapshot, left, hlength, henvelope, hsnapshot, hrestore⟩ := loadBytes_ok h
  obtain ⟨hchain, hstate, hnodup, hlists, hblocks, hreceipts, -⟩ := (restore_ok_iff store snapshot ledger).mp hrestore
  rw [isCanonical_iff henvelope hsnapshot]
  constructor
  · intro heq
    -- both encodings are read back, so that nothing is left over and the accounts are those of a snapshot
    have hfit : (encodeLedger (ledger.snapshot store.chainId)).length ≤ maxLedgerBytes := by rwa [heq]
    have houter := decode_encodeLedger hfit []
    rw [List.append_nil, heq, henvelope] at houter
    obtain ⟨hsealed, hrest⟩ := Prod.mk.inj (Option.some.inj houter)
    have hpayload : payload = LedgerSnapshot.codec.encode (ledger.snapshot store.chainId) :=
      congrArg LedgerEnvelope.payload hsealed
    rw [hpayload] at hlength hsnapshot
    have hinner := (readsBack_of_length_le hlength).decode_alone
    obtain ⟨hsame, hleft⟩ := Prod.mk.inj (Option.some.inj (hsnapshot.symm.trans hinner))
    rw [hsame]
    exact ⟨hrest, hleft, ledger.state.ordered_snapshot⟩
  · rintro ⟨rfl, rfl, hordered⟩
    have hsame : ledger.snapshot store.chainId = snapshot := by
      rw [RestoredLedger.snapshot, (hlists.snapshot_eq_iff hnodup).mpr hordered, hblocks, hreceipts, ← hchain]
    have hfile := LedgerEnvelope.codec.encode_decode f _ [] henvelope
    have hpayload := LedgerSnapshot.codec.encode_decode payload snapshot [] hsnapshot
    rw [List.append_nil] at hpayload hfile
    rw [hsame, encodeLedger_eq, ← hpayload, ← hfile]

/-! ## Corrupted files -/

/-- A file of the same length that agrees with a written one before or after byte 44 does not load. -/
theorem eq_of_half {store : LedgerStore} {snapshot : LedgerSnapshot} {g : Bytes} {ledger : RestoredLedger}
    (hsize : (encodeLedger snapshot).length ≤ maxLedgerBytes) (hlength : g.length = (encodeLedger snapshot).length)
    (hhalf : g.take 44 = (encodeLedger snapshot).take 44 ∨ g.drop 44 = (encodeLedger snapshot).drop 44)
    (hcf : CollisionFree (checksummed (encodeLedger snapshot) ++ checksummed g))
    (h : store.loadBytes g = .ok ledger) : g = encodeLedger snapshot := by
  obtain ⟨-, payload, rest, -, -, hread, henvelope, -⟩ := loadBytes_ok h
  have hfile := LedgerEnvelope.codec.encode_decode g _ rest henvelope
  have hwritten : LedgerSnapshot.codec.encode snapshot ∈ checksummed (encodeLedger snapshot) := by
    simp [checksummed, (deserialize_encodeLedger hsize).1]
  have hloaded : payload ∈ checksummed g := by
    simp [checksummed, deserialize, henvelope, sealPayload]
  -- either half determines the payload
  have hpayload : payload = LedgerSnapshot.codec.encode snapshot := by
    have hold : encodeLedger snapshot =
        LedgerEnvelope.codec.encode (sealPayload (LedgerSnapshot.codec.encode snapshot)) ++ [] :=
      (List.append_nil _).symm
    rcases hhalf with hhead | htail
    · rw [hfile, hold, LedgerEnvelope.take_encode, LedgerEnvelope.take_encode] at hhead
      exact hcf _ (List.mem_append_right _ hloaded) _ (List.mem_append_left _ hwritten) (hash_eq_of_head hhead)
    · rw [hfile, hold, LedgerEnvelope.drop_encode, LedgerEnvelope.drop_encode] at htail
      have hlong := length_payload_lt snapshot
      have hmax : maxLedgerBytes < 2 ^ 64 := by decide
      exact ((readsBack_bytes (Nat.lt_of_le_of_lt hread hmax)).append_inj
        (readsBack_bytes (Nat.lt_trans (Nat.lt_of_lt_of_le hlong hsize) hmax)) htail).1
  rw [hfile, hpayload, ← encodeLedger_eq] at hlength ⊢
  rw [List.length_append] at hlength
  have hrest : rest = [] := List.length_eq_zero_iff.mp (by omega)
  rw [hrest, List.append_nil]

/-- A proper beginning of a written file does not even decode. -/
theorem truncated_refused (store : LedgerStore) {snapshot : LedgerSnapshot}
    (hsize : (encodeLedger snapshot).length ≤ maxLedgerBytes) {n : Nat} (hn : n < (encodeLedger snapshot).length) :
    ∃ e, store.loadBytes ((encodeLedger snapshot).take n) = .error e := by
  cases h : store.loadBytes ((encodeLedger snapshot).take n) with
  | error e => exact ⟨e, rfl⟩
  | ok ledger =>
    exfalso
    obtain ⟨hshort, payload, rest, -, -, -, henvelope, -⟩ := loadBytes_ok h
    -- the whole file decodes to the same envelope and leaves what was cut off
    have hwhole := LedgerEnvelope.codec.decode_append henvelope (Nat.lt_of_le_of_lt hshort (by decide))
      ((encodeLedger snapshot).drop n)
    have hold := decode_encodeLedger hsize []
    rw [List.append_nil] at hold
    rw [List.take_append_drop, hold] at hwhole
    have hcut := congrArg List.length (Prod.mk.inj (Option.some.inj hwhole)).2
    rw [List.length_nil, List.length_append, List.length_drop] at hcut
    omega

/-- A flipped bit is found. -/
theorem flipped_refused (store : LedgerStore) {snapshot : LedgerSnapshot}
    (hsize : (encodeLedger snapshot).length ≤ maxLedgerBytes) {i : Nat} (hi : i < (encodeLedger snapshot).length)
    (k : Fin 8) (hcf : CollisionFree (checksummed (encodeLedger snapshot) ++ checksummed (flipBit (encodeLedger snapshot) i k))) :
    ∃ e, store.loadBytes (flipBit (encodeLedger snapshot) i k) = .error e := by
  cases h : store.loadBytes (flipBit (encodeLedger snapshot) i k) with
  | error e => exact ⟨e, rfl⟩
  | ok ledger =>
    refine absurd (eq_of_half hsize (length_flipBit _ _ _) ?_ hcf h) (flipBit_ne hi k)
    by_cases hhead : i < 44
    · exact .inr (List.drop_modify_of_lt _ _ _ _ hhead)
    · refine .inl ?_
      rw [flipBit, List.take_modify, List.modify_eq_self]
      rw [List.length_take]
      omega

/-- A file that some `persist` on the store has put in place, whether or not the call went on to report an
error. -/
def WrittenBy (store : LedgerStore) (f : File) : Prop :=
  ∃ snapshot fault d, d.ledger ≠ some f ∧ (store.persist snapshot fault d).2.ledger = some f

theorem WrittenBy.encoded {store : LedgerStore} {f : File} (h : store.WrittenBy f) :
    store.path.isSome ∧ ∃ snapshot, f.data = encodeLedger snapshot ∧ (encodeLedger snapshot).length ≤ maxLedgerBytes := by
  obtain ⟨snapshot, fault, d, hnew, hfile⟩ := h
  have hpath : store.path.isSome := by
    by_contra hnone
    simp only [Option.isSome_iff_ne_none, ne_eq, Decidable.not_not] at hnone
    refine hnew ?_
    rw [← hfile]
    unfold persist
    rw [hnone]
    split
    · rfl
    · rfl
  refine ⟨hpath, snapshot, ?_⟩
  rcases hresult : store.persist snapshot fault d with ⟨e | u, d'⟩
  · rw [hresult] at hfile
    rcases persist_error hresult with ⟨rfl, -⟩ | ⟨-, -, hsize, fault, -, -, -, hledger⟩
    · exact absurd hfile hnew
    · rw [hfile] at hledger
      split at hledger
      · exact absurd hledger.symm hnew
      · rw [Option.some.inj hledger]
        exact ⟨rfl, hsize⟩
  · rw [hresult] at hfile
    obtain ⟨-, -, ⟨-, rfl⟩ | ⟨hsize, rfl⟩⟩ := persist_ok hresult
    · exact absurd hfile hnew
    · rw [← Option.some.inj hfile]
      exact ⟨rfl, hsize⟩

/-- **Corruption is detected.** Of every file `persist` has written, `load` refuses the version with any one
bit flipped and every proper beginning. -/
theorem corruption_detected (store : LedgerStore) (f : File) (hf : store.WrittenBy f) (synced : Bool)
    (temp : Option File) :
    (∀ (i : Fin f.data.length) (k : Fin 8), CollisionFree (checksummed f.data ++ checksummed (flipBit f.data i k)) →
      ∃ e, store.load ⟨some ⟨flipBit f.data i k, synced⟩, temp⟩ none = .error e) ∧
    ∀ n < f.data.length, ∃ e, store.load ⟨some ⟨f.data.take n, synced⟩, temp⟩ none = .error e := by
  obtain ⟨hpath, snapshot, hdata, hsize⟩ := hf.encoded
  obtain ⟨data, written⟩ := f
  obtain rfl : data = encodeLedger snapshot := hdata
  obtain ⟨path, hpath⟩ := Option.isSome_iff_exists.mp hpath
  have hload : ∀ data, store.load ⟨some ⟨data, synced⟩, temp⟩ none = store.loadBytes data := by
    intro data
    simp [load, hpath]
  constructor
  · intro i k hcf
    rw [hload]
    exact store.flipped_refused hsize i.isLt k hcf
  · intro n hn
    rw [hload]
    exact store.truncated_refused hsize hn

/-- What `persist` would write for a ledger that was read from a file. -/
theorem persist_again_iff {store : LedgerStore} {path : LedgerPath} (hpath : store.path = some path) {f : Bytes}
    {ledger : RestoredLedger} (h : store.loadBytes f = .ok ledger) :
    (∀ d, store.persist (ledger.snapshot store.chainId) none d = (.ok (), ⟨some ⟨f, true⟩, none⟩)) ↔
      isCanonical f = true := by
  obtain ⟨hsize, -, -, snapshot, -, -, -, -, hrestore⟩ := loadBytes_ok h
  obtain ⟨-, hstate, -, hlists, -⟩ := (restore_ok_iff store snapshot ledger).mp hrestore
  have hchain : ledger.state.chainId = store.chainId := hlists.1.trans hstate
  rw [← encodeLedger_eq_iff h]
  constructor
  · intro hwrites
    obtain ⟨-, -, ⟨hnone, -⟩ | ⟨-, hdisk⟩⟩ := persist_ok (hwrites ⟨none, none⟩)
    · rw [hpath] at hnone
      cases hnone
    · simpa [eq_comm] using hdisk
  · intro heq d
    have hok := store.persist_of_chain (ledger.snapshot store.chainId) rfl hchain d
    rw [if_neg (by rw [heq]; omega)] at hok
    have hresult : store.persist (ledger.snapshot store.chainId) none d =
        (.ok (), (store.persist (ledger.snapshot store.chainId) none d).2) := Prod.ext hok rfl
    obtain ⟨-, -, ⟨hnone, -⟩ | ⟨-, hdisk⟩⟩ := persist_ok hresult
    · rw [hpath] at hnone
      cases hnone
    · rw [hresult, hdisk, heq]

/-- **Which files are canonical.** Of a file that loads, `persist` would write exactly the same bytes for the
ledger it gives if and only if nothing follows the envelope, nothing follows the ledger in its payload, and
the accounts are listed by increasing address. -/
theorem load_canonical_iff (store : LedgerStore) (path : LedgerPath) (hpath : store.path = some path) (f : File)
    (temp : Option File) (ledger : RestoredLedger) (hload : store.load ⟨some f, temp⟩ none = .ok ledger) :
    (∀ d, store.persist (ledger.snapshot store.chainId) none d = (.ok (), ⟨some ⟨f.data, true⟩, none⟩)) ↔
      isCanonical f.data = true := by
  rw [load, hpath] at hload
  exact persist_again_iff hpath hload

end

section
open State (creditedUp descendingSnapshot)
open scoped Concrete

/-- Two accounts and no block. -/
def creditedLedger : LedgerSnapshot := ⟨1, creditedUp.snapshot, [], []⟩

def creditedFile : File := ⟨encodeLedger creditedLedger, true⟩

/-- Bit 7 of byte 44 makes the length of the payload zero, and all of it is ignored. -/
theorem corruption_detected_length :
    (∃ e, plainStore.load ⟨some ⟨flipBit creditedFile.data 44 7, true⟩, none⟩ none = .error e) ∧
    ∃ e, plainStore.load ⟨some ⟨creditedFile.data.take 52, true⟩, none⟩ none = .error e := by
  have hwritten : plainStore.WrittenBy creditedFile :=
    ⟨creditedLedger, none, ⟨none, none⟩, by decide, by decide +kernel⟩
  have hlength : creditedFile.data.length = 180 := by decide +kernel
  have hcf : CollisionFree (checksummed creditedFile.data ++ checksummed (flipBit creditedFile.data 44 7)) := by
    decide +kernel
  obtain ⟨hflipped, htruncated⟩ := corruption_detected plainStore creditedFile hwritten true none
  exact ⟨hflipped ⟨44, by omega⟩ 7 hcf, htruncated 52 (by omega)⟩

theorem load_credited (more : Bytes) (h : (creditedFile.data ++ more).length ≤ maxLedgerBytes) :
    plainStore.load ⟨some ⟨creditedFile.data ++ more, true⟩, none⟩ none = .ok ⟨creditedUp, [], []⟩ := by
  have hvalid : ValidChain [] [] 1 creditedUp := validateChain_ok_iff.mp (by decide +kernel)
  show plainStore.loadBytes (encodeLedger creditedLedger ++ more) = _
  rw [plainStore.loadBytes_append h]
  exact (plainStore.restore_snapshot rfl _).mpr ⟨hvalid, rfl⟩

theorem load_canonical_credited :
    (∀ d, plainStore.persist creditedLedger none d = (.ok (), ⟨some creditedFile, none⟩)) ∧
    ¬ ∀ d, plainStore.persist creditedLedger none d = (.ok (), ⟨some ⟨creditedFile.data ++ [0], true⟩, none⟩) := by
  have halone := load_credited [] (by decide +kernel)
  rw [List.append_nil] at halone
  constructor
  · exact (load_canonical_iff plainStore _ rfl creditedFile none _ halone).mpr (by decide +kernel)
  · intro h
    have hpadded := load_credited [0] (by decide +kernel)
    have hcanonical := (load_canonical_iff plainStore _ rfl _ none _ hpadded).mp h
    exact absurd hcanonical (by decide +kernel)

/-- The file loads, and is not what `persist` would write for the ledger it gives. -/
def LoadsAltered (store : LedgerStore) (f : Bytes) : Prop :=
  ∃ ledger, store.load ⟨some ⟨f, true⟩, none⟩ none = .ok ledger ∧
    ¬ ∀ d, store.persist (ledger.snapshot store.chainId) none d = (.ok (), ⟨some ⟨f, true⟩, none⟩)

theorem loadsAltered_plainStore {f : Bytes}
    (h : (plainStore.loadBytes f).isOk = true ∧ isCanonical f = false) : plainStore.LoadsAltered f := by
  obtain ⟨hok, hbad⟩ := h
  cases hresult : plainStore.loadBytes f with
  | error e =>
    rw [hresult] at hok
    cases hok
  | ok ledger =>
    refine ⟨ledger, hresult, fun hwrites => ?_⟩
    rw [persist_again_iff rfl hresult, hbad] at hwrites
    cases hwrites

/-- One byte after the envelope; one byte after the ledger in the payload; accounts out of order. -/
theorem altered_files_load :
    plainStore.LoadsAltered (encodeLedger creditedLedger ++ [0]) ∧
    plainStore.LoadsAltered
      (LedgerEnvelope.codec.encode (sealPayload (LedgerSnapshot.codec.encode creditedLedger ++ [0]))) ∧
    plainStore.LoadsAltered (encodeLedger ⟨1, descendingSnapshot, [], []⟩) :=
  ⟨loadsAltered_plainStore (by decide +kernel), loadsAltered_plainStore (by decide +kernel),
    loadsAltered_plainStore (by decide +kernel)⟩

end
end LedgerStore
end Subhost
