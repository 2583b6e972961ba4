import Subhost.Lib.JsonCut
import Subhost.Node.Allocations
import Subhost.Node.Crash
import Subhost.Rpc.Wire
/-!
# Genesis files (subhost-core/src/lib.rs:346-508, subhost-node/src/lib.rs:65-191)

| here | there |
| --- | --- |
| `GenesisDocument`, `GenesisDocument.format` | `GenesisConfig` with the derived `Serialize` and `Deserialize` |
| `GenesisDocument.toJson`, `save`            | `GenesisConfig::save` (lib.rs:438) |
| `GenesisDocument.load`                      | `GenesisConfig::load` (lib.rs:430) |
| `loadFile`                                  | `load_genesis` (node lib.rs:186) |
| `startNode`                                 | `Node::bootstrap` (node lib.rs:65) on the file as it lies there |

`save` replaces the file with `std::fs::write`: it is emptied first and then written, without a temporary file and
without a sync. What an interrupted `save` leaves is the front of the text.

`load_toJson`: what was saved is loaded. `load_take`: no other document is ever read from the front of a saved one,
because a text that lost its end is not one (`load_cut`). `bootstrap_resolve` says which set-up a node starts with.
-/
namespace Subhost
open Uint Bincode JsonText

/-- `GenesisConfig` (lib.rs:348) with its time. -/
structure GenesisDocument extends GenesisConfig where
  genesisTime : Timestamp

/-- The errors of `load` and `save`: `GenesisRead`, `GenesisWrite`, `GenesisDecode` and `InvalidGenesis` of `CoreError`,
up to the texts of serde_json. -/
inductive GenesisError where
  | read (path message : String)
  | write (path message : String)
  | decode
  | invalid (e : CoreError)
deriving DecidableEq

/-! ## The document -/

/-- An address is a newtype of `[u8; 20]`. -/
def addressFormat : Format Address := .as (.list .byte) Vector.toList (toArray? addressSize) toArray?_toList

/-- The derived `Serialize` and `Deserialize`. -/
def ValidatorInfo.format : Format ValidatorInfo :=
  Members.format
    (.required "address" addressFormat (.required "public_key" (.list .byte)
      (.required "power" (.unsigned 64) .none (by decide)) (by decide)) (by decide))
    (fun v => (v.address, v.publicKey, v.power, ())) (fun m => ⟨m.1, m.2.1, m.2.2.1⟩) fun _ => rfl

/-- `Allocation` (lib.rs:467). -/
def allocationFormat : Format (String × String) :=
  Members.format (.required "address" .text (.required "balance" .text .none (by decide)) (by decide))
    (fun p => (p.1, p.2, ())) (fun m => (m.1, m.2.1)) fun _ => rfl

/-- `genesis_allocations` (lib.rs:461). -/
def allocationsFormat : Format (Map Address Amount) :=
  .as (.list allocationFormat) (fun m => GenesisConfig.serializeAllocations m.toList)
    (fun entries => (GenesisConfig.deserializeAllocations entries).bind Except.toOption)
    fun m => by rw [GenesisConfig.deserialize_serialize (List.Perm.refl m.toList)]; rfl

namespace GenesisDocument

/-- The members of the document, in the order of the fields. -/
def members : Members (ChainId × List ValidatorInfo × Map Address Amount × U64 × Gas × Timestamp × Unit) :=
  .required "chain_id" (.unsigned 64) (.required "initial_validators" (.list ValidatorInfo.format)
    (.required "allocations" allocationsFormat (.required "block_time_ms" (.unsigned 64)
      (.required "gas_limit" (.unsigned 64) (.required "genesis_time" (.unsigned 64) .none (by decide)) (by decide))
      (by decide)) (by decide)) (by decide)) (by decide)

/-- The derived `Serialize` and `Deserialize`. -/
def format : Format GenesisDocument :=
  members.format
    (fun g => (g.chainId, g.initialValidators, g.allocations, g.blockTimeMs, g.gasLimit, g.genesisTime, ()))
    (fun m => ⟨⟨m.1, m.2.1, m.2.2.1, m.2.2.2.1, m.2.2.2.2.1⟩, m.2.2.2.2.2.1⟩) fun _ => rfl

/-- What `save` writes: `serde_json::to_string_pretty` (lib.rs:440). -/
def toJson (g : GenesisDocument) : Bytes := utf8 (format.toText .pretty g)

/-- `GenesisConfig::load` (lib.rs:430) on the content of the file; `fault` is an error of reading it. -/
def load (path : String) (content : Bytes) (fault : Option String) : Except GenesisError GenesisDocument :=
  match fault with
  | some message => .error (.read path message)
  | none =>
    match content.toByteArray.utf8Decode? with
    | none => .error (.read path "stream did not contain valid UTF-8")
    | some chars =>
      match format.ofText hexValue chars.toList with
      | none => .error .decode
      | some g =>
        match g.validate with
        | .error e => .error (.invalid e)
        | .ok () => .ok g

/-- How `std::fs::write` goes: it may not open the file, or stop after some bytes. -/
inductive Writing where
  | done
  | unopened (message : String)
  | stopped (written : Nat) (message : String)

/-- `std::fs::write`. The file is emptied when it is opened. -/
def Writing.run (data : Bytes) (file : Option Bytes) : Writing → Except String Unit × Option Bytes
  | .done => (.ok (), some data)
  | .unopened message => (.error message, file)
  | .stopped written message => (.error message, some (data.take written))

/-- `GenesisConfig::save` (lib.rs:438). -/
def save (g : GenesisDocument) (path : String) (file : Option Bytes) (writing : Writing) :
    Except GenesisError Unit × Option Bytes :=
  match g.validate with
  | .error e => (.error (.invalid e), file)
  | .ok () =>
    let (r, file) := writing.run g.toJson file
    (r.mapError (.write path), file)

/-! ## Reading back -/

theorem utf8_of_decode {bytes : Bytes} {chars : Array Char} (h : bytes.toByteArray.utf8Decode? = some chars) :
    utf8 chars.toList = bytes := by
  have hencode := @ByteArray.utf8Encode_get_utf8Decode? bytes.toByteArray (Option.isSome_iff_exists.mpr ⟨chars, h⟩)
  simp only [h, Option.get_some] at hencode
  exact List.toByteArray_inj.mp hencode

/-- **What was saved is loaded.** -/
theorem load_toJson {g : GenesisDocument} (h : g.validate = .ok ()) (path : String) :
    load path g.toJson none = .ok g := by
  have hdecode : g.toJson.toByteArray.utf8Decode? = some (format.toText .pretty g).toArray := List.utf8Decode?_utf8Encode
  unfold load
  rw [hdecode]
  dsimp only
  rw [format.ofText_toText Json.readsHex_hexValue]
  dsimp only
  rw [h]

/-- **The front of a saved document is not a document**, wherever it ends. -/
theorem load_cut {g : GenesisDocument} {cut lost : Bytes} (hcut : g.toJson = cut ++ lost) (hlost : lost ≠ [])
    (path : String) : ∃ e, load path cut none = .error e ∧ (e = .decode ∨ ∃ message, e = .read path message) := by
  unfold load
  cases hdecode : cut.toByteArray.utf8Decode? with
  | none => exact ⟨_, rfl, .inr ⟨_, rfl⟩⟩
  | some chars =>
    -- the characters in front of the cut are the first ones of the text
    have hencode := utf8_of_decode hdecode
    obtain ⟨rest, hrest⟩ : chars.toList <+: format.toText .pretty g := by
      refine List.isPrefix_of_utf8Encode_append_eq_utf8Encode lost.toByteArray ?_
      change (utf8 chars.toList).toByteArray ++ lost.toByteArray = g.toJson.toByteArray
      rw [hencode, ← List.toByteArray_append, ← hcut]
    have hne : rest ≠ [] := by
      rintro rfl
      rw [List.append_nil] at hrest
      rw [toJson, ← hrest, hencode] at hcut
      exact hlost (List.append_right_eq_self.mp hcut.symm)
    dsimp only
    rw [format, ofText_cut members _ _ _ Json.readsHex_hexValue .pretty hrest.symm hne]
    exact ⟨_, rfl, .inl rfl⟩

/-- Whatever an interrupted `save` left, only the document that it was saving is read from it. -/
theorem load_take {g g' : GenesisDocument} {written : Nat} {path : String} {fault : Option String}
    (hvalid : g.validate = .ok ()) (h : load path (g.toJson.take written) fault = .ok g') : g' = g := by
  cases fault with
  | some message => cases h
  | none =>
    by_cases hall : g.toJson.length ≤ written
    · rw [List.take_of_length_le hall, load_toJson hvalid] at h
      exact (Except.ok.inj h).symm
    · have hlost : g.toJson.drop written ≠ [] := by simpa using hall
      obtain ⟨e, he, -⟩ := load_cut (List.take_append_drop written g.toJson).symm hlost path
      rw [he] at h
      cases h

end GenesisDocument

/-! ## Starting a node -/

/-- The errors of `bootstrap` with those of the genesis file. -/
inductive StartError where
  | genesis (e : GenesisError)
  | node (e : NodeError)
deriving DecidableEq

/-- The I/O errors of a bootstrap, with that of reading the genesis file. -/
structure StartFaults extends BootFaults where
  genesis : Option String

def StartFaults.none : StartFaults := ⟨.none, .none⟩

/-- `load_genesis` (node lib.rs:186). -/
def loadFile (path : String) (file : Option Bytes) (fault : Option String) :
    Except GenesisError (Option GenesisDocument) :=
  match file with
  | none => .ok none
  | some content => (GenesisDocument.load path content fault).map some

section
variable [Blake3]

/-- `Node::bootstrap` (node lib.rs:65): the directory, the genesis file, and all the rest. -/
def startNode (config : NodeConfig) (file : Option Bytes) (d : Disk) (faults : StartFaults) :
    Except StartError RpcState × Disk :=
  match faults.dataDir with
  | some message => (.error (.node (.dataDir config.dataDir message)), d)
  | none =>
    match loadFile config.genesisPath file faults.genesis with
    | .error e => (.error (.genesis e), d)
    | .ok genesis =>
      let (r, d) := bootstrap config (genesis.map GenesisDocument.toGenesisConfig) d faults.toBootFaults
      (r.mapError .node, d)

end

/-! ### The set-up of a node -/

/-- A node without a genesis file: the fallback chain, and no balances. -/
def NodeSetup.withoutGenesis (config : NodeConfig) (hmode : config.validator = false) (hchain : config.fallbackChainId ≠ 0) :
    NodeSetup where
  config := config
  genesis := ⟨config.fallbackChainId, [], ∅, defaultBlockTimeMs, blockGasLimit⟩
  valid := by rw [GenesisConfig.validate, if_neg hchain]; rfl
  validators h := absurd h (by simp [hmode])

/-- What the node is set up with, before it opens its ledger (node lib.rs:73-90). -/
def resolve (config : NodeConfig) : Option GenesisConfig → Except NodeError NodeSetup
  | none =>
    if hmode : config.validator = false then
      if hchain : config.fallbackChainId = 0 then .error .invalidChainId else .ok (.withoutGenesis config hmode hchain)
    else .error (.missingGenesis config.genesisPath)
  | some g =>
    match hvalid : g.validate with
    | .error e => .error (.genesis e)
    | .ok () =>
      match hmode : g.requiresValidators with
      | .error e =>
        if hv : config.validator = false then .ok ⟨config, g, hvalid, fun h => absurd h (by simp [hv])⟩
        else .error (.genesis e)
      | .ok () => .ok ⟨config, g, hvalid, fun _ => hmode⟩

theorem openNode_withoutGenesis (config : NodeConfig) (hmode : config.validator = false)
    (hchain : config.fallbackChainId ≠ 0) :
    openNode config none .none = .ok (none, (NodeSetup.withoutGenesis config hmode hchain).store) := by
  have hopen : LedgerStore.openAt config.fallbackChainId config.dataDir none =
      .ok (NodeSetup.withoutGenesis config hmode hchain).store := by
    rw [LedgerStore.openAt, dif_neg hchain]
    rfl
  unfold openNode
  simp only [BootFaults.none, loadGenesis, checkMode, hmode, if_pos, Option.elim_none, if_neg hchain, hopen]

/-- A set-up has the genesis of the file, or there is none. -/
theorem resolve_ok {config : NodeConfig} {file : Option GenesisConfig} {n : NodeSetup} (h : resolve config file = .ok n) :
    n.config = config ∧ (file = some n.genesis ∨ file = none ∧ n.allocations = [] ∧
      openNode config file .none = .ok (none, n.store)) := by
  unfold resolve at h
  split at h
  · split at h
    · rename_i hmode
      split at h
      · cases h
      · rename_i hchain
        cases h
        exact ⟨rfl, .inr ⟨rfl, rfl, openNode_withoutGenesis config hmode hchain⟩⟩
    · cases h
  · split at h
    · cases h
    · split at h
      · split at h
        · cases h
          exact ⟨rfl, .inl rfl⟩
        · cases h
      · cases h
        exact ⟨rfl, .inl rfl⟩

theorem resolve_error {config : NodeConfig} {file : Option GenesisConfig} {e : NodeError}
    (h : resolve config file = .error e) : openNode config file .none = .error e := by
  unfold resolve at h
  split at h
  · split at h
    · rename_i hmode
      split at h
      · rename_i hchain
        cases h
        simp [openNode, BootFaults.none, loadGenesis, checkMode, hmode, hchain]
      · cases h
    · rename_i hmode
      cases h
      simp [openNode, BootFaults.none, loadGenesis, checkMode, hmode]
  · split at h
    · rename_i hvalid
      cases h
      simp [openNode, BootFaults.none, loadGenesis, hvalid]
    · rename_i hvalid
      split at h
      · rename_i hmode
        split at h
        · cases h
        · rename_i hv
          cases h
          simp [openNode, BootFaults.none, loadGenesis, hvalid, checkMode, hv, hmode]
      · cases h

section
variable [Blake3]

/-- **A bootstrap is that of its set-up.** Without a genesis file nothing is allocated, so the genesis that stands for it
changes nothing. -/
theorem bootstrap_resolve (config : NodeConfig) (file : Option GenesisConfig) (d : Disk) :
    bootstrap config file d .none =
      match resolve config file with
      | .error e => (.error e, d)
      | .ok n => bootstrap n.config (some n.genesis) d .none := by
  cases hresolve : resolve config file with
  | error e => rw [bootstrap, resolve_error hresolve]
  | ok n =>
    obtain ⟨rfl, rfl | ⟨-, hnone, hopen⟩⟩ := resolve_ok hresolve
    · rfl
    · dsimp only
      rw [n.bootstrap_eq, bootstrap, hopen]
      dsimp only [BootFaults.none]
      cases RpcState.withStore n.store d none with
      | error e => rfl
      | ok s => simp [applyGenesis, show n.genesis.allocations.toList = [] from hnone]

/-! ### A new ledger -/

omit [Blake3] in
/-- Balances that are set on different new accounts. -/
theorem account_setBalances_iff {s : State} {ps : List (Address × Amount)} (hnodup : (ps.map Prod.fst).Nodup)
    (hnew : ∀ p ∈ ps, s.account p.1 = none) {a : Address} {acct : Account} :
    (setBalances s ps).account a = some acct ↔
      (∃ b, (a, b) ∈ ps ∧ acct = ⟨0, b⟩) ∨ (a ∉ ps.map Prod.fst ∧ s.account a = some acct) := by
  induction ps generalizing s with
  | nil => simp [setBalances]
  | cons p ps ih =>
    obtain ⟨hp, hnodup⟩ := List.nodup_cons.mp hnodup
    obtain ⟨hnone, hnew⟩ := List.forall_mem_cons.mp hnew
    have hnew' : ∀ q ∈ ps, (s.setBalance p.1 p.2).account q.1 = none := by
      intro q hq
      have hne : p.1 ≠ q.1 := fun heq => hp (heq ▸ List.mem_map_of_mem hq)
      rw [State.account_setBalance_ne s p.2 hne]
      exact hnew q hq
    rw [show setBalances s (p :: ps) = setBalances (s.setBalance p.1 p.2) ps from rfl, ih hnodup hnew']
    by_cases ha : a = p.1
    · subst ha
      have hnot : ∀ b, (p.1, b) ∉ ps := fun b hmem => hp (List.mem_map.mpr ⟨_, hmem, rfl⟩)
      have hnonce : s.nonce p.1 = 0 := by rw [State.nonce, hnone]; rfl
      rw [State.account_setBalance_self, hnonce]
      simp only [hnot, false_and, exists_false, false_or, hp, not_false_eq_true, true_and, Option.some.injEq,
        List.map_cons, List.mem_cons_self, not_true_eq_false, or_false, List.mem_cons]
      constructor
      · rintro rfl
        exact ⟨p.2, rfl, rfl⟩
      · rintro ⟨b, hb, rfl⟩
        rw [← hb]
    · have hne : ∀ b, (a, b) ≠ p := fun b heq => ha (heq ▸ rfl)
      rw [State.account_setBalance_ne s p.2 (Ne.symm ha)]
      simp [ha, hne]

omit [Blake3] in
theorem account_genesisLedger (n : NodeSetup) {a : Address} {acct : Account} :
    n.genesisLedger.state.account a = some acct ↔ ∃ b, (a, b) ∈ n.allocations ∧ acct = ⟨0, b⟩ := by
  have hempty : ∀ a, (State.withChainId n.chainId).account a = none := fun _ => rfl
  refine (account_setBalances_iff (Map.nodup_keys_toList n.genesis.allocations) fun p _ => hempty p.1).trans ?_
  exact or_iff_left fun h => by cases h.2

omit [Blake3] in
/-- Every balance is that of the genesis file. -/
theorem balance_genesisLedger (n : NodeSetup) (a : Address) :
    n.genesisLedger.state.balance a = (n.genesis.allocations[a]?).getD 0 := by
  cases hget : n.genesis.allocations[a]? with
  | some b =>
    have haccount := (account_genesisLedger n).mpr ⟨b, Map.mem_toList.mpr hget, rfl⟩
    rw [State.balance, haccount]
    rfl
  | none =>
    rw [State.balance]
    cases haccount : n.genesisLedger.state.account a with
    | none => rfl
    | some acct =>
      obtain ⟨b, hmem, -⟩ := (account_genesisLedger n).mp haccount
      rw [Map.mem_toList.mp hmem] at hget
      cases hget

/-- A genesis ledger takes 44 bytes for each account. -/
theorem length_genesisLedger (n : NodeSetup) :
    (encodeLedger (n.genesisLedger.snapshot n.chainId)).length = 92 + 44 * n.allocations.length := by
  have hcount : n.genesisLedger.state.snapshot.accounts.length = n.allocations.length := by
    have hperm : n.genesisLedger.state.accounts.toList.Perm (n.allocations.map fun p => (p.1, (⟨0, p.2⟩ : Account))) := by
      refine (List.perm_ext_iff_of_nodup (Map.nodup_toList _) ?_).mpr ?_
      · refine List.Nodup.of_map Prod.fst ?_
        rw [List.map_map]
        exact Map.nodup_keys_toList n.genesis.allocations
      · rintro ⟨a, acct⟩
        rw [Map.mem_toList]
        refine (account_genesisLedger n).trans ?_
        simp only [List.mem_map, Prod.mk.injEq, Prod.exists]
        constructor
        · rintro ⟨b, hmem, rfl⟩
          exact ⟨a, b, hmem, rfl, rfl⟩
        · rintro ⟨a', b, hmem, rfl, rfl⟩
          exact ⟨b, hmem, rfl⟩
    rw [State.snapshot, (sortByKey_perm _ _).length_eq, hperm.length_eq, List.length_map]
  have hentries : (n.genesisLedger.state.snapshot.accounts.flatMap (Codec.pair Address.codec Account.codec).encode).length =
      44 * n.allocations.length := by
    rw [← hcount]
    simp [List.length_flatMap, Account.codec, Nat.mul_comm]
  change (encodeLedger ⟨n.chainId, n.genesisLedger.state.snapshot, [], []⟩).length = _
  simp only [encodeLedger, LedgerEnvelope.length_encode, LedgerSnapshot.codec, StateSnapshot.codec, Codec.encode_iso,
    Codec.encode_pair, List.length_append, Codec.length_encode_list, Codec.length_encode_u64, hentries,
    List.flatMap_nil, List.length_nil]
  omega

theorem inv_unwritten (n : NodeSetup) {d : Disk} (h : d.ledger = none) : n.Inv ⟨d, none, []⟩ :=
  ⟨⟨fun _ hc => (by cases hc), h⟩, fun _ hs => (by cases hs), fun hup => absurd rfl hup, rfl⟩

/-- **The first start of a set-up**: the genesis ledger, if it fits into a file, and otherwise an error. -/
theorem bootstrap_first (n : NodeSetup) {d : Disk} (h : d.ledger = none) :
    (92 + 44 * n.allocations.length ≤ maxLedgerBytes → ∃ s, (bootstrap n.config (some n.genesis) d .none).1 = .ok s ∧
      s.chainId = n.chainId ∧ s.ledger = n.genesisLedger) ∧
    (maxLedgerBytes < 92 + 44 * n.allocations.length →
      ∃ e, bootstrap n.config (some n.genesis) d .none = (.error (.rpc e), d)) := by
  have hinv := inv_unwritten n h
  refine ⟨?_, ?_⟩
  · intro hsize
    rw [← length_genesisLedger] at hsize
    obtain ⟨s, hs, hledger, -⟩ := NodeSetup.bootstrap_succeeds hinv hsize (by intro x hx; cases hx)
    have hcurrent := (hinv.step (.boot none)).current s (by
      simp only [NodeSetup.step, hs]
      rfl)
    exact ⟨s, hs, hcurrent.chain, hledger⟩
  · intro hsize
    have halloc : n.allocations ≠ [] := by
      intro hnil
      rw [hnil] at hsize
      exact absurd hsize (by decide)
    rw [NodeSetup.bootstrap_fresh h, if_neg halloc]
    rcases NodeSetup.seed_fresh_cases n d with ⟨-, e, s, hseed⟩ | ⟨hw, -⟩
    · rw [hseed]
      exact ⟨e, rfl⟩
    · have := hw.size
      rw [length_genesisLedger] at this
      omega

end
end Subhost
