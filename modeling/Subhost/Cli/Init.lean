import Subhost.Node.Genesis
import Subhost.Wallet.File
/-!
# `subhost init` and the directory it founds (subhost-cli/src/main.rs:270-356)

| here | there |
| --- | --- |
| `parseAllocation`, `parseValidator` | the same (main.rs:320, :334) |
| `genesisOf`                         | the document that `init_genesis` puts together (main.rs:288-297) |
| `initGenesis`                       | the same (main.rs:270) |
| `Directory`, `Directory.step`       | a data directory with the commands that run on it |

A data directory holds the genesis file and the ledger. `init` writes the first, with `--force` also over an old one;
`node` reads it, and writes the ledger. The commands are run in any order, an `init` may stop at any byte, and the
machine may crash, which costs unsynced data and the end of the genesis file.

`init_starts`: a directory that was just initialised starts with the balances of the command line. `torn_init_refused`:
one whose `init` was interrupted does not start. `one_genesis`: once a ledger was written, it belongs to the genesis of
one `init`, and no later `init` changes that.
-/
namespace Subhost.Cli
open Uint Bincode Run JsonText

/-! ## The command line -/

/-- `str::split_once`. -/
def splitOnce (separator : Char) (text : List Char) : Option (List Char × List Char) :=
  match text.dropWhile (· ≠ separator) with
  | [] => none
  | _ :: rest => some (text.takeWhile (· ≠ separator), rest)

/-- `str::rsplit_once`. -/
def rsplitOnce (separator : Char) (text : List Char) : Option (List Char × List Char) :=
  (splitOnce separator text.reverse).map fun p => (p.2.reverse, p.1.reverse)

/-- The errors of `init_genesis`, with the argument they quote. -/
inductive InitError where
  /-- "cannot create {dir}" -/
  | cannotCreate (dir message : String)
  /-- "{path} already exists; pass --force to overwrite it" -/
  | alreadyExists (path : String)
  /-- "allocation {value:?} must use ADDRESS=BALANCE" -/
  | allocationForm (value : String)
  /-- "invalid allocation address in {value:?}" -/
  | allocationAddress (value : String)
  /-- "invalid allocation balance in {value:?}" -/
  | allocationBalance (value : String) (kind : Radix.IntErrorKind)
  /-- "duplicate genesis allocation for {address}" -/
  | duplicateAllocation (address : Address)
  /-- "validator {value:?} must use ADDRESS=PUBKEY_HEX:POWER" -/
  | validatorForm (value : String)
  /-- "invalid validator address in {value:?}" -/
  | validatorAddress (value : String)
  /-- "invalid validator public key in {value:?}" -/
  | validatorKey (value : String)
  /-- "validator {value:?} has an empty public key" -/
  | emptyKey (value : String)
  /-- "invalid validator power in {value:?}" -/
  | validatorPower (value : String) (kind : Radix.IntErrorKind)
  /-- "cannot write {path}" -/
  | cannotWrite (path : String) (e : GenesisError)
deriving DecidableEq

/-- `parse_allocation` (main.rs:320). -/
def parseAllocation (value : String) : Except InitError (Address × Amount) :=
  match splitOnce '=' value.toList with
  | none => .error (.allocationForm value)
  | some (address, balance) =>
    match Address.fromHex (trim (String.ofList address)) with
    | none => .error (.allocationAddress value)
    | some a =>
      match parseAmount (trim (String.ofList balance)) with
      | .error kind => .error (.allocationBalance value kind)
      | .ok b => .ok (a, b)

/-- `power.trim().parse::<u64>()`. -/
def parsePower (text : String) : Except Radix.IntErrorKind U64 :=
  Radix.parse 10 (fun byte => Radix.decimalValue (Char.ofNat byte.toNat)) 43 45 64 (utf8 text.toList)

/-- `parse_validator` (main.rs:334). -/
def parseValidator (value : String) : Except InitError ValidatorInfo :=
  match splitOnce '=' value.toList with
  | none => .error (.validatorForm value)
  | some (address, rest) =>
    match rsplitOnce ':' rest with
    | none => .error (.validatorForm value)
    | some (publicKey, power) =>
      match Address.fromHex (trim (String.ofList address)) with
      | none => .error (.validatorAddress value)
      | some a =>
        match hexDecode (Wallet.trimStart0x (trim (String.ofList publicKey)).toList) with
        | none => .error (.validatorKey value)
        | some key =>
          if key.isEmpty then .error (.emptyKey value)
          else
            match parsePower (trim (String.ofList power)) with
            | .error kind => .error (.validatorPower value kind)
            | .ok p => .ok ⟨a, key, p⟩

/-- The arguments of `init`. -/
structure InitArgs where
  chainId : ChainId
  allocations : List String
  validators : List String
  force : Bool

/-- The loop over the allocations (main.rs:289-294). -/
def addAllocations : Map Address Amount → List String → Except InitError (Map Address Amount)
  | m, [] => .ok m
  | m, value :: rest =>
    match parseAllocation value with
    | .error e => .error e
    | .ok (a, b) =>
      match m[a]? with
      | some _ => .error (.duplicateAllocation a)
      | none => addAllocations (m.insert a b) rest

/-- The document of the arguments, at the time `now` (main.rs:288-297). -/
def genesisOf (args : InitArgs) (now : Timestamp) : Except InitError GenesisDocument := do
  let allocations ← addAllocations ∅ args.allocations
  let validators ← args.validators.mapM parseValidator
  return ⟨⟨args.chainId, validators, allocations, defaultBlockTimeMs, blockGasLimit⟩, now⟩

/-- What `init` prints. -/
structure InitReport where
  path : String
  chainId : ChainId
  allocations : Nat
  validators : Nat
deriving DecidableEq

/-- `data_dir.join(GENESIS_FILE_NAME)`. -/
def genesisPath (dir : String) : String := dir ++ "/genesis.json"

/-- `init_genesis` (main.rs:270); `created` is an error of creating the directory. -/
def initGenesis (dir : String) (args : InitArgs) (now : Timestamp) (created : Option String)
    (writing : GenesisDocument.Writing) (file : Option Bytes) : Except InitError InitReport × Option Bytes :=
  match created with
  | some message => (.error (.cannotCreate dir message), file)
  | none =>
    if file.isSome ∧ args.force = false then (.error (.alreadyExists (genesisPath dir)), file)
    else
      match genesisOf args now with
      | .error e => (.error e, file)
      | .ok g =>
        match g.save (genesisPath dir) file writing with
        | (.error e, file) => (.error (.cannotWrite (genesisPath dir) e), file)
        | (.ok (), file) =>
          (.ok ⟨genesisPath dir, args.chainId, g.allocations.size, g.initialValidators.length⟩, file)

/-! ### What the arguments ask for -/

theorem addAllocations_ok {m out : Map Address Amount} {values : List String} (h : addAllocations m values = .ok out) :
    ∃ ps, List.Forall₂ (fun value p => parseAllocation value = .ok p) values ps ∧ (ps.map Prod.fst).Nodup ∧
      (∀ p ∈ ps, m[p.1]? = none) ∧ out = ps.foldl (fun m p => m.insert p.1 p.2) m := by
  induction values generalizing m with
  | nil =>
    cases h
    exact ⟨[], .nil, by simp, by simp, rfl⟩
  | cons value rest ih =>
    rw [addAllocations] at h
    split at h
    · cases h
    · rename_i a b hparse
      split at h
      · cases h
      · rename_i hnew
        obtain ⟨ps, hread, hnodup, hfresh, rfl⟩ := ih h
        -- what is new after the insertion differs from what was inserted
        have hne : ∀ q ∈ ps, a ≠ q.1 := by
          intro q hq heq
          have hnone := hfresh q hq
          rw [← heq, Map.get_insert_self] at hnone
          cases hnone
        refine ⟨(a, b) :: ps, .cons hparse hread, ?_, ?_, rfl⟩
        · rw [List.map_cons, List.nodup_cons]
          refine ⟨fun hmem => ?_, hnodup⟩
          obtain ⟨q, hq, heq⟩ := List.mem_map.mp hmem
          exact hne q hq heq.symm
        · refine List.forall_mem_cons.mpr ⟨hnew, fun q hq => ?_⟩
          have hnone := hfresh q hq
          rwa [Map.get_insert_ne _ _ (hne q hq)] at hnone

/-- The balances are those of the arguments, one for each. -/
theorem addAllocations_spec {m : Map Address Amount} {values : List String} (h : addAllocations ∅ values = .ok m) :
    (∀ value ∈ values, ∃ a b, parseAllocation value = .ok (a, b) ∧ m[a]? = some b) ∧
      (∀ a b, m[a]? = some b → ∃ value ∈ values, parseAllocation value = .ok (a, b)) ∧
      m.toList.length = values.length := by
  obtain ⟨ps, hread, hnodup, -, rfl⟩ := addAllocations_ok h
  have hget : ∀ a b, (ps.foldl (fun m p => m.insert p.1 p.2) (∅ : Map Address Amount))[a]? = some b ↔ (a, b) ∈ ps := by
    intro a b
    rw [Map.get_foldl_insert hnodup]
    simp
  refine ⟨?_, ?_, ?_⟩
  · intro value hvalue
    obtain ⟨p, hp, hparse⟩ := (GenesisConfig.forall₂_mem hread).1 value hvalue
    exact ⟨p.1, p.2, hparse, (hget p.1 p.2).mpr hp⟩
  · intro a b hmem
    exact (GenesisConfig.forall₂_mem hread).2 _ ((hget a b).mp hmem)
  · have hperm := (List.perm_ext_iff_of_nodup (Map.nodup_toList _) (List.Nodup.of_map _ hnodup)).mpr fun p =>
      Map.mem_toList.trans (hget p.1 p.2)
    rw [hperm.length_eq, hread.length_eq]

theorem eq_nil_of_mapM_nil {α β ε : Type} {f : α → Except ε β} {l : List α} (h : l.mapM f = .ok []) : l = [] := by
  cases l with
  | nil => rfl
  | cons a l =>
    rw [List.mapM_cons] at h
    cases ha : f a with
    | error e => rw [ha] at h; cases h
    | ok b =>
      cases hl : l.mapM f with
      | error e => rw [ha, hl] at h; cases h
      | ok bs => rw [ha, hl] at h; cases h

theorem genesisOf_ok {args : InitArgs} {now : Timestamp} {g : GenesisDocument} (h : genesisOf args now = .ok g) :
    g.chainId = args.chainId ∧ addAllocations ∅ args.allocations = .ok g.allocations ∧
      args.validators.mapM parseValidator = .ok g.initialValidators := by
  unfold genesisOf at h
  cases ha : addAllocations ∅ args.allocations with
  | error e => rw [ha] at h; cases h
  | ok m =>
    cases hv : args.validators.mapM parseValidator with
    | error e => rw [ha, hv] at h; cases h
    | ok vs =>
      rw [ha, hv] at h
      cases h
      exact ⟨rfl, rfl, rfl⟩

/-- **What `init` leaves**: the file as it was, or the front of the document of its arguments; all of it on success. -/
theorem initGenesis_cases (dir : String) (args : InitArgs) (now : Timestamp) (created : Option String)
    (writing : GenesisDocument.Writing) (file : Option Bytes) :
    let out := initGenesis dir args now created writing file
    (out.2 = file ∧ ∃ e, out.1 = .error e) ∨
    ∃ g, genesisOf args now = .ok g ∧ g.validate = .ok () ∧ (∃ written, out.2 = some (g.toJson.take written)) ∧
      ∀ report, out.1 = .ok report → out.2 = some g.toJson := by
  intro out
  simp only [out, initGenesis]
  cases created with
  | some message => exact .inl ⟨rfl, _, rfl⟩
  | none =>
    dsimp only
    split
    · exact .inl ⟨rfl, _, rfl⟩
    · cases hg : genesisOf args now with
      | error e => exact .inl ⟨rfl, _, rfl⟩
      | ok g =>
        dsimp only [GenesisDocument.save]
        cases hvalid : g.validate with
        | error e => exact .inl ⟨rfl, _, rfl⟩
        | ok u =>
          cases writing with
          | done => exact .inr ⟨g, rfl, hvalid, ⟨g.toJson.length, by rw [List.take_length]; rfl⟩, fun _ _ => rfl⟩
          | unopened message => exact .inl ⟨rfl, _, rfl⟩
          | stopped written message => exact .inr ⟨g, rfl, hvalid, ⟨written, rfl⟩, fun _ h => by cases h⟩

section
variable [Blake3]

/-- **A directory that was initialised starts with what the command line says.** Where `init` succeeds and there is no
ledger, the node has the chain id that was given, no blocks, the balance of each `--alloc`, and no other. A node in
validator mode needs a validator, and every node needs its ledger to fit into the file: `init` takes more allocations
than a node can write, and then the node refuses to start and writes nothing. -/
theorem init_starts (dir : String) (args : InitArgs) (now : Timestamp) (created : Option String)
    (writing : GenesisDocument.Writing) (file : Option Bytes) (report : InitReport) (validator : Bool)
    (fallback : ChainId) (temp : Option File)
    (hinit : (initGenesis dir args now created writing file).1 = .ok report)
    (hmode : validator = true → args.validators ≠ []) :
    let started := startNode ⟨dir, validator, fallback⟩ (initGenesis dir args now created writing file).2 ⟨none, temp⟩ .none
    (92 + 44 * args.allocations.length ≤ maxLedgerBytes → ∃ s, started.1 = .ok s ∧ s.chainId = args.chainId ∧
      s.blocks = [] ∧
      (∀ value ∈ args.allocations, ∃ a b, parseAllocation value = .ok (a, b) ∧ s.state.balance a = b) ∧
      ∀ a, (∀ value ∈ args.allocations, ∀ b, parseAllocation value ≠ .ok (a, b)) → s.state.balance a = 0) ∧
    (maxLedgerBytes < 92 + 44 * args.allocations.length →
      ∃ e, started = (.error (.node (.rpc e)), ⟨none, temp⟩)) := by
  intro started
  rcases initGenesis_cases dir args now created writing file with ⟨-, e, he⟩ | ⟨g, hg, hvalid, -, hfile⟩
  · rw [hinit] at he
    cases he
  obtain ⟨hchain, hallocations, hvalidators⟩ := genesisOf_ok hg
  obtain ⟨hgiven, honly, hcount⟩ := addAllocations_spec hallocations
  have hsome : validator = true → g.requiresValidators = .ok () := by
    intro hv
    refine if_neg fun hnil => hmode hv ?_
    rw [hnil] at hvalidators
    exact eq_nil_of_mapM_nil hvalidators
  let n : NodeSetup := ⟨⟨dir, validator, fallback⟩, g.toGenesisConfig, hvalid, hsome⟩
  have hstart : started = ((bootstrap n.config (some n.genesis) ⟨none, temp⟩ .none).1.mapError .node,
      (bootstrap n.config (some n.genesis) ⟨none, temp⟩ .none).2) := by
    simp only [started, hfile report hinit, startNode, StartFaults.none, BootFaults.none, loadFile,
      GenesisDocument.load_toJson hvalid]
    rfl
  obtain ⟨hfits, hlarge⟩ := bootstrap_first n (d := ⟨none, temp⟩) rfl
  rw [show n.allocations.length = args.allocations.length from hcount] at hfits hlarge
  refine ⟨?_, ?_⟩
  · intro hsize
    obtain ⟨s, hs, hid, hledger⟩ := hfits hsize
    have hbalance : ∀ a, s.state.balance a = (g.allocations[a]?).getD 0 := by
      intro a
      rw [show s.state = n.genesisLedger.state from congrArg Ledger.state hledger]
      exact balance_genesisLedger n a
    refine ⟨s, by rw [hstart, hs]; rfl, hid.trans hchain, congrArg Ledger.blocks hledger, ?_, ?_⟩
    · intro value hvalue
      obtain ⟨a, b, hparse, hget⟩ := hgiven value hvalue
      exact ⟨a, b, hparse, by rw [hbalance, hget]; rfl⟩
    · intro a hnone
      rw [hbalance]
      cases hget : g.allocations[a]? with
      | none => rfl
      | some b =>
        obtain ⟨value, hvalue, hparse⟩ := honly a b hget
        exact absurd hparse (hnone value hvalue b)
  · intro hsize
    obtain ⟨e, he⟩ := hlarge hsize
    exact ⟨e, by rw [hstart, he]; rfl⟩

/-- **An interrupted `init` is noticed.** Whatever the arguments and wherever it stops, `init` leaves the directory as it
was, or with the whole file of its arguments, or with a file from which no node starts and which no `init` without
`--force` replaces. -/
theorem torn_init_refused (dir : String) (args : InitArgs) (now : Timestamp) (created : Option String)
    (writing : GenesisDocument.Writing) (file : Option Bytes) :
    let out := initGenesis dir args now created writing file
    out.2 = file ∨ (∃ g, genesisOf args now = .ok g ∧ out.2 = some g.toJson) ∨
    (∃ e, out.1 = .error e) ∧ (∀ config d faults, ∃ e, startNode config out.2 d faults = (.error e, d)) ∧
      ∀ args' now' created' writing', args'.force = false →
        ∃ e, initGenesis dir args' now' created' writing' out.2 = (.error e, out.2) := by
  intro out
  rcases initGenesis_cases dir args now created writing file with ⟨hsame, -⟩ | ⟨g, hg, hvalid, ⟨written, hout⟩, hok⟩
  · exact .inl hsame
  right
  by_cases hall : g.toJson.length ≤ written
  · rw [List.take_of_length_le hall] at hout
    exact .inl ⟨g, hg, hout⟩
  have hlost : g.toJson.drop written ≠ [] := by simpa using hall
  have hcut : ∀ path, ∃ e, GenesisDocument.load path (g.toJson.take written) none = .error e := by
    intro path
    obtain ⟨e, he, -⟩ := GenesisDocument.load_cut (List.take_append_drop written g.toJson).symm hlost path
    exact ⟨e, he⟩
  refine .inr ⟨?_, ?_, ?_⟩
  · cases hresult : out.1 with
    | error e => exact ⟨e, rfl⟩
    | ok report =>
      have := Option.some.inj (hout.symm.trans (hok report hresult))
      exact absurd (congrArg List.length this) (by simp; omega)
  · intro config d faults
    rw [hout, startNode]
    cases faults.dataDir with
    | some message => exact ⟨_, rfl⟩
    | none =>
      cases hfault : faults.genesis with
      | some message => exact ⟨_, rfl⟩
      | none =>
        obtain ⟨e, he⟩ := hcut config.genesisPath
        refine ⟨.genesis e, ?_⟩
        simp only [loadFile, he]
        rfl
  · intro args' now' created' writing' hforce
    rw [hout]
    cases created' with
    | some message => exact ⟨_, rfl⟩
    | none => exact ⟨_, if_pos ⟨rfl, hforce⟩⟩

/-! ## A directory over time -/

omit [Blake3] in
/-- The genesis file, and the ledger with the node that runs on it. -/
structure Directory where
  genesis : Option Bytes
  world : World

omit [Blake3] in
/-- What happens in a directory. A crash keeps so many bytes of the genesis file, which is never synced. -/
inductive DirectoryEvent where
  | init (args : InitArgs) (now : Timestamp) (created : Option String) (writing : GenesisDocument.Writing)
  | boot (validator : Bool) (fallback : ChainId) (cut : Option (Nat × Loss))
  | submit (tx : Transaction) (now : Timestamp) (cut : Option (Nat × Loss))
  | crash (loss : Loss) (kept : Nat)

omit [Blake3] in
/-- The set-up of `subhost node` in an empty directory. Submissions and crashes are the same under every set-up. -/
def bareSetup (dir : String) : NodeSetup := .withoutGenesis ⟨dir, false, 1⟩ rfl chainId_one_ne

namespace Directory

/-- One event, and the result of a start that was not cut off. One that fails before it opens the ledger writes nothing. -/
def step (dir : String) (w : Directory) : DirectoryEvent → Option (Except StartError RpcState) × Directory
  | .init args now created writing => (none, ⟨(initGenesis dir args now created writing w.genesis).2, w.world⟩)
  | .boot validator fallback cut =>
    match loadFile (genesisPath dir) w.genesis none with
    | .error e => (some (.error (.genesis e)), ⟨w.genesis, ⟨w.world.disk, none, w.world.log⟩⟩)
    | .ok genesis =>
      match resolve ⟨dir, validator, fallback⟩ (genesis.map GenesisDocument.toGenesisConfig) with
      | .error e => (some (.error (.node e)), ⟨w.genesis, ⟨w.world.disk, none, w.world.log⟩⟩)
      | .ok n =>
        let (r, world) := n.step w.world (.boot cut)
        (r.map (·.mapError .node), ⟨w.genesis, world⟩)
  | .submit tx now cut => (none, ⟨w.genesis, ((bareSetup dir).step w.world (.submit tx now cut)).2⟩)
  | .crash loss kept => (none, ⟨w.genesis.map (List.take kept), ((bareSetup dir).step w.world (.crash loss)).2⟩)

omit [Blake3] in
/-- A directory before the first command. -/
def empty : Directory := ⟨none, NodeSetup.start⟩

/-- A start in a directory is that of the node. -/
theorem step_boot (dir : String) (w : Directory) (validator : Bool) (fallback : ChainId) :
    let started := startNode ⟨dir, validator, fallback⟩ w.genesis w.world.disk .none
    (w.step dir (.boot validator fallback none)).1 = some started.1 ∧
      (w.step dir (.boot validator fallback none)).2.world.disk = started.2 ∧
      (w.step dir (.boot validator fallback none)).2.world.node = started.1.toOption := by
  intro started
  have hpath : NodeConfig.genesisPath ⟨dir, validator, fallback⟩ = genesisPath dir := rfl
  have hread : StartFaults.none.genesis = none := rfl
  have hboot : StartFaults.none.toBootFaults = .none := rfl
  simp only [started, startNode, hread, hboot, hpath, step]
  cases loadFile (genesisPath dir) w.genesis none with
  | error e => exact ⟨rfl, rfl, rfl⟩
  | ok genesis =>
    dsimp only
    rw [bootstrap_resolve]
    cases resolve ⟨dir, validator, fallback⟩ (genesis.map GenesisDocument.toGenesisConfig) with
    | error e => exact ⟨rfl, rfl, rfl⟩
    | ok n =>
      dsimp only [NodeSetup.step]
      generalize bootstrap n.config (some n.genesis) w.world.disk .none = out
      obtain ⟨r, d⟩ := out
      cases r <;> exact ⟨rfl, rfl, rfl⟩

/-- Where the file can be read and fits the settings, what starts is the set-up of the two. -/
theorem step_boot_resolved {dir : String} {w : Directory} {validator : Bool} {fallback : ChainId} {cut : Option (Nat × Loss)}
    {genesis : Option GenesisDocument} {n : NodeSetup} (hload : loadFile (genesisPath dir) w.genesis none = .ok genesis)
    (hresolve : resolve ⟨dir, validator, fallback⟩ (genesis.map GenesisDocument.toGenesisConfig) = .ok n) :
    (w.step dir (.boot validator fallback cut)).2 = ⟨w.genesis, (n.step w.world (.boot cut)).2⟩ := by
  rw [step]
  simp only [hload, hresolve]

/-! ### Where a ledger comes from -/

omit [Blake3] in
/-- A document that some `init` of the run asked for. -/
def Asked (events : List DirectoryEvent) (g : GenesisDocument) : Prop :=
  ∃ args now created writing, DirectoryEvent.init args now created writing ∈ events ∧ genesisOf args now = .ok g

omit [Blake3] in
/-- Where a ledger comes from: the genesis of an `init`, or one without balances. -/
def Origin (dir : String) (events : List DirectoryEvent) (n : NodeSetup) : Prop :=
  n.config.dataDir = dir ∧ (n.allocations = [] ∨ ∃ g, Asked events g ∧ n.genesis = g.toGenesisConfig)

omit [Blake3] in
theorem Asked.append {events : List DirectoryEvent} {g : GenesisDocument} (h : Asked events g)
    (more : List DirectoryEvent) : Asked (events ++ more) g := by
  obtain ⟨args, now, created, writing, hmem, hg⟩ := h
  exact ⟨args, now, created, writing, List.mem_append_left more hmem, hg⟩

omit [Blake3] in
theorem Origin.append {dir : String} {events : List DirectoryEvent} {n : NodeSetup} (h : Origin dir events n)
    (more : List DirectoryEvent) : Origin dir (events ++ more) n := by
  refine ⟨h.1, h.2.imp_right ?_⟩
  rintro ⟨g, hasked, hn⟩
  exact ⟨g, hasked.append more, hn⟩

/-! ### One ledger under several set-ups -/

variable {n n' : NodeSetup} {w : World}

/-- A node that is down leaves the ledger as it is. -/
theorem inv_down (h : n.Inv w) : n.Inv ⟨w.disk, none, w.log⟩ :=
  ⟨h.durable, fun _ hs => (by cases hs), fun hup => absurd rfl hup, h.minted⟩

/-- Without a ledger, every set-up may start. -/
theorem inv_refound (h : n.Inv w) (hlog : w.log = []) (n' : NodeSetup) : n'.Inv ⟨w.disk, none, w.log⟩ := by
  rw [hlog]
  exact inv_unwritten n' (h.durable.log_eq_nil.mpr hlog)

/-- A ledger of another chain is refused. -/
theorem withStore_other (h : n.Inv w) {f : File} (hf : w.disk.ledger = some f) (hchain : n'.chainId ≠ n.chainId) :
    ∃ e, RpcState.withStore n'.store w.disk none = .error e := by
  have hlog := h.durable.file
  rw [hf] at hlog
  obtain ⟨c, hc, rfl⟩ := Option.map_eq_some_iff.mp hlog.symm
  have hw := h.durable.writable c (List.mem_of_getLast? hc)
  have hload : n'.store.load w.disk none = n'.store.restore (c.ledger.snapshot n.chainId) := by
    unfold LedgerStore.load
    rw [hf]
    exact n'.store.loadBytes_encodeLedger hw.size
  have hrestore : n'.store.restore (c.ledger.snapshot n.chainId) = .error (.chainMismatch n'.chainId n.chainId) :=
    if_pos (.inl (Ne.symm hchain))
  exact ⟨_, by rw [RpcState.withStore, hload, hrestore]⟩

/-- **Where there is a ledger, another set-up starts with it or not at all.** -/
theorem inv_boot (h : n.Inv w) (hlog : w.log ≠ []) (hdir : n'.config.dataDir = n.config.dataDir)
    (cut : Option (Nat × Loss)) : n.Inv (n'.step w (.boot cut)).2 := by
  obtain ⟨f, hf⟩ : ∃ f, w.disk.ledger = some f :=
    Option.ne_none_iff_exists'.mp fun hnone => hlog (h.durable.log_eq_nil.mp hnone)
  have htarget := @NodeSetup.bootTarget_existing n w.disk f hf
  have htarget' := @NodeSetup.bootTarget_existing n' w.disk f hf
  cases cut with
  | some cut =>
    have hsame : n'.step w (.boot (some cut)) = n.step w (.boot (some cut)) := by
      simp only [NodeSetup.step, htarget, htarget']
      rfl
    rw [hsame]
    exact h.step _
  | none =>
    by_cases hchain : n'.chainId = n.chainId
    · have hstore : n'.store = n.store := by
        unfold NodeSetup.store
        simp only [hdir, hchain]
      have hsame : n'.step w (.boot none) = n.step w (.boot none) := by
        simp only [NodeSetup.step, htarget, htarget', NodeSetup.bootstrap_existing hf, hstore]
      rw [hsame]
      exact h.step _
    · obtain ⟨e, he⟩ := withStore_other h hf hchain
      have hdown : (n'.step w (.boot none)).2 = ⟨w.disk, none, w.log⟩ := by
        simp only [NodeSetup.step, htarget', NodeSetup.bootstrap_existing hf, he]
        rfl
      rw [hdown]
      exact inv_down h

/-- The log only grows. -/
theorem log_step (n : NodeSetup) (w : World) (e : Event) : w.log <+: (n.step w e).2.log := by
  have hrecord : ∀ commit done, w.log <+: record w.log commit done := by
    intro commit done
    rcases NodeSetup.record_cases w.log commit done with hsame | ⟨c, -, hnew⟩
    · rw [hsame]
    · rw [hnew]
      exact List.prefix_append _ _
  cases e with
  | boot cut =>
    cases cut with
    | none => exact hrecord _ _
    | some cut => exact hrecord _ _
  | submit tx now cut =>
    cases hnode : w.node with
    | none =>
      rw [NodeSetup.step, hnode]
    | some s =>
      rw [NodeSetup.step, hnode]
      cases cut with
      | none => exact hrecord _ _
      | some cut => exact hrecord _ _
  | crash loss => exact List.prefix_refl _

/-! ### Every event -/

/-- What holds after every run. -/
structure Inv (dir : String) (events : List DirectoryEvent) (w : Directory) : Prop where
  file : ∀ content, w.genesis = some content →
    ∃ g, Asked events g ∧ g.validate = .ok () ∧ ∃ written, content = g.toJson.take written
  world : ∃ n, Origin dir events n ∧ n.Inv w.world

/-- What the file is read as, some `init` asked for. -/
theorem Inv.asked_of_load {dir : String} {events : List DirectoryEvent} {w : Directory} (h : Inv dir events w)
    {path : String} {g : GenesisDocument} (hload : loadFile path w.genesis none = .ok (some g)) : Asked events g := by
  cases hfile : w.genesis with
  | none => rw [hfile] at hload; cases hload
  | some content =>
    obtain ⟨g', hasked, hvalid, written, rfl⟩ := h.file content hfile
    rw [hfile, loadFile] at hload
    cases hread : GenesisDocument.load path (g'.toJson.take written) none with
    | error e => rw [hread] at hload; cases hload
    | ok g'' =>
      rw [hread] at hload
      cases hload
      rwa [GenesisDocument.load_take hvalid hread]

theorem Inv.step {dir : String} {events : List DirectoryEvent} {w : Directory} (h : Inv dir events w)
    (e : DirectoryEvent) : Inv dir (events ++ [e]) (w.step dir e).2 := by
  obtain ⟨n, horigin, hn⟩ := h.world
  have hfile : ∀ content, w.genesis = some content →
      ∃ g, Asked (events ++ [e]) g ∧ g.validate = .ok () ∧ ∃ written, content = g.toJson.take written := by
    intro content hcontent
    obtain ⟨g, hasked, hrest⟩ := h.file content hcontent
    exact ⟨g, hasked.append [e], hrest⟩
  cases e with
  | init args now created writing =>
    refine ⟨?_, n, horigin.append _, hn⟩
    rcases initGenesis_cases dir args now created writing w.genesis with ⟨hsame, -⟩ | ⟨g, hg, hvalid, ⟨written, hout⟩, -⟩
    · dsimp only [Directory.step]
      rw [hsame]
      exact hfile
    · intro content hcontent
      dsimp only [Directory.step] at hcontent
      rw [hout] at hcontent
      cases hcontent
      exact ⟨g, ⟨args, now, created, writing, by simp, hg⟩, hvalid, written, rfl⟩
  | submit tx now cut => exact ⟨hfile, n, horigin.append _, hn.step (.submit tx now cut)⟩
  | crash loss kept =>
    refine ⟨?_, n, horigin.append _, hn.step (.crash loss)⟩
    intro content hcontent
    obtain ⟨old, hold, rfl⟩ := Option.map_eq_some_iff.mp hcontent
    obtain ⟨g, hasked, hvalid, written, rfl⟩ := hfile old hold
    exact ⟨g, hasked, hvalid, min kept written, List.take_take⟩
  | boot validator fallback cut =>
    rw [Directory.step]
    split
    · exact ⟨hfile, n, horigin.append _, inv_down hn⟩
    rename_i genesis hload
    split
    · exact ⟨hfile, n, horigin.append _, inv_down hn⟩
    rename_i n' hresolve
    refine ⟨hfile, ?_⟩
    obtain ⟨hconfig, hgenesis⟩ := resolve_ok hresolve
    have hdir : n'.config.dataDir = dir := by rw [hconfig]
    by_cases hlog : w.world.log = []
    · -- nothing was written yet: this set-up takes over
      refine ⟨n', Origin.append ⟨hdir, ?_⟩ _, ?_⟩
      · rcases hgenesis with hsome | ⟨-, hnone, -⟩
        · obtain ⟨g, rfl, hg⟩ := Option.map_eq_some_iff.mp hsome
          exact .inr ⟨g, h.asked_of_load hload, hg.symm⟩
        · exact .inl hnone
      · have hboot := (inv_refound hn hlog n').step (.boot cut)
        cases cut <;> exact hboot
    · exact ⟨n, horigin.append _, inv_boot hn hlog (hdir.trans horigin.1.symm) cut⟩

/-- Once a ledger was written, its set-up is settled. -/
structure Settled (dir : String) (n : NodeSetup) (log : List Commit) (w : Directory) : Prop where
  dir_eq : n.config.dataDir = dir
  inv : n.Inv w.world
  log_ne : log ≠ []
  log_le : log <+: w.world.log

theorem Settled.step {dir : String} {n : NodeSetup} {log : List Commit} {w : Directory} (h : Settled dir n log w)
    (e : DirectoryEvent) : Settled dir n log (w.step dir e).2 := by
  have hlog : w.world.log ≠ [] := by
    intro hnil
    have := h.log_le
    rw [hnil] at this
    exact h.log_ne (List.prefix_nil.mp this)
  cases e with
  | init args now created writing => exact ⟨h.dir_eq, h.inv, h.log_ne, h.log_le⟩
  | submit tx now cut =>
    exact ⟨h.dir_eq, h.inv.step (.submit tx now cut), h.log_ne, h.log_le.trans (log_step (bareSetup dir) w.world _)⟩
  | crash loss kept =>
    exact ⟨h.dir_eq, h.inv.step (.crash loss), h.log_ne, h.log_le.trans (log_step (bareSetup dir) w.world _)⟩
  | boot validator fallback cut =>
    rw [Directory.step]
    split
    · exact ⟨h.dir_eq, inv_down h.inv, h.log_ne, h.log_le⟩
    split
    · exact ⟨h.dir_eq, inv_down h.inv, h.log_ne, h.log_le⟩
    rename_i n' hresolve
    have hdir : n'.config.dataDir = n.config.dataDir := by rw [(resolve_ok hresolve).1, h.dir_eq]
    exact ⟨h.dir_eq, inv_boot h.inv hlog hdir cut, h.log_ne, h.log_le.trans (log_step n' w.world _)⟩

theorem inv_run (dir : String) (events : List DirectoryEvent) : Inv dir events (final (step dir) empty events) := by
  induction events using List.reverseRecOn with
  | nil => exact ⟨nofun, bareSetup dir, ⟨rfl, .inl rfl⟩, NodeSetup.inv_start _⟩
  | append_singleton events e ih =>
    rw [final_append]
    exact ih.step e

end Directory

/-- **A directory keeps its genesis.** Once a ledger was written into a directory, there is one genesis, that of an
`init` that was run there or one without balances, such that whatever happens from then on, interrupted and forced
`init`s, starts with other settings, submissions and crashes, every node that runs there has its chain id and holds the
last ledger that was renamed, and the state of that is the balances of this genesis with the blocks executed on them.
The balances were written once, and no ledger is taken back. -/
theorem one_genesis (dir : String) (before after : List DirectoryEvent)
    (hwritten : (final (Directory.step dir) .empty before).world.disk.ledger ≠ none) :
    let founded := final (Directory.step dir) .empty before
    ∃ n, Directory.Origin dir before n ∧ ∀ c ∈ trace (Directory.step dir) founded after,
      founded.world.log <+: c.after.world.log ∧ NodeSetup.mints c.after.world.log ≤ 1 ∧
      ∀ s, c.after.world.node = some s → s.chainId = n.chainId ∧ s.ledger = n.lastLedger c.after.world.log ∧
        Executes n.genesisLedger.state s.blocks s.state := by
  intro founded
  obtain ⟨n, horigin, hn⟩ := (Directory.inv_run dir before).world
  have hlog : founded.world.log ≠ [] := fun hnil => hwritten (hn.durable.log_eq_nil.mpr hnil)
  refine ⟨n, horigin, ?_⟩
  intro c hc
  have hbefore := trace_invariant (Directory.step dir) (Directory.Settled dir n founded.world.log) (fun _ e h => h.step e)
    ⟨horigin.1, hn, hlog, List.prefix_refl _⟩ after c hc
  have hafter := hbefore.step c.input
  rw [trace_step (Directory.step dir) founded after c hc] at hafter
  refine ⟨hafter.log_le, ?_, ?_⟩
  · rw [hafter.inv.minted]
    split <;> decide
  · intro s hs
    have hcurrent := hafter.inv.current s hs
    refine ⟨hcurrent.chain, hcurrent.ledger, ?_⟩
    have hexec := hafter.inv.durable.lastLedger_ok.2
    rwa [← hcurrent.ledger] at hexec

end

/-! ## Samples -/

section Sample
open scoped Concrete

/-- Chain 7 with one account. -/
def soloArgs : InitArgs := ⟨7, ["0x0101010101010101010101010101010101010101 = 500"], [], false⟩

def soloDocument : GenesisDocument :=
  ⟨⟨7, [], (∅ : Map Address Amount).insert (Vector.replicate 20 1) 500, defaultBlockTimeMs, blockGasLimit⟩, 3⟩

theorem parseAllocation_solo :
    parseAllocation "0x0101010101010101010101010101010101010101 = 500" = .ok (Vector.replicate 20 1, 500) := by
  decide +kernel

theorem genesisOf_solo : genesisOf soloArgs 3 = .ok soloDocument := by
  have hadd : addAllocations ∅ soloArgs.allocations = .ok soloDocument.allocations := by
    rw [soloArgs, addAllocations, parseAllocation_solo]
    rfl
  rw [genesisOf, hadd]
  rfl

theorem validate_solo : soloDocument.validate = .ok () := by decide

theorem initGenesis_solo : initGenesis "data" soloArgs 3 none .done none =
    (.ok ⟨"data/genesis.json", 7, soloDocument.allocations.size, 0⟩, some soloDocument.toJson) := by
  rw [initGenesis, if_neg (by simp), genesisOf_solo]
  dsimp only [GenesisDocument.save]
  rw [validate_solo]
  rfl

theorem init_starts_solo :
    ∃ s, (startNode ⟨"data", false, 1⟩ (initGenesis "data" soloArgs 3 none .done none).2 ⟨none, none⟩ .none).1 = .ok s ∧
      s.chainId = 7 ∧ s.state.balance (Vector.replicate 20 1) = 500 := by
  obtain ⟨s, hs, hchain, -, hgiven, -⟩ := (init_starts "data" soloArgs 3 none .done none _ false 1 none
    (congrArg Prod.fst initGenesis_solo) (by simp)).1 (by decide)
  obtain ⟨a, b, hparse, hbalance⟩ := hgiven _ (List.mem_singleton_self _)
  rw [parseAllocation_solo] at hparse
  cases hparse
  exact ⟨s, hs, hchain, hbalance⟩

/-- The set-up of a node on that file. -/
def soloSetup : NodeSetup := ⟨⟨"data", false, 1⟩, soloDocument.toGenesisConfig, validate_solo, by simp⟩

/-- Initialised and started. -/
def soloEvents : List DirectoryEvent := [.init soloArgs 3 none .done, .boot false 1 none]

theorem final_solo : final (Directory.step "data") .empty soloEvents =
    ⟨some soloDocument.toJson, (soloSetup.step NodeSetup.start (.boot none)).2⟩ := by
  have hinit : (Directory.empty.step "data" (.init soloArgs 3 none .done)).2 =
      ⟨some soloDocument.toJson, NodeSetup.start⟩ := by
    rw [Directory.step, show Directory.empty.genesis = none from rfl, initGenesis_solo]
    rfl
  have hload : loadFile (genesisPath "data") (some soloDocument.toJson) none = .ok (some soloDocument) := by
    rw [loadFile, GenesisDocument.load_toJson validate_solo]
    rfl
  have hresolve : resolve ⟨"data", false, 1⟩ (some soloDocument.toGenesisConfig) = .ok soloSetup := rfl
  generalize soloDocument.toJson = content at hinit hload ⊢
  let found : Directory := ⟨some content, NodeSetup.start⟩
  have hboot : (found.step "data" (.boot false 1 none)).2 = ⟨some content, (soloSetup.step NodeSetup.start (.boot none)).2⟩ :=
    Directory.step_boot_resolved hload hresolve
  rw [soloEvents, final, hinit, final, final, hboot]

/-- An `init` for another chain, over the file of the first, changes neither the chain nor the balances. -/
theorem one_genesis_forced : ∃ n : NodeSetup,
    ∀ c ∈ trace (Directory.step "data") (final (Directory.step "data") .empty soloEvents)
      [.init ⟨8, [], [], true⟩ 4 none .done, .boot false 1 none, .crash ⟨[], none⟩ 0, .boot false 7 none],
      ∀ s, c.after.world.node = some s → s.chainId = n.chainId ∧ Executes n.genesisLedger.state s.blocks s.state := by
  have hwritten : (final (Directory.step "data") .empty soloEvents).world.disk.ledger ≠ none := by
    rw [final_solo]
    decide +kernel
  obtain ⟨n, -, hn⟩ := one_genesis "data" soloEvents _ hwritten
  refine ⟨n, fun c hc s hs => ?_⟩
  obtain ⟨hchain, -, hexec⟩ := (hn c hc).2.2 s hs
  exact ⟨hchain, hexec⟩

end Sample

end Subhost.Cli
