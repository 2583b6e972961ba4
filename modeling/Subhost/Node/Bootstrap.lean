import Subhost.Rpc.Runs
/-!
# Starting a node (subhost-node/src/lib.rs:65-115)

`Node::bootstrap` reads the genesis file, opens the ledger and, when there is no ledger file yet,
sets the genesis balances and writes them. Whether they are set is decided by the existence of the
file alone; `bootstrap_eq` is that decision with the checks of a valid set-up removed.

Here the genesis file is given decoded (`none` if there is none): `Node/Genesis.lean` reads and parses it, and
`startNode` there is the start from its bytes. The metrics are not modelled.
-/
namespace Subhost
open Uint Bincode

/-- `ValidatorInfo` (subhost-core lib.rs:447). -/
structure ValidatorInfo where
  address : Address
  publicKey : Bytes
  power : U64
deriving DecidableEq

/-- `GenesisConfig` (subhost-core lib.rs:348) without its time, which nothing reads. -/
structure GenesisConfig where
  chainId : ChainId
  initialValidators : List ValidatorInfo
  allocations : Map Address Amount
  blockTimeMs : U64
  gasLimit : Gas

/-- `CoreError::InvalidGenesis` with its text. -/
inductive CoreError where
  | invalidGenesis (message : String)
deriving DecidableEq

/-- The loop of `validate` over the validators (lib.rs:389-409). -/
def checkValidators : List Address → List ValidatorInfo → Except CoreError Unit
  | _, [] => .ok ()
  | seen, v :: rest =>
    if v.power = 0 then
      .error (.invalidGenesis ("validator " ++ displayBytes v.address.toList ++ " has zero voting power"))
    else if v.publicKey = [] then
      .error (.invalidGenesis ("validator " ++ displayBytes v.address.toList ++ " has no public key"))
    else if v.address ∈ seen then
      .error (.invalidGenesis ("duplicate validator " ++ displayBytes v.address.toList))
    else checkValidators (v.address :: seen) rest

namespace GenesisConfig

/-- `GenesisConfig::validate` (lib.rs:379). -/
def validate (g : GenesisConfig) : Except CoreError Unit :=
  if g.chainId = 0 then .error (.invalidGenesis "chain ID cannot be 0")
  else if g.blockTimeMs = 0 then .error (.invalidGenesis "block time must be > 0")
  else if g.gasLimit = 0 then .error (.invalidGenesis "gas limit must be > 0")
  else checkValidators [] g.initialValidators

/-- `genesis_allocations::serialize` (lib.rs:472), over the entries in the order they are iterated: the address
and the balance of each, as text. -/
def serializeAllocations (entries : List (Address × Amount)) : List (String × String) :=
  sortByKey Prod.fst (entries.map fun p => (displayBytes p.1.toList, toString p.2.toNat))

/-- `GenesisConfig::requires_validators` (lib.rs:416). -/
def requiresValidators (g : GenesisConfig) : Except CoreError Unit :=
  if g.initialValidators = [] then
    .error (.invalidGenesis "a validator network requires at least one initial validator")
  else .ok ()

theorem chainId_ne_of_valid {g : GenesisConfig} (h : g.validate = .ok ()) : g.chainId ≠ 0 := by
  intro hzero
  rw [validate, if_pos hzero] at h
  cases h

end GenesisConfig

/-- `NodeConfig` (lib.rs:19), the fields `bootstrap` reads. -/
structure NodeConfig where
  dataDir : String
  validator : Bool
  fallbackChainId : ChainId

/-- `NodeConfig::genesis_path`. -/
def NodeConfig.genesisPath (config : NodeConfig) : String := config.dataDir ++ "/genesis.json"

/-- `NodeError` (lib.rs:213), the variants `bootstrap` returns. -/
inductive NodeError where
  | dataDir (path message : String)
  | missingGenesis (path : String)
  | invalidChainId
  | genesis (e : CoreError)
  | storage (e : StorageError)
  | rpc (e : RpcError)
deriving DecidableEq

/-- The I/O errors of a bootstrap: creating the directory, opening the store, reading and writing the
ledger. -/
structure BootFaults where
  dataDir : Option String
  openStore : Option String
  read : Option String
  write : Option Fault

def BootFaults.none : BootFaults := ⟨.none, .none, .none, .none⟩

/-- `load_genesis` (lib.rs:186) on the decoded file. -/
def loadGenesis : Option GenesisConfig → Except NodeError (Option GenesisConfig)
  | none => .ok none
  | some g =>
    match g.validate with
    | .error e => .error (.genesis e)
    | .ok () => .ok (some g)

/-- A validator needs a genesis with a validator set (lib.rs:75-82). -/
def checkMode (config : NodeConfig) (genesis : Option GenesisConfig) : Except NodeError Unit :=
  if config.validator = false then .ok ()
  else
    match genesis with
    | none => .error (.missingGenesis config.genesisPath)
    | some g =>
      match g.requiresValidators with
      | .error e => .error (.genesis e)
      | .ok () => .ok ()

/-- Everything before the ledger is read (lib.rs:70-90): the genesis and the opened store. -/
def openNode (config : NodeConfig) (file : Option GenesisConfig) (faults : BootFaults) :
    Except NodeError (Option GenesisConfig × LedgerStore) :=
  match faults.dataDir with
  | some message => .error (.dataDir config.dataDir message)
  | none =>
    match loadGenesis file with
    | .error e => .error e
    | .ok genesis =>
      match checkMode config genesis with
      | .error e => .error e
      | .ok () =>
        let chainId := genesis.elim config.fallbackChainId GenesisConfig.chainId
        if chainId = 0 then .error .invalidChainId
        else
          match LedgerStore.openAt chainId config.dataDir faults.openStore with
          | .error e => .error (.storage e)
          | .ok store => .ok (genesis, store)

section
variable [Blake3]

/-- Genesis allocations on a node without a ledger file (lib.rs:95-103). -/
def applyGenesis (genesis : Option GenesisConfig) (isFresh : Bool) (s : RpcState) (d : Disk) (fault : Option Fault) :
    Except NodeError RpcState × Disk :=
  match genesis with
  | none => (.ok s, d)
  | some g =>
    if isFresh = true ∧ g.allocations.toList ≠ [] then
      match s.seedAccounts d g.allocations.toList fault with
      | (.error e, _, d) => (.error (.rpc e), d)
      | (.ok (), s, d) => (.ok s, d)
    else (.ok s, d)

/-- `Node::bootstrap` (lib.rs:65). -/
def bootstrap (config : NodeConfig) (file : Option GenesisConfig) (d : Disk) (faults : BootFaults) :
    Except NodeError RpcState × Disk :=
  match openNode config file faults with
  | .error e => (.error e, d)
  | .ok (genesis, store) =>
    match RpcState.withStore store d faults.read with
    | .error e => (.error (.storage e), d)
    | .ok s => applyGenesis genesis (!store.fileExists d) s d faults.write

end

/-! ## A valid set-up -/

/-- A configuration and a genesis file that suits it. -/
structure NodeSetup where
  config : NodeConfig
  genesis : GenesisConfig
  valid : genesis.validate = .ok ()
  validators : config.validator = true → genesis.requiresValidators = .ok ()

namespace NodeSetup

def chainId (n : NodeSetup) : ChainId := n.genesis.chainId

def allocations (n : NodeSetup) : List (Address × Amount) := n.genesis.allocations.toList

def store (n : NodeSetup) : LedgerStore :=
  ⟨some (LedgerPath.ofDir n.config.dataDir), n.chainId, n.genesis.chainId_ne_of_valid n.valid⟩

/-- The empty ledger with the genesis allocations applied. -/
def genesisLedger (n : NodeSetup) : Ledger := Ledger.seed ⟨State.withChainId n.chainId, [], ∅⟩ n.allocations

theorem openNode_ok (n : NodeSetup) : openNode n.config (some n.genesis) .none = .ok (some n.genesis, n.store) := by
  have hne : n.genesis.chainId ≠ 0 := GenesisConfig.chainId_ne_of_valid n.valid
  have hload : loadGenesis (some n.genesis) = .ok (some n.genesis) := by rw [loadGenesis, n.valid]
  have hmode : checkMode n.config (some n.genesis) = .ok () := by
    unfold checkMode
    cases hv : n.config.validator with
    | false => rfl
    | true =>
      rw [if_neg (by simp)]
      simp only [n.validators hv]
  have hopen : LedgerStore.openAt n.genesis.chainId n.config.dataDir none = .ok n.store := by
    rw [LedgerStore.openAt, dif_neg hne]
    rfl
  unfold openNode
  simp only [BootFaults.none, hload, hmode, Option.elim_some, if_neg hne, hopen]

/-- The store, then genesis. -/
theorem bootstrap_eq [Blake3] (n : NodeSetup) (d : Disk) :
    bootstrap n.config (some n.genesis) d .none =
      match RpcState.withStore n.store d none with
      | .error e => (.error (.storage e), d)
      | .ok s => applyGenesis (some n.genesis) (!n.store.fileExists d) s d none := by
  rw [bootstrap, openNode_ok]
  rfl

end NodeSetup
end Subhost
