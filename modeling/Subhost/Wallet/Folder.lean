import Subhost.Wallet.File
import Subhost.Lib.Run
/-!
# The wallet directory (subhost-cli/src/main.rs:381-486, subhost-wallet/src/lib.rs:137-159)

| here | there |
| --- | --- |
| `WalletDir`        | the directory: what processes see, and what of it may be on the disk |
| `WalletDir.save`   | `Wallet::save` (lib.rs:137), step by step |
| `Folder.read`, `Folder.load` | `Wallet::read`, `Wallet::load` (lib.rs:161, :173) |
| `walletPath`, `listWallets`, `findWallet` | the same (main.rs:436, :460, :481) |
| `handleWallet`     | the same (main.rs:381) |

A save writes a temporary file, syncs it, renames it and syncs the directory. It may fail at every step, and then the
temporary file is removed; or the machine stops after any step. Then data that were not synced may have become anything,
and each name of the directory stands for what it stood for at some time since the directory was last synced: a rename
that was not followed by a sync may be undone, and the temporary file be there again.

`keys_survive`: over any sequence of commands, failures and crashes, no file that has reached the disk with its name is
changed or removed, and every wallet that was reported as created opens with its password. One command runs at a time,
and the directory itself is on the disk: a save creates it if need be, but does not sync its parent. Random bytes and the
temporary file's name come with the command.
-/
namespace Subhost
open Uint Bincode Run

/-- A file: its data, whether they have reached the disk, and its permission bits. -/
structure StoredFile where
  data : Bytes
  synced : Bool
  mode : Nat
deriving DecidableEq

/-- What a name stands for in a directory; a dangling link has no metadata. -/
inductive Entry where
  | file (f : StoredFile)
  | directory
  | dangling
deriving DecidableEq

/-- What is left of an entry when the machine stops. -/
def Entry.crash (loss : Bytes) : Entry → Entry
  | .file f => .file (if f.synced then f else ⟨loss, true, f.mode⟩)
  | .directory => .directory
  | .dangling => .dangling

abbrev Folder := Map String Entry

/-- The wallet directory: its names as processes see them, and as they were before each change since it was last synced,
the latest first. -/
structure WalletDir where
  view : Folder
  older : List Folder

/-- The name has the extension `json`. -/
def isJson (name : String) : Bool := ".json".toList.isSuffixOf name.toList && 5 < name.toList.length

/-- The name of a temporary file. It ends in random letters and digits. -/
structure TempName where
  name : String
  plain : isJson name = false

/-! ## Saving -/

/-- The steps of `save` after `create_dir_all` (lib.rs:145-157). -/
def saveOps (json : Bytes) : List FsOp :=
  [.createTemp, .chmod, .write json, .syncFile, .rename, .openDir, .syncDir]

namespace Folder

/-- Owner-only. A temporary file has it from the start. -/
def ownerOnly : Nat := 0o600

def changeFile (change : StoredFile → StoredFile) (name : String) (d : Folder) : Folder :=
  match d[name]? with
  | some (.file f) => d.insert name (.file (change f))
  | _ => d

/-- `Wallet::read` (lib.rs:161). -/
def read (d : Folder) (name : String) : Except WalletError Wallet :=
  match d[name]? with
  | some (.file f) => Wallet.readText f.data
  | some .directory => .error (.io "Is a directory (os error 21)")
  | some .dangling | none => .error (.io "No such file or directory (os error 2)")

/-- These names stand for what they stood for so many changes ago. -/
def revert (older : List Folder) (lost : List (String × Nat)) (view : Folder) : Folder :=
  lost.foldl (fun d l => older[l.2]?.elim d fun old => old[l.1]?.elim (d.erase l.1) (d.insert l.1)) view

/-- Data that were not synced may have become anything. -/
def crash (loss : String → Bytes) (d : Folder) : Folder := Map.retain (fun name entry => some (entry.crash (loss name))) d

end Folder

namespace WalletDir

/-- What may be on the disk. -/
def states (d : WalletDir) : List Folder := d.view :: d.older

/-- A change of names. -/
def change (d : WalletDir) (view : Folder) : WalletDir := ⟨view, d.states⟩

/-- A step that succeeds. -/
def perform (temp target : String) : FsOp → WalletDir → WalletDir
  | .createTemp, d => d.change (d.view.insert temp (.file ⟨[], false, Folder.ownerOnly⟩))
  | .chmod, d => { d with view := Folder.changeFile (fun f => { f with mode := Folder.ownerOnly }) temp d.view }
  | .write data, d => { d with view := Folder.changeFile (fun f => ⟨f.data ++ data, false, f.mode⟩) temp d.view }
  | .syncFile, d => { d with view := Folder.changeFile (fun f => { f with synced := true }) temp d.view }
  | .rename, d => d.change (d.view[temp]?.elim d.view ((d.view.erase temp).insert target))
  | .openDir, d => d
  | .syncDir, d => ⟨d.view, []⟩

def performAll (temp target : String) (ops : List FsOp) (d : WalletDir) : WalletDir :=
  ops.foldl (fun d op => perform temp target op d) d

/-- The temporary file is dropped. -/
def dropTemp (temp : String) (d : WalletDir) : WalletDir := d.change (d.view.erase temp)

/-- Steps run until one fails; the temporary file is dropped on the way out. -/
def runSave (temp target : String) (fault : Option Fault) : Nat → List FsOp → WalletDir → Except WalletError Unit × WalletDir
  | _, [], d => (.ok (), d)
  | i, op :: ops, d =>
    match fault with
    | some f =>
      if f.step = i then (.error (.io f.message), d.dropTemp temp)
      else runSave temp target fault (i + 1) ops (perform temp target op d)
    | none => runSave temp target fault (i + 1) ops (perform temp target op d)

/-- `Wallet::save` (lib.rs:137). Step 0 is `create_dir_all`, step `i + 1` the `i`-th of `saveOps`. -/
def save (d : WalletDir) (w : Wallet) (target : String) (temp : TempName) (fault : Option Fault) :
    Except WalletError Unit × WalletDir :=
  if w.version ≠ walletVersion then (.error (.unsupportedVersion w.version), d)
  else if d.view[temp.name]?.isSome then (.error (.io "File exists (os error 17)"), d)
  else
    match fault with
    | some ⟨0, message⟩ => (.error (.io message), d)
    | _ => runSave temp.name target fault 1 (saveOps w.toJson) d

/-- What is left when the machine stops, and the last changes of these names are lost. -/
def crash (lost : List (String × Nat)) (loss : String → Bytes) (d : WalletDir) : WalletDir :=
  ⟨(Folder.revert d.older lost d.view).crash loss, []⟩

end WalletDir

/-! ## The commands -/

/-- What the command line prints for an error. -/
inductive CliError where
  /-- `wallet name {name:?} is not a valid file name` -/
  | invalidName (name : String)
  /-- `{path} already exists` -/
  | alreadyExists (path : String)
  /-- `no wallet for {address} in {dir}` -/
  | noWallet (address : Address) (dir : String)
  | message (text : String)
  | wallet (e : WalletError)
  | io (message : String)
  /-- An error of the HTTP client, in its own words. -/
  | transport (text : String)
deriving DecidableEq

/-- `parse_address` of the command line and of the explorer (main.rs:632, explorer main.rs:487), with the kind of their error. -/
def parseAddressAs {ε : Type} (refuse : String → ε) (value : String) : Except ε Address :=
  if byteLen (trim value) ≠ 42 ∨ (strip0x (trim value)).isNone then
    .error (refuse "address must be 0x followed by 40 hex characters")
  else (Address.fromHex (trim value)).elim (.error (refuse "address is not valid hex")) .ok

/-- `Path::exists`: links are followed. -/
def Entry.exists : Option Entry → Bool
  | some (.file _) | some .directory => true
  | some .dangling | none => false

/-- `wallet_path` (main.rs:436): the name of the file. -/
def walletPath (dir : String) (d : Folder) (name : Option String) (address : String) : Except CliError String := do
  let stem ← match name with
    | some name =>
      if name = "" ∨ '/' ∈ name.toList ∨ '\\' ∈ name.toList ∨ name = "." ∨ name = ".." then .error (.invalidName name)
      else .ok name
    | none => .ok (String.ofList ((Wallet.trimStart0x address.toList).take 8))
  let file := stem ++ ".json"
  if Entry.exists d[file]? then .error (.alreadyExists (dir ++ "/" ++ file)) else .ok file

/-- The loop of `list_wallets` (main.rs:462-477, explorer main.rs:468-481), over the entries in the order of their names,
with the error about a link that leads nowhere. -/
def scanWallets {ε : Type} (gone : String → ε) : List (String × Entry) → Except ε (List (String × Wallet))
  | [] => .ok []
  | (name, entry) :: rest =>
    if isJson name = false then scanWallets gone rest
    else
      match entry with
      | .dangling => .error (gone name)
      | .directory => scanWallets gone rest
      | .file f =>
        match Wallet.readText f.data with
        | .error _ => scanWallets gone rest
        | .ok w => (scanWallets gone rest).map ((name, w) :: ·)

/-- `list_wallets` (main.rs:460). A file above the limit is skipped, as `Wallet::read` refuses it. -/
def listWallets (d : Folder) : Except CliError (List (String × Wallet)) :=
  scanWallets (fun _ => .io "No such file or directory (os error 2)") d.toList

/-- `find_wallet` (main.rs:481). -/
def findWallet (dir : String) (d : Folder) (address : Address) : Except CliError (String × Wallet) := do
  let wallets ← listWallets d
  (wallets.find? fun p => p.2.matchesAddress address).elim (.error (.noWallet address dir)) .ok

/-- `WalletCommands` (main.rs:107). -/
inductive WalletCommand where
  | new (password : String) (name : Option String)
  | list
  | showWallet (address : String)
  | exportKey (address password : String)
  | importKey (privateKey password : String) (name : Option String)

/-- What a command reports. -/
inductive WalletOutput where
  | created (address file : String)
  | imported (address file : String)
  | listed (wallets : List (String × String))
  | shown (wallet : Wallet) (file : String)
  | exported (privateKey : String)
deriving DecidableEq

/-- The random bytes of a command and the name of its temporary file. -/
structure Draw where
  secret : Secret
  salt : Vector UInt8 32
  nonce : Vector UInt8 12
  temp : TempName

section
variable [Blake3] [Scrypt] [Aes256Gcm] [SecretKeys]

/-- `Wallet::load` (lib.rs:173). -/
def Folder.load (d : Folder) (name password : String) : Except WalletError (Wallet × Secret) :=
  Wallet.load (d.read name) password

/-- The wallet that a command makes and the file it is for (main.rs:384-385, :392-393). -/
def chooseFile (dir : String) (d : Folder) (made : Except WalletError Wallet) (name : Option String) :
    Except CliError (Wallet × String) :=
  match made with
  | .error e => .error (.wallet e)
  | .ok w => (walletPath dir d name w.address).map fun file => (w, file)

/-- The arms of `handle_wallet` that make a wallet (main.rs:383-398): the file is chosen, and the wallet saved. -/
def createWallet (dir : String) (d : WalletDir) (made : Except WalletError Wallet) (name : Option String) (temp : TempName)
    (fault : Option Fault) : Except CliError (String × String) × WalletDir :=
  match chooseFile dir d.view made name with
  | .error e => (.error e, d)
  | .ok (w, file) =>
    match d.save w file temp fault with
    | (.error e, d) => (.error (.wallet e), d)
    | (.ok (), d) => (.ok (w.address, file), d)

/-- `handle_wallet` (main.rs:381). -/
def handleWallet (dir : String) (d : WalletDir) (draw : Draw) (fault : Option Fault) :
    WalletCommand → Except CliError WalletOutput × WalletDir
  | .new password name =>
    (createWallet dir d (Wallet.fromSecret draw.secret password draw.salt draw.nonce) name draw.temp fault).map
      (·.map fun p => .created p.1 p.2) id
  | .importKey privateKey password name =>
    (createWallet dir d (Wallet.fromPrivateKey privateKey password draw.salt draw.nonce) name draw.temp fault).map
      (·.map fun p => .imported p.1 p.2) id
  | .list => ((listWallets d.view).map fun wallets => .listed (wallets.map fun p => (p.1, p.2.address)), d)
  | .showWallet address => (do
      let address ← parseAddressAs CliError.message address
      let (file, w) ← findWallet dir d.view address
      return .shown w file, d)
  | .exportKey address password => (do
      let address ← parseAddressAs CliError.message address
      let (file, _) ← findWallet dir d.view address
      let (_, secret) ← (d.view.load file password).mapError .wallet
      return .exported (displayBytes secret.toList), d)

/-! ## The key that is found -/

omit [Blake3] [Scrypt] [Aes256Gcm] [SecretKeys] in
/-- Listed wallets are those of files. -/
theorem mem_scanWallets {ε : Type} {gone : String → ε} {entries : List (String × Entry)} {wallets : List (String × Wallet)}
    (h : scanWallets gone entries = .ok wallets) {name : String} {w : Wallet} (hmem : (name, w) ∈ wallets) :
    ∃ f, (name, Entry.file f) ∈ entries ∧ Wallet.readText f.data = .ok w := by
  induction entries generalizing wallets with
  | nil =>
    cases h
    cases hmem
  | cons p rest ih =>
    obtain ⟨name', entry⟩ := p
    have hlater : ∀ {wallets}, scanWallets gone rest = .ok wallets → (name, w) ∈ wallets →
        ∃ f, (name, Entry.file f) ∈ (name', entry) :: rest ∧ Wallet.readText f.data = .ok w := by
      intro wallets h hmem
      obtain ⟨f, hf, hread⟩ := ih h hmem
      exact ⟨f, List.mem_cons_of_mem _ hf, hread⟩
    unfold scanWallets at h
    split at h
    · exact hlater h hmem
    · cases entry with
      | dangling => cases h
      | directory => exact hlater h hmem
      | file f =>
        dsimp only at h
        cases hread : Wallet.readText f.data with
        | error e =>
          rw [hread] at h
          exact hlater h hmem
        | ok found =>
          rw [hread] at h
          cases hrest : scanWallets gone rest with
          | error e => simp [hrest, Except.map] at h
          | ok more =>
            rw [hrest] at h
            cases h
            rcases List.mem_cons.mp hmem with heq | hmem
            · cases heq
              exact ⟨f, List.mem_cons_self, hread⟩
            · exact hlater hrest hmem

omit [Blake3] [Scrypt] [Aes256Gcm] [SecretKeys] in
/-- A printed address is in lower case. -/
theorem toAsciiLowercase_displayBytes (bytes : Bytes) : toAsciiLowercase (displayBytes bytes) = displayBytes bytes := by
  have hdigit : ∀ n < 16, (hexDigit n).toLower = hexDigit n := by decide
  have hbytes : (bytes.flatMap fun b => [hexDigit (b.toNat / 16), hexDigit (b.toNat % 16)]).map Char.toLower =
      bytes.flatMap fun b => [hexDigit (b.toNat / 16), hexDigit (b.toNat % 16)] := by
    rw [List.map_flatMap]
    refine List.flatMap_congr fun b _ => ?_
    have hb := b.toNat_lt
    simp [hdigit _ (show b.toNat / 16 < 16 by omega), hdigit _ (Nat.mod_lt b.toNat (by decide : 0 < 16))]
  apply String.toList_injective
  simp [toAsciiLowercase, displayBytes, hexEncode, hbytes]

omit [Blake3] [Scrypt] [Aes256Gcm] [SecretKeys] in
/-- The files of a directory are still there later. -/
def FilesStay (d d' : Folder) : Prop :=
  ∀ (name : String) (f : StoredFile), d[name]? = some (.file f) → d'[name]? = some (.file f)

/-- **A wallet that was found for an account and opens holds the account's key**, whatever else is in the directory:
opening checks the address of the file against the key. Between listing and opening the files stay. -/
theorem deriveAddress_of_found {ε : Type} {gone : String → ε} {d d' : Folder} {wallets : List (String × Wallet)}
    (hlist : scanWallets gone d.toList = .ok wallets) {address : Address} {name : String} {w : Wallet}
    (hfind : wallets.find? (fun p => p.2.matchesAddress address) = some (name, w))
    (hstay : FilesStay d d') {password : String} {opened : Wallet} {secret : Secret}
    (hload : d'.load name password = .ok (opened, secret)) :
    deriveAddress secret = address := by
  obtain ⟨f, hf, hread⟩ := mem_scanWallets hlist (List.mem_of_find?_eq_some hfind)
  have hmatch : w.matchesAddress address = true := by simpa using List.find?_some hfind
  obtain ⟨-, hfile, -, haddress⟩ := Wallet.load_ok hload
  rw [Folder.read, hstay name f (Map.mem_toList.mp hf)] at hfile
  obtain rfl : w = opened := Except.ok.inj (hread.symm.trans hfile)
  rw [Wallet.matchesAddress, haddress, toAsciiLowercase_displayBytes, toAsciiLowercase_displayBytes,
    decide_eq_true_eq] at hmatch
  have hsame := congrArg Address.fromHex hmatch
  rw [show Address.fromHex _ = some (deriveAddress secret) from fromHex_display _,
    show Address.fromHex _ = some address from fromHex_display _] at hsame
  exact Option.some.inj hsame

/-! ## Runs -/

/-- What happens to the directory. -/
inductive WalletEvent where
  | command (cmd : WalletCommand) (draw : Draw) (fault : Option Fault)
  /-- The machine stops after that many steps of the command's save. -/
  | cut (cmd : WalletCommand) (draw : Draw) (steps : Nat) (lost : List (String × Nat)) (loss : String → Bytes)
  | crash (lost : List (String × Nat)) (loss : String → Bytes)

/-- The wallet that a command makes, and the name it asks for. -/
def WalletCommand.made (draw : Draw) : WalletCommand → Option (Except WalletError Wallet × Option String)
  | .new password name => some (Wallet.fromSecret draw.secret password draw.salt draw.nonce, name)
  | .importKey privateKey password name => some (Wallet.fromPrivateKey privateKey password draw.salt draw.nonce, name)
  | .list | .showWallet _ | .exportKey _ _ => none

/-- A command of which only some steps of the save were made. -/
def cutOff (dir : String) (d : WalletDir) (cmd : WalletCommand) (draw : Draw) (steps : Nat) : WalletDir :=
  match cmd.made draw with
  | none => d
  | some (made, name) =>
    match chooseFile dir d.view made name with
    | .error _ => d
    | .ok (w, file) =>
      if d.view[draw.temp.name]?.isSome then d
      else WalletDir.performAll draw.temp.name file ((saveOps w.toJson).take steps) d

/-- One event, with the report of a command that came to its end. -/
def walletStep (dir : String) (d : WalletDir) : WalletEvent → Option (Except CliError WalletOutput) × WalletDir
  | .command cmd draw fault =>
    let (r, d) := handleWallet dir d draw fault cmd
    (some r, d)
  | .cut cmd draw steps lost loss => (none, (cutOff dir d cmd draw steps).crash lost loss)
  | .crash lost loss => (none, d.crash lost loss)

end

/-! ## The steps of a save -/

/-- The file of a saved wallet. -/
def Wallet.stored (w : Wallet) : Entry := .file ⟨w.toJson, true, Folder.ownerOnly⟩

/-- How far a save has come: nothing, a temporary file, the wallet in its place, or the directory synced. -/
inductive SaveStage (d : WalletDir) (temp target : String) (w : Wallet) : WalletDir → Prop where
  | untouched : SaveStage d temp target w d
  | written (f : StoredFile) : SaveStage d temp target w (d.change (d.view.insert temp (.file f)))
  | placed : SaveStage d temp target w ⟨d.view.insert target w.stored, d.view.insert temp w.stored :: d.states⟩
  | synced : SaveStage d temp target w ⟨d.view.insert target w.stored, []⟩

theorem changeFile_insert (change : StoredFile → StoredFile) (name : String) (d : Folder) (f : StoredFile) :
    Folder.changeFile change name (d.insert name (.file f)) = d.insert name (.file (change f)) := by
  rw [Folder.changeFile, Map.get_insert_self]
  exact Map.insert_insert ..

/-- The first four steps write the temporary file. -/
theorem performAll_four (d : WalletDir) (temp target : String) (w : Wallet) :
    WalletDir.performAll temp target ((saveOps w.toJson).take 4) d = d.change (d.view.insert temp w.stored) := by
  simp only [saveOps, List.take_succ_cons, List.take_zero, WalletDir.performAll, List.foldl_cons, List.foldl_nil,
    WalletDir.perform, WalletDir.change, changeFile_insert, List.nil_append]
  rfl

/-- The temporary file moves to the target. -/
theorem performAll_five {d : WalletDir} {temp : String} (hfree : d.view[temp]? = none) (target : String) (w : Wallet) :
    WalletDir.performAll temp target ((saveOps w.toJson).take 5) d =
      ⟨d.view.insert target w.stored, d.view.insert temp w.stored :: d.states⟩ := by
  have hsplit : WalletDir.performAll temp target ((saveOps w.toJson).take 5) d =
      WalletDir.perform temp target .rename (WalletDir.performAll temp target ((saveOps w.toJson).take 4) d) := rfl
  rw [hsplit, performAll_four]
  simp only [WalletDir.perform, WalletDir.change, WalletDir.states, Map.get_insert_self, Option.elim_some,
    Map.erase_insert _ hfree]

/-- All steps put the wallet in its place, and the directory on the disk. -/
theorem performAll_saveOps {d : WalletDir} {temp : String} (hfree : d.view[temp]? = none) (target : String) (w : Wallet) :
    WalletDir.performAll temp target (saveOps w.toJson) d = ⟨d.view.insert target w.stored, []⟩ := by
  have hsplit : WalletDir.performAll temp target (saveOps w.toJson) d =
      WalletDir.perform temp target .syncDir (WalletDir.performAll temp target ((saveOps w.toJson).take 5) d) := rfl
  rw [hsplit, performAll_five hfree, WalletDir.perform]

/-- Any number of steps. -/
theorem saveStage_take {d : WalletDir} {temp : String} (hfree : d.view[temp]? = none) (target : String) (w : Wallet) (k : Nat) :
    SaveStage d temp target w (WalletDir.performAll temp target ((saveOps w.toJson).take k) d) := by
  have hrenamed : SaveStage d temp target w (WalletDir.performAll temp target ((saveOps w.toJson).take 5) d) := by
    rw [performAll_five hfree]
    exact .placed
  rcases k with _ | _ | _ | _ | _ | _ | _ | k
  · exact .untouched
  · exact .written _
  · simp only [saveOps, List.take_succ_cons, List.take_zero, WalletDir.performAll, List.foldl_cons, List.foldl_nil,
      WalletDir.perform, WalletDir.change, changeFile_insert]
    exact .written _
  · simp only [saveOps, List.take_succ_cons, List.take_zero, WalletDir.performAll, List.foldl_cons, List.foldl_nil,
      WalletDir.perform, WalletDir.change, changeFile_insert]
    exact .written _
  · rw [performAll_four]
    exact .written _
  · exact hrenamed
  · exact hrenamed
  · rw [List.take_of_length_le (by simp [saveOps]), performAll_saveOps hfree]
    exact .synced

/-- What may be on the disk at some moment of a save: what may have been before, the directory with a temporary file, or
with the wallet. -/
inductive Touched (d : WalletDir) (temp target : String) (w : Wallet) : Folder → Prop where
  | before {s : Folder} (h : s ∈ d.states) : Touched d temp target w s
  | written (free : d.view[temp]? = none) (e : Entry) : Touched d temp target w (d.view.insert temp e)
  | placed : Touched d temp target w (d.view.insert target w.stored)

theorem SaveStage.touched {d d' : WalletDir} {temp target : String} {w : Wallet} (h : SaveStage d temp target w d')
    (hfree : d.view[temp]? = none) : ∀ s ∈ d'.states, Touched d temp target w s := by
  cases h with
  | untouched => exact fun _ => .before
  | written f => exact List.forall_mem_cons.mpr ⟨.written hfree _, fun _ => .before⟩
  | placed => exact List.forall_mem_cons.mpr ⟨.placed, List.forall_mem_cons.mpr ⟨.written hfree _, fun _ => .before⟩⟩
  | synced => exact List.forall_mem_singleton.mpr .placed

/-- The temporary file is dropped, if there is one. -/
theorem SaveStage.touched_dropTemp {d d' : WalletDir} {temp target : String} {w : Wallet} (h : SaveStage d temp target w d')
    (hfree : d.view[temp]? = none) (hne : target ≠ temp) : ∀ s ∈ (d'.dropTemp temp).states, Touched d temp target w s := by
  refine List.forall_mem_cons.mpr ⟨?_, h.touched hfree⟩
  change Touched d temp target w (d'.view.erase temp)
  have hsame : Touched d temp target w d.view := .before (List.mem_cons_self ..)
  have hgone : (d.view.insert target w.stored)[temp]? = none := by rw [Map.get_insert_ne _ _ hne, hfree]
  cases h with
  | untouched => rwa [Map.erase_of_none hfree]
  | written f =>
    rw [WalletDir.change, Map.erase_insert _ hfree]
    exact hsame
  | placed =>
    rw [Map.erase_of_none hgone]
    exact .placed
  | synced =>
    rw [Map.erase_of_none hgone]
    exact .placed

/-- A save runs to its end, or some steps and then the removal of the temporary file. -/
theorem runSave_cases (temp target : String) (fault : Option Fault) (ops : List FsOp) (i : Nat) (d : WalletDir) :
    WalletDir.runSave temp target fault i ops d = (.ok (), WalletDir.performAll temp target ops d) ∨
      ∃ k message, WalletDir.runSave temp target fault i ops d =
        (.error (.io message), (WalletDir.performAll temp target (ops.take k) d).dropTemp temp) := by
  induction ops generalizing i d with
  | nil => exact .inl rfl
  | cons op ops ih =>
    have hnext : WalletDir.runSave temp target fault (i + 1) ops (WalletDir.perform temp target op d) =
          (.ok (), WalletDir.performAll temp target (op :: ops) d) ∨
        ∃ k message, WalletDir.runSave temp target fault (i + 1) ops (WalletDir.perform temp target op d) =
          (.error (.io message), (WalletDir.performAll temp target ((op :: ops).take k) d).dropTemp temp) := by
      rcases ih (i + 1) (WalletDir.perform temp target op d) with h | ⟨k, message, h⟩
      · exact .inl h
      · exact .inr ⟨k + 1, message, h⟩
    cases fault with
    | none => exact hnext
    | some f =>
      rw [WalletDir.runSave]
      split
      · exact .inr ⟨0, f.message, rfl⟩
      · exact hnext

/-- **A save** never shows more of a wallet than a temporary file, or the whole wallet in its place. If it reports success,
the wallet is in its place and on the disk. -/
theorem save_cases (d : WalletDir) (w : Wallet) {target : String} {temp : TempName} (htarget : isJson target = true)
    (fault : Option Fault) :
    (∀ s ∈ (d.save w target temp fault).2.states, Touched d temp.name target w s) ∧
      ((d.save w target temp fault).1 = .ok () → (d.save w target temp fault).2 = ⟨d.view.insert target w.stored, []⟩) := by
  have hne : target ≠ temp.name := by
    rintro rfl
    rw [temp.plain] at htarget
    cases htarget
  unfold WalletDir.save
  split
  · exact ⟨fun _ => .before, by simp⟩
  split
  · exact ⟨fun _ => .before, by simp⟩
  rename_i hversion htemp
  have hfree : d.view[temp.name]? = none := by simpa using htemp
  split
  · exact ⟨fun _ => .before, by simp⟩
  · rcases runSave_cases temp.name target fault (saveOps w.toJson) 1 d with h | ⟨k, message, h⟩
    · rw [h, performAll_saveOps hfree]
      exact ⟨List.forall_mem_singleton.mpr .placed, fun _ => rfl⟩
    · rw [h]
      exact ⟨(saveStage_take hfree target w k).touched_dropTemp hfree hne, fun hok => by cases hok⟩

/-! ## What an event does -/

/-- A file that has reached the disk, and its name, too. -/
structure WalletDir.OnDisk (d : WalletDir) (name : String) (f : StoredFile) : Prop where
  found : ∀ s ∈ d.states, s[name]? = some (.file f)
  synced : f.synced = true

theorem WalletDir.OnDisk.view {d : WalletDir} {name : String} {f : StoredFile} (h : d.OnDisk name f) :
    d.view[name]? = some (.file f) := h.found d.view (List.mem_cons_self ..)

/-- What stays: files that have reached the disk with their names. -/
def Keeps (d d' : WalletDir) : Prop := ∀ name f, d.OnDisk name f → d'.OnDisk name f

theorem Keeps.trans {d d' d'' : WalletDir} (h : Keeps d d') (h' : Keeps d' d'') : Keeps d d'' :=
  fun name f hf => h' name f (h name f hf)

/-- A new name changes no file. -/
theorem get_insert_of_free {d : Folder} {name other : String} (h : Entry.exists d[name]? = false) (e : Entry)
    {f : StoredFile} (hf : d[other]? = some (.file f)) : (d.insert name e)[other]? = some (.file f) := by
  have hne : name ≠ other := by
    rintro rfl
    rw [hf] at h
    cases h
  rw [Map.get_insert_ne _ _ hne, hf]

/-- A name that is reverted stands for something that it stood for. -/
theorem get_revert (older : List Folder) (lost : List (String × Nat)) (view : Folder) (name : String) :
    ∃ s ∈ view :: older, (Folder.revert older lost view)[name]? = s[name]? := by
  -- whatever was reverted before, names stand for something that they stood for
  have hfrom : ∀ (lost : List (String × Nat)) (d : Folder), (∃ s ∈ view :: older, d[name]? = s[name]?) →
      ∃ s ∈ view :: older, (Folder.revert older lost d)[name]? = s[name]? := by
    intro lost
    induction lost with
    | nil => exact fun d h => h
    | cons l lost ih =>
      intro d h
      refine ih _ ?_
      dsimp only
      cases hold : older[l.2]? with
      | none => exact h
      | some old =>
        rw [Option.elim_some]
        by_cases hname : l.1 = name
        · refine ⟨old, List.mem_cons_of_mem _ (List.mem_of_getElem? hold), ?_⟩
          subst hname
          cases hentry : old[l.1]? with
          | none => exact Map.get_erase_self ..
          | some e => exact Map.get_insert_self ..
        · obtain ⟨s, hs, hd⟩ := h
          refine ⟨s, hs, hd ▸ ?_⟩
          cases hentry : old[l.1]? with
          | none => exact Map.get_erase_ne _ hname
          | some e => exact Map.get_insert_ne _ _ hname
  exact hfrom lost view ⟨view, List.mem_cons_self .., rfl⟩

/-- After a crash there is what may have been on the disk, up to data that were not synced. -/
theorem get_crash (lost : List (String × Nat)) (loss : String → Bytes) (d : WalletDir) (name : String) :
    ∃ s ∈ d.states, (d.crash lost loss).view[name]? = s[name]?.map (Entry.crash (loss name)) := by
  obtain ⟨s, hs, hname⟩ := get_revert d.older lost d.view name
  refine ⟨s, hs, ?_⟩
  rw [WalletDir.crash, Folder.crash, Map.get_retain, hname]
  cases s[name]? <;> rfl

theorem Keeps.crash (d : WalletDir) (lost : List (String × Nat)) (loss : String → Bytes) : Keeps d (d.crash lost loss) := by
  intro name f hf
  obtain ⟨s, hs, hleft⟩ := get_crash lost loss d name
  rw [hf.found s hs, Option.map_some, Entry.crash, if_pos hf.synced] at hleft
  exact ⟨List.forall_mem_singleton.mpr hleft, hf.synced⟩

/-- The command saves this wallet as this file, whose name is free. -/
structure Saves [Blake3] [Scrypt] [Aes256Gcm] [SecretKeys] (d : Folder) (cmd : WalletCommand) (draw : Draw) (w : Wallet)
    (file : String) : Prop where
  made : ∃ name, cmd.made draw = some (.ok w, name)
  json : isJson file = true
  free : Entry.exists d[file]? = false

theorem isJson_append {stem : String} (h : stem ≠ "") : isJson (stem ++ ".json") = true := by
  have hpos : 0 < stem.toList.length := by
    rw [List.length_pos_iff]
    intro hnil
    exact h (String.toList_inj.mp hnil)
  rw [isJson, String.toList_append, Bool.and_eq_true, List.isSuffixOf_iff_suffix, decide_eq_true_eq, List.length_append]
  exact ⟨List.suffix_append .., by simp; omega⟩

/-- `0x` is cut off a printed address, and no more. -/
theorem trimStart0x_displayBytes {b : UInt8} {bytes : Bytes} :
    Wallet.trimStart0x (displayBytes (b :: bytes)).toList = (hexEncode (b :: bytes)).toList := by
  have hx : ∀ n < 16, hexDigit n ≠ 'x' := by decide
  have hlow := hx (b.toNat % 16) (Nat.mod_lt _ (by decide))
  have hprinted : (displayBytes (b :: bytes)).toList = '0' :: 'x' :: (hexEncode (b :: bytes)).toList := by
    rw [displayBytes, String.toList_append]
    rfl
  rw [hprinted, Wallet.trimStart0x]
  have hdigits : (hexEncode (b :: bytes)).toList =
      hexDigit (b.toNat / 16) :: hexDigit (b.toNat % 16) :: (hexEncode bytes).toList := by
    simp [hexEncode]
  rw [hdigits]
  unfold Wallet.trimStart0x
  split
  · rename_i heq
    exact absurd (List.cons.inj (List.cons.inj heq).2).1 hlow
  · rfl

/-- A chosen file has the extension and a free name. -/
theorem walletPath_ok {dir : String} {d : Folder} {name : Option String} {a : Address} {file : String}
    (h : walletPath dir d name (displayBytes a.toList) = .ok file) : isJson file = true ∧ Entry.exists d[file]? = false := by
  have hstem : ∀ stem : String, (if Entry.exists d[stem ++ ".json"]? then
        (.error (.alreadyExists (dir ++ "/" ++ (stem ++ ".json"))) : Except CliError String) else .ok (stem ++ ".json")) = .ok file →
      stem ≠ "" → isJson file = true ∧ Entry.exists d[file]? = false := by
    intro stem hfile hne
    split at hfile
    · cases hfile
    · rename_i hfree
      cases hfile
      exact ⟨isJson_append hne, by simpa using hfree⟩
  cases name with
  | some name =>
    rw [walletPath] at h
    dsimp only at h
    split at h
    · cases h
    · rename_i hvalid
      simp only [not_or] at hvalid
      exact hstem name h hvalid.1
  | none =>
    refine hstem _ h ?_
    obtain ⟨b, bytes, hbytes⟩ : ∃ b bytes, a.toList = b :: bytes :=
      List.exists_cons_of_length_pos (by rw [Vector.length_toList]; decide)
    rw [hbytes, trimStart0x_displayBytes, hexEncode]
    simp

section
variable [Blake3] [Scrypt] [Aes256Gcm] [SecretKeys]

omit [Blake3] [Scrypt] [Aes256Gcm] [SecretKeys] in
/-- The key that a command stores, and the password it is stored under. -/
def WalletCommand.key (draw : Draw) : WalletCommand → Option (Secret × String)
  | .new password _ => some (draw.secret, password)
  | .importKey privateKey password _ =>
    ((hexDecode (Wallet.trimStart0x (trim privateKey).toList)).bind (toArray? 32)).map fun secret => (secret, password)
  | .list | .showWallet _ | .exportKey _ _ => none

/-- A wallet that a command makes is made of its key. -/
theorem made_ok {cmd : WalletCommand} {draw : Draw} {w : Wallet} {name : Option String}
    (h : cmd.made draw = some (.ok w, name)) :
    ∃ secret password, cmd.key draw = some (secret, password) ∧
      Wallet.fromSecret secret password draw.salt draw.nonce = .ok w := by
  cases cmd with
  | new password _ => exact ⟨draw.secret, password, rfl, (Prod.mk.inj (Option.some.inj h)).1⟩
  | importKey privateKey password _ =>
    have hmade : Wallet.fromPrivateKey privateKey password draw.salt draw.nonce = .ok w :=
      (Prod.mk.inj (Option.some.inj h)).1
    rw [Wallet.fromPrivateKey] at hmade
    cases hsecret : (hexDecode (Wallet.trimStart0x (trim privateKey).toList)).bind (toArray? 32) with
    | none => simp [hsecret] at hmade
    | some secret =>
      rw [hsecret] at hmade
      exact ⟨secret, password, by rw [WalletCommand.key, hsecret]; rfl, hmade⟩
  | list => cases h
  | showWallet => cases h
  | exportKey => cases h

/-- A command that has chosen a file saves there. -/
theorem chooseFile_ok {dir : String} {d : Folder} {cmd : WalletCommand} {draw : Draw} {made : Except WalletError Wallet}
    {name : Option String} (hmade : cmd.made draw = some (made, name)) {w : Wallet} {file : String}
    (h : chooseFile dir d made name = .ok (w, file)) : Saves d cmd draw w file := by
  cases made with
  | error e => cases h
  | ok w' =>
    rw [chooseFile] at h
    cases hpath : walletPath dir d name w'.address with
    | error e => simp [hpath, Except.map] at h
    | ok file' =>
      rw [hpath] at h
      cases h
      obtain ⟨secret, password, -, hsecret⟩ := made_ok hmade
      rw [(Wallet.fromSecret_ok_iff.mp hsecret).2] at hpath
      obtain ⟨hjson, hfree⟩ := walletPath_ok hpath
      exact ⟨⟨name, hmade⟩, hjson, hfree⟩

omit [Blake3] [Scrypt] [Aes256Gcm] [SecretKeys] in
/-- What a command reports to have saved, with its address. -/
def WalletOutput.saved : WalletOutput → Option (String × String)
  | .created address file | .imported address file => some (address, file)
  | .listed _ | .shown _ _ | .exported _ => none

/-- What may be on the disk at some moment of a command: what may have been before, or what its save shows. -/
def Reached (d : WalletDir) (cmd : WalletCommand) (draw : Draw) (s : Folder) : Prop :=
  s ∈ d.states ∨ ∃ w file, Saves d.view cmd draw w file ∧ Touched d draw.temp.name file w s

/-- What a command reports is on the disk, and what may be there otherwise its save has shown. -/
theorem createWallet_cases (dir : String) (d : WalletDir) {cmd : WalletCommand} {draw : Draw}
    {made : Except WalletError Wallet} {name : Option String} (hmade : cmd.made draw = some (made, name))
    (fault : Option Fault) :
    (∀ s ∈ (createWallet dir d made name draw.temp fault).2.states, Reached d cmd draw s) ∧
      ∀ p, (createWallet dir d made name draw.temp fault).1 = .ok p → ∃ w file, Saves d.view cmd draw w file ∧
        p = (w.address, file) ∧ (createWallet dir d made name draw.temp fault).2 = ⟨d.view.insert file w.stored, []⟩ := by
  unfold createWallet
  cases hchosen : chooseFile dir d.view made name with
  | error e => exact ⟨fun _ => .inl, by simp⟩
  | ok p =>
    obtain ⟨w, file⟩ := p
    have hsaves := chooseFile_ok hmade hchosen
    obtain ⟨hstates, hsaved⟩ := @save_cases d w file draw.temp hsaves.json fault
    have hreached : ∀ s ∈ (d.save w file draw.temp fault).2.states, Reached d cmd draw s :=
      fun s hs => .inr ⟨w, file, hsaves, hstates s hs⟩
    dsimp only
    generalize d.save w file draw.temp fault = result at hsaved hreached ⊢
    obtain ⟨e | u, d'⟩ := result
    · exact ⟨hreached, by simp⟩
    · exact ⟨hreached, fun p hp => ⟨w, file, hsaves, (Except.ok.inj hp).symm, hsaved rfl⟩⟩

theorem handleWallet_cases (dir : String) (d : WalletDir) (draw : Draw) (fault : Option Fault) (cmd : WalletCommand) :
    (∀ s ∈ (handleWallet dir d draw fault cmd).2.states, Reached d cmd draw s) ∧
      ∀ out p, (handleWallet dir d draw fault cmd).1 = .ok out → out.saved = some p → ∃ w file, Saves d.view cmd draw w file ∧
        p = (w.address, file) ∧ (handleWallet dir d draw fault cmd).2 = ⟨d.view.insert file w.stored, []⟩ := by
  have hcreate : ∀ {made : Except WalletError Wallet} {name : Option String} {report : String × String → WalletOutput},
      cmd.made draw = some (made, name) → (∀ p, (report p).saved = some p) →
      handleWallet dir d draw fault cmd = (createWallet dir d made name draw.temp fault).map (·.map report) id →
      (∀ s ∈ (handleWallet dir d draw fault cmd).2.states, Reached d cmd draw s) ∧
        ∀ out p, (handleWallet dir d draw fault cmd).1 = .ok out → out.saved = some p →
          ∃ w file, Saves d.view cmd draw w file ∧ p = (w.address, file) ∧
            (handleWallet dir d draw fault cmd).2 = ⟨d.view.insert file w.stored, []⟩ := by
    intro made name report hmade hreport hrun
    rw [hrun]
    obtain ⟨hreached, hreported⟩ := createWallet_cases dir d hmade fault
    generalize createWallet dir d made name draw.temp fault = result at hreached hreported ⊢
    obtain ⟨r, d'⟩ := result
    refine ⟨hreached, fun out p hout hsaved => ?_⟩
    cases r with
    | error e => cases hout
    | ok q =>
      cases hout
      rw [hreport q, Option.some.injEq] at hsaved
      exact hsaved ▸ hreported q rfl
  -- the other commands leave the directory as it is and report no wallet
  have hreads : ∀ {result : Except CliError WalletOutput}, handleWallet dir d draw fault cmd = (result, d) →
      (∀ out, result = .ok out → out.saved = none) →
      (∀ s ∈ (handleWallet dir d draw fault cmd).2.states, Reached d cmd draw s) ∧
        ∀ out p, (handleWallet dir d draw fault cmd).1 = .ok out → out.saved = some p →
          ∃ w file, Saves d.view cmd draw w file ∧ p = (w.address, file) ∧
            (handleWallet dir d draw fault cmd).2 = ⟨d.view.insert file w.stored, []⟩ := by
    intro result hrun hnone
    rw [hrun]
    refine ⟨fun _ => .inl, fun out p hout hsaved => ?_⟩
    rw [hnone out hout] at hsaved
    cases hsaved
  cases cmd with
  | new password name => exact hcreate rfl (fun p => rfl) rfl
  | importKey privateKey password name => exact hcreate rfl (fun p => rfl) rfl
  | list =>
    refine hreads rfl fun out hout => ?_
    cases hlist : listWallets d.view <;> rw [hlist] at hout <;> cases hout
    rfl
  | showWallet address =>
    refine hreads rfl fun out hout => ?_
    obtain ⟨a, -, hout⟩ := exists_ok_of_bind hout
    obtain ⟨p, -, hout⟩ := exists_ok_of_bind hout
    cases hout
    rfl
  | exportKey address password =>
    refine hreads rfl fun out hout => ?_
    obtain ⟨a, -, hout⟩ := exists_ok_of_bind hout
    obtain ⟨p, -, hout⟩ := exists_ok_of_bind hout
    obtain ⟨q, -, hout⟩ := exists_ok_of_bind hout
    cases hout
    rfl

theorem cutOff_reached (dir : String) (d : WalletDir) (cmd : WalletCommand) (draw : Draw) (steps : Nat) :
    ∀ s ∈ (cutOff dir d cmd draw steps).states, Reached d cmd draw s := by
  unfold cutOff
  cases hmade : cmd.made draw with
  | none => exact fun _ => .inl
  | some p =>
    obtain ⟨made, name⟩ := p
    dsimp only
    cases hchosen : chooseFile dir d.view made name with
    | error e => exact fun _ => .inl
    | ok p =>
      obtain ⟨w, file⟩ := p
      dsimp only
      split
      · exact fun _ => .inl
      · rename_i htemp
        have hfree : d.view[draw.temp.name]? = none := by simpa using htemp
        have htouched := (saveStage_take hfree file w steps).touched hfree
        exact fun s hs => .inr ⟨w, file, chooseFile_ok hmade hchosen, htouched s hs⟩

/-- A command changes no file that has reached the disk with its name. -/
theorem Keeps.reached {d d' : WalletDir} {cmd : WalletCommand} {draw : Draw} (h : ∀ s ∈ d'.states, Reached d cmd draw s) :
    Keeps d d' := by
  intro name f hf
  refine ⟨fun s hs => ?_, hf.synced⟩
  rcases h s hs with hbefore | ⟨w, file, hsaves, htouched⟩
  · exact hf.found s hbefore
  · cases htouched with
    | before hbefore => exact hf.found s hbefore
    | written hfree e => exact get_insert_of_free (by rw [hfree]; rfl) e hf.view
    | placed => exact get_insert_of_free hsaves.free _ hf.view

/-- **One event** changes no file that has reached the disk with its name. -/
theorem walletStep_keeps (dir : String) (d : WalletDir) (e : WalletEvent) : Keeps d (walletStep dir d e).2 := by
  cases e with
  | command cmd draw fault => exact .reached (handleWallet_cases dir d draw fault cmd).1
  | cut cmd draw steps lost loss => exact (Keeps.reached (cutOff_reached dir d cmd draw steps)).trans (.crash _ lost loss)
  | crash lost loss => exact .crash d lost loss

/-- A file holds the wallet of this key, for its owner only, and opens with this password. -/
def Opens (d : Folder) (file password : String) (secret : Secret) : Prop :=
  ∃ w : Wallet, d[file]? = some w.stored ∧ w.address = displayBytes (deriveAddress secret).toList ∧
    d.load file password = .ok (w, secret)

theorem opens_of_stored {d : Folder} {file password : String} {secret : Secret} {salt : Vector UInt8 32}
    {nonce : Vector UInt8 12} {w : Wallet} (hw : Wallet.fromSecret secret password salt nonce = .ok w)
    (hfile : d[file]? = some w.stored) : Opens d file password secret := by
  obtain ⟨-, hread⟩ := Wallet.readText_fromSecret hw
  have hfound : d.read file = .ok w := by
    rw [Folder.read, hfile]
    exact hread
  refine ⟨w, hfile, ?_, ?_⟩
  · rw [(Wallet.fromSecret_ok_iff.mp hw).2]
  · rw [Folder.load, hfound, Wallet.load_fromSecret hw]

/-- What a call has established: the files before it are there, and so is the wallet that it reports, on the disk. -/
def Established (c : Call WalletDir WalletEvent (Option (Except CliError WalletOutput))) (d : WalletDir) : Prop :=
  Keeps c.before d ∧ ∀ cmd draw fault out address file, c.input = .command cmd draw fault → c.result = some (.ok out) →
    out.saved = some (address, file) →
      ∃ w name, cmd.made draw = some (.ok w, name) ∧ w.address = address ∧
        d.OnDisk file ⟨w.toJson, true, Folder.ownerOnly⟩

theorem established_step (dir : String) (d : WalletDir) (e : WalletEvent) :
    Established ⟨d, e, (walletStep dir d e).1, (walletStep dir d e).2⟩ (walletStep dir d e).2 := by
  refine ⟨walletStep_keeps dir d e, ?_⟩
  rintro cmd draw fault out address file rfl hresult hsaved
  have hout : (handleWallet dir d draw fault cmd).1 = .ok out := Option.some.inj hresult
  obtain ⟨w, file', ⟨⟨name, hmade⟩, -, -⟩, hp, hfolder⟩ :=
    (handleWallet_cases dir d draw fault cmd).2 out (address, file) hout hsaved
  cases hp
  have hstored : (walletStep dir d (.command cmd draw fault)).2 = ⟨d.view.insert file w.stored, []⟩ := hfolder
  rw [hstored]
  exact ⟨w, name, hmade, rfl, List.forall_mem_singleton.mpr (Map.get_insert_self ..), rfl⟩

theorem Established.step {dir : String} {c : Call WalletDir WalletEvent (Option (Except CliError WalletOutput))}
    {d : WalletDir} (h : Established c d) (e : WalletEvent) : Established c (walletStep dir d e).2 := by
  have hkeeps := walletStep_keeps dir d e
  refine ⟨h.1.trans hkeeps, ?_⟩
  intro cmd draw fault out address file hinput hresult hsaved
  obtain ⟨w, name, hmade, haddress, hstored⟩ := h.2 cmd draw fault out address file hinput hresult hsaved
  exact ⟨w, name, hmade, haddress, hkeeps file _ hstored⟩

/-- **Keys survive.** From any directory, over any sequence of wallet commands, of failures at any step of a save and of
crashes at any moment, which may undo whatever the directory was not synced for: a file that has reached the disk with
its name is never changed or removed, and a wallet that was reported as created or imported is there at the end, for its
owner only, and opens with its password to its key. -/
theorem keys_survive (dir : String) (d : WalletDir) (events : List WalletEvent) :
    ∀ c ∈ trace (walletStep dir) d events,
      Keeps c.before (final (walletStep dir) d events) ∧
      ∀ cmd draw fault out address file, c.input = .command cmd draw fault → c.result = some (.ok out) →
        out.saved = some (address, file) →
          ∃ secret password, cmd.key draw = some (secret, password) ∧ address = displayBytes (deriveAddress secret).toList ∧
            Opens (final (walletStep dir) d events).view file password secret := by
  intro c hc
  have hend : Established c (final (walletStep dir) d events) :=
    final_of_trace (walletStep dir) (fun _ => True) (fun _ => True) Established (fun _ _ _ => trivial)
      (fun d e _ _ => established_step dir d e) (fun _ _ e h _ => h.step e) trivial events (fun _ _ => trivial) c hc
  refine ⟨hend.1, ?_⟩
  intro cmd draw fault out address file hinput hresult hsaved
  obtain ⟨w, name, hmade, rfl, hstored⟩ := hend.2 cmd draw fault out address file hinput hresult hsaved
  obtain ⟨secret, password, hkey, hw⟩ := made_ok hmade
  exact ⟨secret, password, hkey, by rw [(Wallet.fromSecret_ok_iff.mp hw).2], opens_of_stored hw hstored.view⟩

/-- The wallet is one that a command of these events makes, if only in part. -/
def MadeBy (events : List WalletEvent) (w : Wallet) : Prop :=
  ∃ cmd draw name, cmd.made draw = some (.ok w, name) ∧
    ((∃ fault, WalletEvent.command cmd draw fault ∈ events) ∨
      ∃ steps lost loss, WalletEvent.cut cmd draw steps lost loss ∈ events)

/-- Whatever may be on the disk under the name is a whole wallet of these events. -/
def Whole (file : String) (events : List WalletEvent) (d : WalletDir) : Prop :=
  ∀ s ∈ d.states, ∀ entry, s[file]? = some entry → ∃ w : Wallet, entry = w.stored ∧ MadeBy events w

/-- A command of these events makes whole wallets only. -/
theorem Whole.reached {file : String} (hjson : isJson file = true) {events : List WalletEvent} {d d' : WalletDir}
    (h : Whole file events d) {cmd : WalletCommand} {draw : Draw}
    (hmadeBy : ∀ w name, cmd.made draw = some (.ok w, name) → MadeBy events w)
    (hreached : ∀ s ∈ d'.states, Reached d cmd draw s) : Whole file events d' := by
  intro s hs entry hentry
  have hview := h d.view (List.mem_cons_self ..)
  rcases hreached s hs with hbefore | ⟨w, name, ⟨⟨asked, hmade⟩, -, -⟩, htouched⟩
  · exact h s hbefore entry hentry
  · cases htouched with
    | before hbefore => exact h s hbefore entry hentry
    | written hfree e =>
      -- the temporary file has another name
      have hne : draw.temp.name ≠ file := by
        rintro rfl
        rw [draw.temp.plain] at hjson
        cases hjson
      rw [Map.get_insert_ne _ _ hne] at hentry
      exact hview entry hentry
    | placed =>
      by_cases hname : name = file
      · rw [hname, Map.get_insert_self, Option.some.injEq] at hentry
        exact ⟨w, hentry.symm, hmadeBy w asked hmade⟩
      · rw [Map.get_insert_ne _ _ hname] at hentry
        exact hview entry hentry

theorem Whole.crash {file : String} {events : List WalletEvent} {d : WalletDir} (h : Whole file events d)
    (lost : List (String × Nat)) (loss : String → Bytes) : Whole file events (d.crash lost loss) := by
  refine List.forall_mem_singleton.mpr fun entry hentry => ?_
  obtain ⟨s, hs, hleft⟩ := get_crash lost loss d file
  rw [hentry] at hleft
  obtain ⟨before, hbefore, rfl⟩ := Option.map_eq_some_iff.mp hleft.symm
  obtain ⟨w, rfl, hw⟩ := h s hs before hbefore
  exact ⟨w, rfl, hw⟩

theorem Whole.step {dir file : String} (hjson : isJson file = true) {events : List WalletEvent} {d : WalletDir}
    (h : Whole file events d) {e : WalletEvent} (he : e ∈ events) : Whole file events (walletStep dir d e).2 := by
  cases e with
  | command cmd draw fault =>
    exact h.reached hjson (fun w name hmade => ⟨cmd, draw, name, hmade, .inl ⟨fault, he⟩⟩)
      (handleWallet_cases dir d draw fault cmd).1
  | cut cmd draw steps lost loss =>
    have hcut := h.reached hjson (fun w name hmade => ⟨cmd, draw, name, hmade, .inr ⟨steps, lost, loss, he⟩⟩)
      (cutOff_reached dir d cmd draw steps)
    exact hcut.crash lost loss
  | crash lost loss => exact h.crash lost loss

/-- **No half-written wallet.** Whatever failed or was cut off, a file with the extension that was not there at the start,
nor may have been on the disk, is a whole wallet, and one of the commands has made it. -/
theorem wallets_whole (dir : String) (d : WalletDir) (events : List WalletEvent) {file : String} (hjson : isJson file = true)
    (hnew : ∀ s ∈ d.states, s[file]? = none) {entry : Entry}
    (h : (final (walletStep dir) d events).view[file]? = some entry) :
    ∃ w : Wallet, entry = w.stored ∧ MadeBy events w := by
  have hrun : ∀ (later : List WalletEvent) (d : WalletDir), (∀ e ∈ later, e ∈ events) → Whole file events d →
      Whole file events (final (walletStep dir) d later) := by
    intro later
    induction later with
    | nil => exact fun d _ hd => hd
    | cons e later ih =>
      intro d hsub hd
      obtain ⟨he, hsub⟩ := List.forall_mem_cons.mp hsub
      exact ih _ hsub (hd.step hjson he)
  have hstart : Whole file events d := by
    intro s hs entry hentry
    rw [hnew s hs] at hentry
    cases hentry
  exact hrun events d (fun e he => he) hstart _ (List.mem_cons_self ..) entry h

end

namespace Concrete

scoped instance scrypt : Scrypt where
  accepts logN r p := logN = 15 ∧ r = 8 ∧ p = 1
  derive _ _ _ _ _ := Vector.replicate 32 7
  standard := by decide

scoped instance aes256Gcm : Aes256Gcm where
  encrypt _ _ plaintext := plaintext ++ List.replicate 16 0
  decrypt _ _ ciphertext := some (ciphertext.take (ciphertext.length - 16))
  length_encrypt _ _ plaintext := by simp
  decrypt_encrypt _ _ plaintext := by simp

scoped instance secretKeys : SecretKeys := ⟨fun secret => ⟨secret, fun _ => Vector.replicate 64 7⟩⟩

end Concrete

section
open scoped Concrete

def sampleDraw (temp : TempName) : Draw := ⟨Vector.replicate 32 1, Vector.replicate 32 2, Vector.replicate 12 3, temp⟩

def emptyDir : WalletDir := ⟨∅, []⟩

/-- A wallet is created; a second save is cut off after its rename, which is undone, and the crash would undo the first
one as well if it could; then the machine stops once more. -/
def cutEvents : List WalletEvent :=
  [.command (.new "correct horse" (some "alice")) (sampleDraw ⟨".tmpA", by decide⟩) none,
    .cut (.new "battery staple" (some "bob")) (sampleDraw ⟨".tmpB", by decide⟩) 6
      [("alice.json", 1), ("bob.json", 0), (".tmpB", 0)] fun _ => [],
    .crash [] fun _ => []]

theorem keys_survive_cut :
    (final (walletStep "wallets") emptyDir cutEvents).view["bob.json"]? = none ∧
    (final (walletStep "wallets") emptyDir cutEvents).view[".tmpB"]?.isSome ∧
    Opens (final (walletStep "wallets") emptyDir cutEvents).view "alice.json" "correct horse" (Vector.replicate 32 1) := by
  have hmade : (walletStep "wallets" emptyDir
      (.command (.new "correct horse" (some "alice")) (sampleDraw ⟨".tmpA", by decide⟩) none)).1 =
      some (.ok (.created (displayBytes (deriveAddress (Vector.replicate 32 1)).toList) "alice.json")) := by decide +kernel
  obtain ⟨secret, password, hkey, -, hopens⟩ := (keys_survive "wallets" emptyDir cutEvents _ (List.mem_cons_self ..)).2
    _ _ _ _ _ _ rfl hmade rfl
  cases hkey
  exact ⟨by decide +kernel, by decide +kernel, hopens⟩

/-- A save that fails after the rename. -/
def lateFailure : List WalletEvent :=
  [.command (.new "correct horse" (some "alice")) (sampleDraw ⟨".tmpA", by decide⟩) (some ⟨7, "Input/output error"⟩)]

theorem wallets_whole_late :
    (walletStep "wallets" emptyDir (.command (.new "correct horse" (some "alice")) (sampleDraw ⟨".tmpA", by decide⟩)
      (some ⟨7, "Input/output error"⟩))).1 = some (.error (.wallet (.io "Input/output error"))) ∧
    ∃ entry w, (final (walletStep "wallets") emptyDir lateFailure).view["alice.json"]? = some entry ∧ entry = w.stored ∧
      MadeBy lateFailure w := by
  refine ⟨by decide +kernel, ?_⟩
  have hthere : ((final (walletStep "wallets") emptyDir lateFailure).view["alice.json"]?).isSome := by decide +kernel
  obtain ⟨entry, hentry⟩ := Option.isSome_iff_exists.mp hthere
  obtain ⟨w, hw, hmade⟩ := wallets_whole "wallets" emptyDir lateFailure (by decide) (by simp [WalletDir.states, emptyDir]) hentry
  exact ⟨entry, w, hentry, hw, hmade⟩

/-! A directory with one wallet. -/

def payerSecret : Secret := Vector.replicate 32 1

def payer : Address := deriveAddress payerSecret

def payerWallet : Wallet :=
  ⟨displayBytes payer.toList, payerSecret.toList ++ List.replicate 16 0, List.replicate 32 2, List.replicate 12 3,
    walletVersion, .default⟩

def payerFolder : Folder := (∅ : Folder).insert "payer.json" payerWallet.stored

theorem payerWallet_made :
    Wallet.fromSecret payerSecret "correct horse" (Vector.replicate 32 2) (Vector.replicate 12 3) = .ok payerWallet :=
  Wallet.fromSecret_ok_iff.mpr ⟨by decide, by decide +kernel⟩

theorem toList_insert_empty (name : String) (e : Entry) : ((∅ : Folder).insert name e).toList = [(name, e)] := rfl

theorem scanWallets_stored {ε : Type} (gone : String → ε) {name : String} (hname : isJson name = true) {w : Wallet}
    (hread : Wallet.readText w.toJson = .ok w) : scanWallets gone [(name, w.stored)] = .ok [(name, w)] := by
  simp [scanWallets, hname, Wallet.stored, hread, Except.map]

theorem scanWallets_payer {ε : Type} (gone : String → ε) :
    scanWallets gone payerFolder.toList = .ok [("payer.json", payerWallet)] := by
  rw [payerFolder, toList_insert_empty]
  exact scanWallets_stored _ (by decide) (Wallet.readText_fromSecret payerWallet_made).2

theorem findWallet_payer (dir : String) : findWallet dir payerFolder payer = .ok ("payer.json", payerWallet) := by
  have hfind : [("payer.json", payerWallet)].find? (fun p => p.2.matchesAddress payer) = some ("payer.json", payerWallet) :=
    List.find?_cons_of_pos (by decide +kernel)
  have hlist : listWallets payerFolder = .ok [("payer.json", payerWallet)] := by
    rw [listWallets]
    exact scanWallets_payer _
  rw [findWallet, hlist]
  simp only [bind, Except.bind, hfind, Option.elim_some]

theorem load_payer : ∃ w, payerFolder.load "payer.json" "correct horse" = .ok (w, payerSecret) := by
  have hget : payerFolder["payer.json"]? = some payerWallet.stored := Map.get_insert_self ..
  obtain ⟨w, -, -, hload⟩ := opens_of_stored payerWallet_made hget
  exact ⟨w, hload⟩

end
end Subhost
