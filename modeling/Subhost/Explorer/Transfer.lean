import Subhost.Explorer.Snapshot
import Subhost.Node.Allocations
import Subhost.Rpc.Account
import Subhost.Wallet.Folder
/-!
# The explorer's transfers (explorer/src/main.rs:187-265, :464-502)

| here | there |
| --- | --- |
| `listWallets`, `parseAddress` | the same (main.rs:464, :487) |
| `openTransfer`                | `ExplorerState::transfer` up to the key (main.rs:192-214) |
| `transfer`                    | the whole of it (main.rs:188) |
| `transferAll`                 | transfers in the order in which they get `transfer_lock` (main.rs:217) |

The wallet is looked for by one reading of the directory and opened by another. The lock lets one transfer at a time
go from the nonce to the submission, but it is the explorer's own: others commit on the node meanwhile, and the network
may lose a request, or its answer after the node has acted.

`transfers_exactly_once`: as long as nobody else sends for the account, what it has sent in the end is what it had sent
before and one transaction for each transfer that was reported, in their order, besides at most one for each transfer
that failed and whose own `eth_sendTransaction` the node acted on without its answer getting through (`Settled`).
`transfer_goes_through`: a transfer that the account can pay for fails only if the node cannot store the block. A request
that the client has given up and the node executes later counts as somebody else's.
-/
namespace Subhost
open Uint Bincode Run Program JsonText RpcState

namespace Explorer

/-- `TransferRequest` (main.rs:360); `sender` and `recipient` are its `from` and `to`. -/
structure TransferRequest where
  sender : String
  recipient : String
  amount : String
  password : String

/-- `TransferResponse` (main.rs:368). -/
structure TransferResponse where
  hash : String
  sender : String
  recipient : String
  amount : String
  nonce : U64
deriving DecidableEq

/-- `parse_address` (main.rs:487). -/
def parseAddress (value : String) : Except ExplorerError Address := parseAddressAs .invalidRequest value

/-- `list_wallets` (main.rs:464). Of several links that lead nowhere the first by name is reported. -/
def listWallets (dir : String) (listed : Except String Folder) : Except ExplorerError (List (String × Wallet)) :=
  match listed with
  | .error source => .error (.io dir source)
  | .ok folder => scanWallets (fun name => .io (dir ++ "/" ++ name) "No such file or directory (os error 2)") folder.toList

/-- What a transfer is to do, and with which key. -/
structure Errand where
  sender : Address
  recipient : Address
  amount : Amount
  secret : Secret
deriving DecidableEq

section
variable [Blake3] [Scrypt] [Aes256Gcm] [SecretKeys]

/-- The part of `transfer` before the lock (main.rs:192-214), with the directory as it is when it is listed and when
the wallet is opened. -/
def openTransfer (config : Config) (listed : Except String Folder) (opened : Folder) (request : TransferRequest) :
    Except ExplorerError Errand := do
  let dir ← config.walletDir.elim (.error .walletsUnavailable) .ok
  let sender ← parseAddress request.sender
  let recipient ← parseAddress request.recipient
  if sender = recipient then throw (.invalidRequest "sender and recipient must differ")
  let amount ← (parseAmount (trim request.amount)).mapError fun _ => .invalidRequest "amount must be a positive integer"
  if amount = 0 then throw (.invalidRequest "amount must be greater than zero")
  let wallets ← listWallets dir listed
  let (file, _) ← (wallets.find? fun p => p.2.matchesAddress sender).elim (.error (.walletNotFound sender)) .ok
  let (_, secret) ← (opened.load file request.password).mapError fun _ => .walletLocked
  return ⟨sender, recipient, amount, secret⟩

variable [Ed25519] [Jsonrpsee] (config : Config)

/-- The part of `transfer` under the lock (main.rs:217-258). -/
def sendErrand (errand : Errand) : ExceptT ExplorerError (Prog Act) TransferResponse := do
  let key := SecretKeys.signingKey errand.secret
  let chainId ← quantityCall config "eth_chainId" (.array [])
  let nonce ← quantityCall config "eth_getTransactionCount"
    (.array [.string (displayBytes errand.sender.toList), .string "latest"])
  let result ← rpcCall config "eth_sendTransaction"
    (explorerTransfer key errand.sender errand.recipient errand.amount nonce chainId)
  let hash ← Prog.attempt (result.asStr.elim (.error (.rpc "node returned an invalid hash")) .ok)
  return {
    hash
    sender := displayBytes errand.sender.toList
    recipient := displayBytes errand.recipient.toList
    amount := toString errand.amount.toNat
    nonce }

/-- `ExplorerState::transfer` (main.rs:188). -/
def transfer (listed : Except String Folder) (opened : Folder) (request : TransferRequest) :
    ExceptT ExplorerError (Prog Act) TransferResponse := do
  let errand ← Prog.attempt (openTransfer config listed opened request)
  sendErrand config errand

/-! ## One transfer -/

omit [Scrypt] [Aes256Gcm] [Ed25519] [Jsonrpsee] in
/-- The transaction of an errand. -/
def Errand.transaction (errand : Errand) (nonce : Nonce) (chainId : ChainId) : Transaction :=
  (SecretKeys.signingKey errand.secret).transfer errand.sender errand.recipient errand.amount 1 nonce chainId

omit [Scrypt] [Aes256Gcm] [Ed25519] [Jsonrpsee] in
/-- What is reported of it. -/
def Errand.response (errand : Errand) (nonce : Nonce) (chainId : ChainId) : TransferResponse where
  hash := displayBytes (errand.transaction nonce chainId).hash.toList
  sender := displayBytes errand.sender.toList
  recipient := displayBytes errand.recipient.toList
  amount := toString errand.amount.toNat
  nonce

omit [Scrypt] [Aes256Gcm] [Jsonrpsee] in
/-- The node lets the errand's transaction through, or nothing. -/
theorem signedTransaction_explorerTransfer (errand : Errand) (nonce : Nonce) (chainId : ChainId) :
    signedTransaction (explorerTransfer (SecretKeys.signingKey errand.secret) errand.sender errand.recipient errand.amount
        nonce chainId) chainId =
      (verifyTransactionSignature (unsignedTransfer errand.sender errand.recipient errand.amount 1 nonce chainId)
        (SecretKeys.signingKey errand.secret).publicKey
        ((SecretKeys.signingKey errand.secret).sign
          (unsignedTransfer errand.sender errand.recipient errand.amount 1 nonce chainId).signingPayload)).map
        fun _ => errand.transaction nonce chainId := by
  have hone : hexText (1 : Amount).toNat = "0x1" := by decide +kernel
  have hread := readAs_sendParams errand.sender errand.recipient errand.amount 1 nonce chainId
    (SecretKeys.signingKey errand.secret).publicKey ((SecretKeys.signingKey errand.secret).sign
      (unsignedTransfer errand.sender errand.recipient errand.amount 1 nonce chainId).signingPayload)
  rw [hone] at hread
  exact signedTransaction_of_readAs hread

omit [Scrypt] [Aes256Gcm] [Jsonrpsee] in
theorem eq_of_signedTransaction {errand : Errand} {nonce : Nonce} {chainId : ChainId} {tx : Transaction}
    (h : signedTransaction (explorerTransfer (SecretKeys.signingKey errand.secret) errand.sender errand.recipient
      errand.amount nonce chainId) chainId = .ok tx) :
    tx = errand.transaction nonce chainId ∧ deriveAddress errand.secret = errand.sender := by
  rw [signedTransaction_explorerTransfer] at h
  cases hverified : verifyTransactionSignature (unsignedTransfer errand.sender errand.recipient errand.amount 1 nonce chainId)
      (SecretKeys.signingKey errand.secret).publicKey ((SecretKeys.signingKey errand.secret).sign
        (unsignedTransfer errand.sender errand.recipient errand.amount 1 nonce chainId).signingPayload) with
  | error e =>
    rw [hverified] at h
    cases h
  | ok u =>
    rw [hverified] at h
    exact ⟨(Except.ok.inj h).symm, (verifyTransactionSignature_ok hverified).1⟩

/-- The message that submits it. -/
def Errand.message (errand : Errand) (nonce : Nonce) (chainId : ChainId) : Bytes :=
  (requestBody "eth_sendTransaction" (explorerTransfer (SecretKeys.signingKey errand.secret) errand.sender
    errand.recipient errand.amount nonce chainId)).toVec

/-- How a transfer with these messages fails: without an effect; or, if the network is not reliable, with its effect,
because the answer to its submission did not get through. Where the node had refused a transfer that is paid for, it
says why. -/
def Failed (store : LedgerStore) (reliable : Prop) (p : Standing) (errand : Errand) (nonce : Nonce)
    (messages : List (Bytes × Fate)) (e : ExplorerError) (n : Node) : Prop :=
  (∃ message, e = .rpc message) ∧
  ((Amid store (p.Of errand.sender) n ∧
      (reliable → ∀ tx, signedTransaction (explorerTransfer (SecretKeys.signingKey errand.secret) errand.sender
          errand.recipient errand.amount nonce store.chainId) store.chainId = .ok tx → p.Payable store errand.sender tx →
        e = .rpc "eth_sendTransaction failed: internal error" ∨
          e = .rpc "eth_sendTransaction failed: state persistence failed")) ∨
    ¬ reliable ∧ (∃ fate : Fate, fate.Unheard ∧ (errand.message nonce store.chainId, fate) ∈ messages) ∧
      deriveAddress errand.secret = errand.sender ∧
      Amid store ((p.next (errand.transaction nonce store.chainId)).Of errand.sender) n)

section
variable {store : LedgerStore} {reliable : Prop} {p : Standing} {errand : Errand} {nonce : Nonce}

omit [Scrypt] [Aes256Gcm] [Jsonrpsee] in
theorem Failed.of_lost {n : Node} (hrel : ¬ reliable) (hn : Amid store (p.Of errand.sender) n) (message : String)
    (messages : List (Bytes × Fate)) : Failed store reliable p errand nonce messages (.rpc message) n :=
  ⟨⟨message, rfl⟩, .inl ⟨hn, fun h => absurd h hrel⟩⟩

omit [Scrypt] [Aes256Gcm] [Jsonrpsee] in
/-- Other messages do not matter. -/
theorem Failed.mono {messages more : List (Bytes × Fate)} {e : ExplorerError} {n : Node}
    (h : Failed store reliable p errand nonce messages e n) (hsub : messages ⊆ more) :
    Failed store reliable p errand nonce more e n := by
  obtain ⟨hkind, hsame | ⟨hrel, ⟨fate, hlost, hmem⟩, hpaid⟩⟩ := h
  · exact ⟨hkind, .inl hsame⟩
  · exact ⟨hkind, .inr ⟨hrel, ⟨fate, hlost, hsub hmem⟩, hpaid⟩⟩

omit [Blake3] [Scrypt] [Aes256Gcm] [SecretKeys] [Ed25519] [Jsonrpsee] in
/-- The texts of the node's own faults reach the client. -/
theorem text_of_ownFault {e : RpcError} (h : e.OwnFault) :
    (response (.int 1) (.error e.toErrorObject)).toVec.length ≤ min maxResponseBodyBytes maxRpcResponseBytes ∧
      (e.toErrorObject.message = "internal error" ∨ e.toErrorObject.message = "state persistence failed") := by
  have hinternal : (response (.int 1) (.error ⟨-32603, "internal error", none⟩)).toVec.length ≤
      min maxResponseBodyBytes maxRpcResponseBytes := by decide +kernel
  have hstorage : (response (.int 1) (.error ⟨-32603, "state persistence failed", none⟩)).toVec.length ≤
      min maxResponseBodyBytes maxRpcResponseBytes := by decide +kernel
  rcases h with rfl | ⟨message, rfl⟩
  · exact ⟨hinternal, .inl rfl⟩
  · exact ⟨hstorage, .inr rfl⟩

omit [Scrypt] [Aes256Gcm] in
/-- The submission. -/
theorem hears_submission :
    world.Hears (Undisturbed reliable errand.sender) (Amid store (p.Of errand.sender))
      (rpcCall config "eth_sendTransaction" (explorerTransfer (SecretKeys.signingKey errand.secret) errand.sender
        errand.recipient errand.amount nonce store.chainId)).run
      fun messages => Setting.OkThen (Failed store reliable p errand nonce messages) fun value n =>
        value = .string (displayBytes (errand.transaction nonce store.chainId).hash.toList) ∧
          deriveAddress errand.secret = errand.sender ∧
          Amid store ((p.next (errand.transaction nonce store.chainId)).Of errand.sender) n := by
  obtain ⟨hintegral, hweight⟩ := small_sendParams
    (unsignedTransfer errand.sender errand.recipient errand.amount 1 nonce store.chainId) errand.recipient
    (show quotedBytes "0x1" ≤ 100 by decide +kernel) (SecretKeys.signingKey errand.secret).publicKey
    ((SecretKeys.signingKey errand.secret).sign
      (unsignedTransfer errand.sender errand.recipient errand.amount 1 nonce store.chainId).signingPayload)
  refine hears_rpcCall (c := client config) (K := fun fate => reliable → ∃ d, fate = .answered d) (fun _ ht => ht.1)
    (fun t n ht hn => ht.others t n hn) rfl hintegral (length_requestBody_le (by decide +kernel) hweight)
    (ensures_sendFor fun tx htx => ?_) ?_ ?_ ?_ ?_ ?_
  · rw [(eq_of_signedTransaction htx).1]
    rfl
  · rintro value n ⟨tx, -, rfl, -⟩
    refine fits_of_small ⟨Json.integral_string _, ?_⟩ (show 300100 ≤ maxRpcResponseBytes by decide)
    rw [Json.weight, quotedBytes_displayBytes, Vector.length_toList]
    decide
  · rintro value n ⟨tx, htx, rfl, hn⟩
    obtain ⟨rfl, hkey⟩ := eq_of_signedTransaction htx
    exact ⟨rfl, hkey, hn⟩
  · rintro messages e outcome error n herror ⟨hn, hfault⟩ hshort
    refine ⟨Client.exists_of_rpcResult herror, .inl ⟨hn, fun _ tx htx hpayable => ?_⟩⟩
    obtain ⟨hsmall, htext⟩ := text_of_ownFault (hfault tx htx hpayable)
    rw [hshort hsmall]
    rcases htext with htext | htext
    · exact .inl (congrArg (fun text => ExplorerError.rpc ("eth_sendTransaction failed: " ++ text)) htext)
    · exact .inr (congrArg (fun text => ExplorerError.rpc ("eth_sendTransaction failed: " ++ text)) htext)
  · rintro messages fate outcome error n herror hkind hnot hn
    obtain ⟨message, rfl⟩ := Client.exists_of_rpcResult herror
    exact .of_lost (not_of_lost hkind hnot) hn message messages
  · rintro messages fate outcome error (_ | value) n herror hkind hlost hmem hn
    all_goals obtain ⟨message, rfl⟩ := Client.exists_of_rpcResult herror
    · exact .of_lost (not_of_lost hkind hlost.ne_answered) hn.1 message messages
    · obtain ⟨tx, htx, -, hn⟩ := hn
      obtain ⟨rfl, hkey⟩ := eq_of_signedTransaction htx
      exact ⟨⟨message, rfl⟩, .inr ⟨not_of_lost hkind hlost.ne_answered, ⟨fate, hlost, hmem⟩, hkey, hn⟩⟩

omit [Scrypt] [Aes256Gcm] in
theorem ensures_chainIdFor :
    world.Ensures (Undisturbed reliable errand.sender) (Amid store (p.Of errand.sender))
      (quantityCall config "eth_chainId" (.array [])).run
      (Setting.OkThen (Failed store reliable p errand nonce []) fun chainId n =>
        chainId = store.chainId ∧ Amid store (p.Of errand.sender) n) := by
  refine ensures_quantity config (fun _ ht => ht.1) (fun t n ht hn => ht.others t n hn) rfl (by decide +kernel)
    ⟨by simp, by decide⟩ ((ensures_readChainId (fun t n ht hn => ht.others t n hn) _).weaken (fun _ h => h) ?_) ?_
  · rintro (e | value) n hn
    · exact hn
    · exact ⟨_, hn.1, hn.2.stage.chainId, hn.2⟩
  rintro message n hrel (hn | ⟨chainId, -, hn⟩) <;> exact .of_lost hrel hn message []

omit [Scrypt] [Aes256Gcm] in
theorem ensures_nonceFor (hnonce : nonce.toNat = p.nonce) :
    world.Ensures (Undisturbed reliable errand.sender) (Amid store (p.Of errand.sender))
      (quantityCall config "eth_getTransactionCount"
        (.array [.string (displayBytes errand.sender.toList), .string "latest"])).run
      (Setting.OkThen (Failed store reliable p errand nonce []) fun found n =>
        found = nonce ∧ Amid store (p.Of errand.sender) n) := by
  refine ensures_quantity config (fun _ ht => ht.1) (fun t n ht hn => ht.others t n hn) rfl (by decide +kernel)
    (small_addressed _) ((ensures_readNonce (fun t n ht hn => ht.others t n hn) _).weaken (fun _ h => h) ?_) ?_
  · rintro (e | value) n hn
    · exact hn
    · exact ⟨_, hn.1, BitVec.eq_of_toNat_eq (hn.2.nonce.trans hnonce.symm), hn.2⟩
  · rintro message n hrel (hn | ⟨found, -, hn⟩) <;> exact .of_lost hrel hn message []

omit [Scrypt] [Aes256Gcm] in
/-- **One errand**: its transaction is the account's next, or there is an error. -/
theorem hears_sendErrand (hnonce : nonce.toNat = p.nonce) :
    world.Hears (Undisturbed reliable errand.sender) (Amid store (p.Of errand.sender)) (sendErrand config errand).run
      fun messages => Setting.OkThen (Failed store reliable p errand nonce messages) fun resp n =>
        resp = errand.response nonce store.chainId ∧ deriveAddress errand.secret = errand.sender ∧
          Amid store ((p.next (errand.transaction nonce store.chainId)).Of errand.sender) n := by
  have hlater : ∀ (l l' : List (Bytes × Fate)) e n, Failed store reliable p errand nonce l' e n →
      Failed store reliable p errand nonce (l ++ l') e n :=
    fun l l' _ _ h => h.mono (List.subset_append_right l l')
  -- the two questions fail without an effect, whatever their messages are
  refine Setting.Hears.andThen hlater (Setting.Hears.weaken (ensures_chainIdFor config) (fun _ h => h)
    fun l _ _ h => h.imp_bad fun _ hbad => hbad.mono (List.nil_subset l)) fun chainId => .assume ?_
  rintro rfl
  refine Setting.Hears.andThen hlater (Setting.Hears.weaken (ensures_nonceFor config hnonce) (fun _ h => h)
    fun l _ _ h => h.imp_bad fun _ hbad => hbad.mono (List.nil_subset l)) fun found => .assume ?_
  rintro rfl
  refine Setting.Hears.andThen hlater (hears_submission config) fun value => .assume ?_
  rintro rfl
  exact .done fun n hn => ⟨rfl, hn⟩

end

/-! ## What a request asks for -/

omit [Blake3] [Scrypt] [Aes256Gcm] [SecretKeys] [Ed25519] [Jsonrpsee] in
theorem eq_some_of_elim {α ε : Type} {x : Option α} {e : ε} {a : α} (h : x.elim (.error e) .ok = Except.ok a) : x = some a := by
  cases x with
  | none => cases h
  | some b => exact congrArg some (Except.ok.inj h)

omit [Blake3] [Scrypt] [Aes256Gcm] [SecretKeys] [Ed25519] [Jsonrpsee] in
theorem eq_ok_of_mapError {α ε ε' : Type} {x : Except ε α} {f : ε → ε'} {a : α} (h : x.mapError f = .ok a) : x = .ok a := by
  cases x with
  | error e => cases h
  | ok b => exact congrArg Except.ok (Except.ok.inj h)

omit [Ed25519] [Jsonrpsee] in
/-- What is checked before the lock. -/
theorem openTransfer_ok_iff {listed : Except String Folder} {opened : Folder} {request : TransferRequest} {errand : Errand} :
    openTransfer config listed opened request = .ok errand ↔
      parseAddress request.sender = .ok errand.sender ∧ parseAddress request.recipient = .ok errand.recipient ∧
      errand.sender ≠ errand.recipient ∧ parseAmount (trim request.amount) = .ok errand.amount ∧ errand.amount ≠ 0 ∧
      ∃ dir wallets file w w', config.walletDir = some dir ∧ listWallets dir listed = .ok wallets ∧
        wallets.find? (fun p => p.2.matchesAddress errand.sender) = some (file, w) ∧
        opened.load file request.password = .ok (w', errand.secret) := by
  constructor
  · intro h
    obtain ⟨dir, hdir, h⟩ := exists_ok_of_bind h
    obtain ⟨sender, hsender, h⟩ := exists_ok_of_bind h
    obtain ⟨recipient, hrecipient, h⟩ := exists_ok_of_bind h
    split at h
    · cases h
    rename_i hother
    obtain ⟨amount, hamount, h⟩ := exists_ok_of_bind h
    split at h
    · cases h
    rename_i hpositive
    obtain ⟨wallets, hlist, h⟩ := exists_ok_of_bind h
    obtain ⟨⟨file, w⟩, hfind, h⟩ := exists_ok_of_bind h
    obtain ⟨⟨w', secret⟩, hload, h⟩ := exists_ok_of_bind h
    cases h
    exact ⟨hsender, hrecipient, hother, eq_ok_of_mapError hamount, hpositive, dir, wallets, file, w, w',
      eq_some_of_elim hdir, hlist, eq_some_of_elim hfind, eq_ok_of_mapError hload⟩
  · rintro ⟨hsender, hrecipient, hother, hamount, hpositive, dir, wallets, file, w, w', hdir, hlist, hfind, hload⟩
    simp [openTransfer, hsender, hrecipient, hother, hamount, hdir, hlist, hfind, hload, bind, Except.bind, pure,
      Except.pure, Except.mapError]
    exact hpositive

omit [Ed25519] [Jsonrpsee] in
/-- The key is the account's, if the wallets stay as they are between listing and opening. -/
theorem deriveAddress_of_openTransfer {listed : Except String Folder} {opened : Folder} {request : TransferRequest}
    {errand : Errand} (h : openTransfer config listed opened request = .ok errand)
    (hstay : ∀ folder, listed = .ok folder → FilesStay folder opened) : deriveAddress errand.secret = errand.sender := by
  obtain ⟨-, -, -, -, -, dir, wallets, file, w, w', -, hlist, hfind, hload⟩ := (openTransfer_ok_iff config).mp h
  cases listed with
  | error source => cases hlist
  | ok folder => exact deriveAddress_of_found hlist hfind (hstay folder rfl) hload

/-! ## Transfers one after the other -/

omit [Blake3] [Scrypt] [Aes256Gcm] [SecretKeys] [Ed25519] [Jsonrpsee] in
/-- A request, with the directory as it is listed and as the wallet is opened. -/
structure Submission where
  listed : Except String Folder
  opened : Folder
  request : TransferRequest

/-- Transfers in the order in which they get the lock. -/
def transferAll : List Submission → Prog Act (List (Except ExplorerError TransferResponse))
  | [] => return []
  | s :: submissions => do
    let result ← (transfer config s.listed s.opened s.request).run
    return result :: (← transferAll submissions)

omit [Ed25519] [Jsonrpsee] in
/-- What becomes of a transfer from an account with this nonce, where these messages were sent for it: it is reported and
paid; or it fails and nothing is paid; or it fails and is paid, as the node acted on its submission and the answer did
not get through. -/
inductive Settled (chainId : ChainId) (a : Address) (nonce : Nat) (s : Submission) :
    List (Bytes × Fate) → Except ExplorerError TransferResponse → Option Transaction → Prop where
  | paid {messages : List (Bytes × Fate)} {errand : Errand} {next : Nonce}
      (asked : openTransfer config s.listed s.opened s.request = .ok errand)
      (sender : errand.sender = a) (key : deriveAddress errand.secret = a) (next_eq : next.toNat = nonce) :
      Settled chainId a nonce s messages (.ok (errand.response next chainId)) (some (errand.transaction next chainId))
  | failed (messages : List (Bytes × Fate)) (e : ExplorerError) : Settled chainId a nonce s messages (.error e) none
  | unreported {messages : List (Bytes × Fate)} {errand : Errand} {next : Nonce} {fate : Fate}
      (asked : openTransfer config s.listed s.opened s.request = .ok errand)
      (sender : errand.sender = a) (key : deriveAddress errand.secret = a) (next_eq : next.toNat = nonce)
      (sent : (errand.message next chainId, fate) ∈ messages) (lost : fate.Unheard) (message : String) :
      Settled chainId a nonce s messages (.error (.rpc message)) (some (errand.transaction next chainId))

omit [Ed25519] [Jsonrpsee] in
/-- The same for transfers one after the other, with their messages, and the transactions they come to. -/
inductive SettledAll (chainId : ChainId) (a : Address) :
    Nat → List Submission → List (Bytes × Fate) → List (Except ExplorerError TransferResponse) → List Transaction → Prop where
  | nil (nonce : Nat) : SettledAll chainId a nonce [] [] [] []
  | cons {nonce : Nat} {s : Submission} {submissions : List Submission} {messages more : List (Bytes × Fate)}
      {result : Except ExplorerError TransferResponse} {results : List (Except ExplorerError TransferResponse)}
      {payment : Option Transaction} {payments : List Transaction}
      (first : Settled config chainId a nonce s messages result payment)
      (rest : SettledAll chainId a (nonce + payment.toList.length) submissions more results payments) :
      SettledAll chainId a nonce (s :: submissions) (messages ++ more) (result :: results) (payment.toList ++ payments)

section
variable {store : LedgerStore} {reliable : Prop} {a : Address}

/-- A transfer is settled. -/
theorem hears_transfer (p : Standing) {s : Submission}
    (hsender : ∀ b, parseAddress s.request.sender = .ok b → b = a) :
    world.Hears (Undisturbed reliable a) (Amid store (p.Of a)) (transfer config s.listed s.opened s.request).run
      fun messages result n => ∃ (payment : Option Transaction) (q : Standing),
        Settled config store.chainId a p.nonce s messages result payment ∧ q.sent = p.sent ++ payment.toList ∧
          q.nonce = p.nonce + payment.toList.length ∧ Amid store (q.Of a) n := by
  cases hopen : openTransfer config s.listed s.opened s.request with
  | error e =>
    have hrun : (transfer config s.listed s.opened s.request).run = .done (.error e) := by
      rw [transfer, hopen]
      rfl
    rw [hrun]
    exact .done fun n hn => ⟨none, p, .failed [] e, by simp, rfl, hn⟩
  | ok errand =>
    have hrun : (transfer config s.listed s.opened s.request).run = (sendErrand config errand).run := by
      rw [transfer, hopen]
      rfl
    obtain rfl := hsender _ ((openTransfer_ok_iff config).mp hopen).1
    rw [hrun]
    intro turns hturns n hn
    -- the nonce that the account has all the time
    have hnext : (n.memory.state.nonce errand.sender).toNat = p.nonce := hn.nonce
    have hhears : world.Hears (Undisturbed reliable errand.sender) (Amid store (p.Of errand.sender))
        (sendErrand config errand).run _ := hears_sendErrand config hnext
    have hsend := hhears turns hturns n hn
    generalize world.record (sendErrand config errand).run turns n = messages at hsend ⊢
    generalize world.exec (sendErrand config errand).run turns n = outcome at hsend ⊢
    obtain ⟨e | resp, n'⟩ := outcome
    · obtain ⟨⟨message, rfl⟩, ⟨hn', -⟩ | ⟨-, ⟨fate, hlost, hmem⟩, hkey, hn'⟩⟩ := hsend
      · exact ⟨none, p, .failed _ _, by simp, rfl, hn'⟩
      · exact ⟨some _, _, .unreported hopen rfl hkey hnext hmem hlost message, rfl, rfl, hn'⟩
    · obtain ⟨rfl, hkey, hn'⟩ := hsend
      exact ⟨some _, _, .paid hopen rfl hkey hnext, rfl, rfl, hn'⟩

theorem hears_transferAll (p : Standing) {submissions : List Submission}
    (hsender : ∀ s ∈ submissions, ∀ b, parseAddress s.request.sender = .ok b → b = a) :
    world.Hears (Undisturbed reliable a) (Amid store (p.Of a)) (transferAll config submissions)
      fun messages results n => ∃ (payments : List Transaction) (q : Standing),
        SettledAll config store.chainId a p.nonce submissions messages results payments ∧ q.sent = p.sent ++ payments ∧
          Amid store (q.Of a) n := by
  induction submissions generalizing p with
  | nil => exact .done fun n hn => ⟨[], p, .nil _, by simp, hn⟩
  | cons s submissions ih =>
    obtain ⟨hfirst, hrest⟩ := List.forall_mem_cons.mp hsender
    refine Setting.Hears.bind (hears_transfer config p hfirst) fun messages result => ?_
    rintro turns hturns n ⟨payment, q, hsettled, hsent, hnonce, hn⟩
    have hmore : world.Hears (Undisturbed reliable a) (Amid store (q.Of a))
        (transferAll config submissions >>= fun results => .done (result :: results))
          fun more results n => ∃ (payments : List Transaction) (r : Standing),
            SettledAll config store.chainId a p.nonce (s :: submissions) (messages ++ more) results payments ∧
              r.sent = p.sent ++ payments ∧ Amid store (r.Of a) n := by
      refine Setting.Hears.bind (ih q hrest) fun more results => .done ?_
      rintro n' ⟨payments, r, hall, hsent', hn'⟩
      rw [hnonce] at hall
      rw [List.append_nil]
      exact ⟨_, r, .cons hsettled hall, by rw [hsent', hsent, List.append_assoc], hn'⟩
    exact hmore turns hturns n hn

end

/-- **Exactly once.** Transfers from one account through one explorer, against a node that any run leads to; between
their requests others commit as they like, but do not send for the account, and the network may lose any request or
answer. In the end the account has sent what it had sent before, and then the transactions of these transfers in their
order, with consecutive nonces and each signed with its key: one for each transfer that was reported, and none for one
that failed, unless the node acted on its own submission and the answer to that did not get through. -/
theorem transfers_exactly_once (store : LedgerStore) (ops : List RpcOp) (a : Address) (submissions : List Submission)
    (turns : Nat → Turn RpcState.Event Choice) (hsender : ∀ s ∈ submissions, ∀ b, parseAddress s.request.sender = .ok b → b = a)
    (hothers : ∀ i, ∀ e ∈ (turns i).before, Foreign a e) :
    let start : Node := .quiet (final step (fresh store, emptyDisk) ops)
    let outcome := world.exec (transferAll config submissions) turns start
    ∃ payments, SettledAll config store.chainId a (start.memory.state.nonce a).toNat submissions
        (world.record (transferAll config submissions) turns start) outcome.1 payments ∧
      sentBy a outcome.2.memory.blocks = sentBy a start.memory.blocks ++ payments := by
  intro start outcome
  have hhears : world.Hears (Undisturbed False a)
      (Amid store ((Standing.ofLedger a start.memory.ledger).Of a)) (transferAll config submissions) _ :=
    hears_transferAll config _ hsender
  obtain ⟨payments, q, hsettled, hsent, hn⟩ :=
    hhears turns (fun i => ⟨False.elim, hothers i⟩) start (amid_run ops (Standing.of_ofLedger _ _))
  exact ⟨payments, hsettled, hn.sent.trans hsent⟩

/-! ## A transfer that can be paid for -/

omit [Scrypt] [Aes256Gcm] in
/-- What Ed25519 promises: a signature verifies under the public key of the secret. -/
def KeysVerify : Prop :=
  ∀ (secret : Secret) (payload : Bytes), Ed25519.validKey (SecretKeys.signingKey secret).publicKey = true ∧
    Ed25519.verify (SecretKeys.signingKey secret).publicKey payload ((SecretKeys.signingKey secret).sign payload) = true

omit [Scrypt] [Aes256Gcm] [Jsonrpsee] in
/-- The node lets through what the account's key has signed. -/
theorem signedTransaction_of_key (hkeys : KeysVerify) {errand : Errand} (hkey : deriveAddress errand.secret = errand.sender)
    (nonce : Nonce) (chainId : ChainId) :
    signedTransaction (explorerTransfer (SecretKeys.signingKey errand.secret) errand.sender errand.recipient errand.amount
      nonce chainId) chainId = .ok (errand.transaction nonce chainId) := by
  obtain ⟨hvalid, hverify⟩ := hkeys errand.secret
    (unsignedTransfer errand.sender errand.recipient errand.amount 1 nonce chainId).signingPayload
  have haddress : Address.fromPublicKey (SecretKeys.signingKey errand.secret).publicKey.toList =
    (unsignedTransfer errand.sender errand.recipient errand.amount 1 nonce chainId).fromAddr := hkey
  rw [signedTransaction_explorerTransfer, verifyTransactionSignature, if_neg (by simp [hvalid]),
    if_neg (not_not.mpr haddress), if_neg (by rw [hverify]; decide)]
  rfl

omit [Blake3] [Scrypt] [Aes256Gcm] [Ed25519] [Jsonrpsee] in
theorem Errand.payable {store : LedgerStore} {p : Standing} (errand : Errand) {nonce : Nonce}
    (hother : errand.sender ≠ errand.recipient) (hnonce : nonce.toNat = p.nonce) (hlast : p.nonce < 2 ^ 64 - 1)
    (hfunds : errand.amount.toNat + transferGasLimit.toNat ≤ p.funds) (hsupply : p.supply < 2 ^ 128) :
    p.Payable store errand.sender (errand.transaction nonce store.chainId) where
  sender := rfl
  chain := rfl
  transfer := rfl
  recipient := ⟨errand.recipient, rfl, hother.symm⟩
  data := rfl
  price := Nat.le_refl 1
  gas := ⟨show 0 < transferGasLimit.toNat by decide, show transferGasLimit.toNat ≤ blockGasLimit.toNat by decide⟩
  nonce := hnonce
  last := hlast
  funds := by
    have hfee : (errand.transaction nonce store.chainId).feeNat = 1 * transferGasLimit.toNat := rfl
    rw [hfee, Nat.one_mul]
    exact hfunds
  supply := hsupply

/-- **A transfer that can be paid for goes through.** The request can be opened, the network is reliable, nobody else
sends for the account, and at the beginning it can pay the amount and the fee: then, whatever others commit meanwhile,
the transfer is reported and is the account's next transaction; or nothing is paid, and the explorer says that the node
could not number or store the block. -/
theorem transfer_goes_through (store : LedgerStore) (ops : List RpcOp) {listed : Except String Folder} {opened : Folder}
    {request : TransferRequest} {errand : Errand} (turns : Nat → Turn RpcState.Event Choice)
    (hopen : openTransfer config listed opened request = .ok errand)
    (hstay : ∀ folder, listed = .ok folder → FilesStay folder opened) (hkeys : KeysVerify)
    (hothers : ∀ i, ∀ e ∈ (turns i).before, Foreign errand.sender e)
    (hreliable : ∀ i, ∃ d, (turns i).choice.fate = .answered d) :
    let start : Node := .quiet (final step (fresh store, emptyDisk) ops)
    let nonce := start.memory.state.nonce errand.sender
    errand.amount.toNat + transferGasLimit.toNat ≤ (start.memory.state.balance errand.sender).toNat →
    nonce.toNat < 2 ^ 64 - 1 → start.memory.state.supply < 2 ^ 128 →
    let outcome := world.exec (transfer config listed opened request).run turns start
    (outcome.1 = .ok (errand.response nonce store.chainId) ∧
      sentBy errand.sender outcome.2.memory.blocks =
        sentBy errand.sender start.memory.blocks ++ [errand.transaction nonce store.chainId]) ∨
    ((outcome.1 = .error (.rpc "eth_sendTransaction failed: internal error") ∨
        outcome.1 = .error (.rpc "eth_sendTransaction failed: state persistence failed")) ∧
      sentBy errand.sender outcome.2.memory.blocks = sentBy errand.sender start.memory.blocks) := by
  intro start nonce hfunds hlast hsupply outcome
  have hrun : (transfer config listed opened request).run = (sendErrand config errand).run := by
    rw [transfer, hopen]
    rfl
  have hhears : world.Hears (Undisturbed True errand.sender)
      (Amid store ((Standing.ofLedger errand.sender start.memory.ledger).Of errand.sender)) (sendErrand config errand).run _ :=
    hears_sendErrand config (rfl : nonce.toNat = _)
  have hsend := hhears turns (fun i => ⟨fun _ => hreliable i, hothers i⟩) start (amid_run ops (Standing.of_ofLedger _ _))
  rw [← hrun] at hsend
  change Setting.OkThen _ _ outcome.1 outcome.2 at hsend
  generalize outcome = outcome at hsend ⊢
  obtain ⟨e | resp, n⟩ := outcome
  · obtain ⟨-, ⟨hn, hrefused⟩ | ⟨hrel, -⟩⟩ := hsend
    · refine .inr ⟨?_, hn.sent⟩
      have hkey := deriveAddress_of_openTransfer config hopen hstay
      have hpayable : Standing.Payable store errand.sender (.ofLedger errand.sender start.memory.ledger)
          (errand.transaction nonce store.chainId) :=
        errand.payable ((openTransfer_ok_iff config).mp hopen).2.2.1 (rfl : nonce.toNat = _) hlast hfunds hsupply
      exact (hrefused trivial _ (signedTransaction_of_key hkeys hkey nonce store.chainId) hpayable).imp
        (congrArg Except.error) (congrArg Except.error)
    · exact absurd trivial hrel
  · obtain ⟨rfl, -, hn⟩ := hsend
    exact .inl ⟨rfl, hn.sent⟩

end
section
open scoped Concrete

def payerConfig : Config := ⟨"http://127.0.0.1:8545", "demo", some "wallets", fun _ => ""⟩

def payerRequest : TransferRequest := ⟨displayBytes payer.toList, displayBytes bob.toList, " 5", "correct horse"⟩

theorem openTransfer_payer :
    openTransfer payerConfig (.ok payerFolder) payerFolder payerRequest = .ok ⟨payer, bob, 5, payerSecret⟩ := by
  obtain ⟨w, hload⟩ := load_payer
  refine (openTransfer_ok_iff payerConfig).mpr ⟨by decide +kernel, by decide +kernel, by decide +kernel, by decide +kernel,
    by decide, "wallets", [("payer.json", payerWallet)], "payer.json", payerWallet, w, rfl, ?_, ?_, hload⟩
  · rw [listWallets]
    exact scanWallets_payer _
  · exact List.find?_cons_of_pos (by decide +kernel)

/-- Before each request somebody else pays, and the swap of that block begins. -/
def busyTurn : Turn RpcState.Event Choice := ⟨[.commit (.submit payment 7 none), .write], .answered inOnePiece, 8, none⟩

def fundingOps : List RpcOp := [.seed [(payer, 100000), (alice, 100000)] none]

theorem foreign_busyTurn : ∀ e ∈ busyTurn.before, Foreign payer e := by
  have hother : payment.fromAddr ≠ payer := by decide +kernel
  simp [busyTurn, Foreign, hother]

/-- Two transfers, of which the second cannot be opened. -/
theorem transfers_exactly_once_payer :
    openTransfer payerConfig (.ok payerFolder) payerFolder payerRequest = .ok ⟨payer, bob, 5, payerSecret⟩ ∧
    let start : Node := .quiet (final step (fresh durableStore, emptyDisk) fundingOps)
    let submissions : List Submission := [⟨.ok payerFolder, payerFolder, payerRequest⟩, ⟨.error "gone", ∅, payerRequest⟩]
    let outcome := world.exec (transferAll payerConfig submissions) (fun _ => busyTurn) start
    ∃ payments, SettledAll payerConfig durableStore.chainId payer (start.memory.state.nonce payer).toNat submissions
        (world.record (transferAll payerConfig submissions) (fun _ => busyTurn) start) outcome.1 payments ∧
      sentBy payer outcome.2.memory.blocks = sentBy payer start.memory.blocks ++ payments := by
  have hparse : parseAddress payerRequest.sender = .ok payer := by decide +kernel
  refine ⟨openTransfer_payer, transfers_exactly_once payerConfig durableStore fundingOps payer _ (fun _ => busyTurn) ?_
    fun _ => foreign_busyTurn⟩
  intro s hs b hb
  have hsender : s.request = payerRequest := by
    rcases List.mem_cons.mp hs with rfl | hs
    · rfl
    · rw [List.mem_singleton.mp hs]
  rw [hsender, hparse] at hb
  exact (Except.ok.inj hb).symm

/-- The payer has the money, and the transfer goes through. -/
theorem transfer_goes_through_payer :
    let start : Node := .quiet (final step (fresh durableStore, emptyDisk) fundingOps)
    let errand : Errand := ⟨payer, bob, 5, payerSecret⟩
    let nonce := start.memory.state.nonce payer
    let outcome := world.exec (transfer payerConfig (.ok payerFolder) payerFolder payerRequest).run (fun _ => busyTurn) start
    (outcome.1 = .ok (errand.response nonce durableStore.chainId) ∧
      sentBy payer outcome.2.memory.blocks =
        sentBy payer start.memory.blocks ++ [errand.transaction nonce durableStore.chainId]) ∨
    ((outcome.1 = .error (.rpc "eth_sendTransaction failed: internal error") ∨
        outcome.1 = .error (.rpc "eth_sendTransaction failed: state persistence failed")) ∧
      sentBy payer outcome.2.memory.blocks = sentBy payer start.memory.blocks) := by
  refine transfer_goes_through payerConfig durableStore fundingOps (fun _ => busyTurn) openTransfer_payer ?_
    (fun _ _ => ⟨rfl, rfl⟩) (fun _ => foreign_busyTurn) (fun _ => ⟨inOnePiece, rfl⟩) ?_ ?_ ?_
  · rintro folder ⟨⟩ name f hf
    exact hf
  · decide +kernel
  · decide +kernel
  · decide +kernel

end
end Explorer
end Subhost
