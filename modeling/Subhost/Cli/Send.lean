import Subhost.Rpc.Account
import Subhost.Wallet.Folder
/-!
# Sending from the command line (subhost-cli/src/main.rs:488-576, :640-717)

| here | there |
| --- | --- |
| `rpcCallValue`, `quantityCall` | `rpc_call_value` (main.rs:674), with `quantity` on its answer |
| `openSend`, `send`             | `TxCommands::Send` (main.rs:490) |
| `status`                       | `TxCommands::Status` (main.rs:560) |
| `sendAll`                      | commands one after the other |

Each command is a process of its own: there is no lock between two of them, and nothing is remembered. Others commit
between the requests of a command as they like, also for the same account.

`sent_is_found`: what `tx send` has printed, `tx status` finds, whatever happened since. `reports_backed`: every hash
that was printed stands for a transaction of its own, committed by that command. `retries_pay_once`: a transfer
repeated with `--nonce`, as after an answer that was lost, is paid at most once.
-/
namespace Subhost
open Uint Bincode Run Program JsonText RpcState

namespace Cli

/-- `MAX_RPC_RESPONSE_BYTES` (main.rs:24). -/
def maxRpcResponseBytes : Nat := 2 * 1024 * 1024

/-- What `rpc_call_value` makes of the exchange (main.rs:693-716). -/
def rpcResult (rpcUrl method : String) : Faucet.RpcOutcome → Except CliError Json
  | .requestFailed _ => .error (.message ("cannot reach the node at " ++ rpcUrl))
  | .httpStatus status => .error (.transport status)
  | .tooLarge =>
    .error (.message ("RPC " ++ method ++ " response exceeds " ++ toString maxRpcResponseBytes ++ " bytes"))
  | .readFailed error => .error (.transport error)
  | .invalidJson _ => .error (.message ("RPC " ++ method ++ " returned invalid JSON"))
  | .body value =>
    match value.get "error" with
    | some error =>
      .error (.message
        ("RPC " ++ method ++ " failed: " ++ ((error.get "message").bind Json.asStr).getD "unknown error"))
    | none => (value.get "result").elim (.error (.message ("RPC " ++ method ++ " response has no result"))) .ok

/-- `error_for_status` lets everything pass but client and server errors. -/
def client (rpcUrl : String) : Client CliError where
  accepts status := ¬ (400 ≤ status ∧ status < 600)
  serdeError _ := ""
  limit := maxRpcResponseBytes
  result := rpcResult rpcUrl
  failed method message := .message ("RPC " ++ method ++ " failed: " ++ message)
  accepts_ok := rfl
  rejects_failure status h h' := by simp [h, h']
  result_value method value := by simp [rpcResult, response, payload, Json.get, List.lookup_cons]
  result_error method e := by
    simp [rpcResult, response, payload, Json.get, List.lookup_cons, ErrorObject.json, Json.asStr]
  result_none method outcome h := by
    cases outcome with
    | body value => exact absurd rfl (h value)
    | requestFailed | httpStatus | tooLarge | readFailed | invalidJson => exact ⟨_, rfl⟩

/-- `is_tx_hash` (main.rs:640). -/
def isTxHash (value : String) : Bool :=
  byteLen value = 66 && (strip0x value).any fun digits => (utf8 digits).all isAsciiHexdigit

/-- `TxCommands::Send` (main.rs:147); `sender` and `recipient` are its `from` and `to`. -/
structure SendArgs where
  sender : String
  recipient : String
  amount : Amount
  password : String
  gasPrice : Amount
  nonce : Option Nonce
  chainId : Option ChainId
  rpcUrl : String

/-- What `tx status` prints. -/
inductive TxStatus where
  | pendingOrUnknown
  | receipt (value : Json)

/-- A value that the caller may have given. -/
def orAsk {α : Type} (given : Option α) (ask : ExceptT CliError (Prog Act) α) : ExceptT CliError (Prog Act) α :=
  given.elim ask pure

section
variable [Blake3] [Ed25519] [Jsonrpsee]

/-- `rpc_call_value` (main.rs:674). -/
def rpcCallValue (rpcUrl method : String) (params : Json) : ExceptT CliError (Prog Act) Json :=
  (client rpcUrl).rpcCall method params

/-- `quantity(&rpc_call_value(..).await?).context(..)`. -/
def quantityCall (rpcUrl method : String) (params : Json) (context : String) : ExceptT CliError (Prog Act) U64 := do
  let value ← rpcCallValue rpcUrl method params
  Prog.attempt ((numberIn 64 value).elim (.error (.message context)) .ok)

/-- `TxCommands::Status` (main.rs:560). -/
def status (rpcUrl txHash : String) : ExceptT CliError (Prog Act) TxStatus := do
  if isTxHash txHash = false then
    Prog.attempt (.error (.message "transaction hash must be 0x followed by 64 hex characters"))
  else
    match ← rpcCallValue rpcUrl "eth_getTransactionReceipt" (.array [.string txHash]) with
    | .null => return .pendingOrUnknown
    | receipt => return .receipt receipt

variable [Scrypt] [Aes256Gcm] [SecretKeys]

/-- What a command is to transfer, and with which key. -/
structure Order where
  sender : Address
  recipient : Address
  secret : Secret
deriving DecidableEq

omit [Ed25519] [Jsonrpsee] in
/-- The part of `Send` before the node is asked (main.rs:491-503), with the directory as it is when it is listed and
when the wallet is opened. -/
def openSend (dir : String) (listed opened : Folder) (args : SendArgs) : Except CliError Order := do
  if args.amount = 0 then throw (.message "amount must be greater than zero")
  let sender ← parseAddressAs CliError.message args.sender
  let recipient ← parseAddressAs CliError.message args.recipient
  if sender = recipient then throw (.message "sender and recipient must differ")
  let (file, _) ← findWallet dir listed sender
  let (_, secret) ← (opened.load file args.password).mapError .wallet
  return ⟨sender, recipient, secret⟩

/-- The rest of it (main.rs:505-557). -/
def sendOrder (args : SendArgs) (order : Order) : ExceptT CliError (Prog Act) String := do
  let key := SecretKeys.signingKey order.secret
  let chainId ← orAsk args.chainId
    (quantityCall args.rpcUrl "eth_chainId" (.array []) "node returned an invalid chain ID")
  let nonce ← orAsk args.nonce
    (quantityCall args.rpcUrl "eth_getTransactionCount"
      (.array [.string (displayBytes order.sender.toList), .string "latest"]) "node returned an invalid nonce")
  let value ← rpcCallValue args.rpcUrl "eth_sendTransaction"
    (cliSend key order.sender order.recipient args.amount args.gasPrice nonce chainId)
  Prog.attempt (value.asStr.elim
    (.error (.message "RPC eth_sendTransaction returned an unexpected result shape")) .ok)

/-- `TxCommands::Send` (main.rs:490): the hash that is printed. -/
def send (dir : String) (listed opened : Folder) (args : SendArgs) : ExceptT CliError (Prog Act) String := do
  let order ← Prog.attempt (openSend dir listed opened args)
  sendOrder args order

/-- With everything given, the node is only asked to take the transaction. -/
theorem send_given {dir : String} {listed opened : Folder} {args : SendArgs} {order : Order} {nonce : Nonce}
    {chainId : ChainId} (hnonce : args.nonce = some nonce) (hchain : args.chainId = some chainId)
    (hopen : openSend dir listed opened args = .ok order) :
    (send dir listed opened args).run =
      (do let value ← rpcCallValue args.rpcUrl "eth_sendTransaction"
            (cliSend (SecretKeys.signingKey order.secret) order.sender order.recipient args.amount args.gasPrice nonce chainId)
          Prog.attempt (value.asStr.elim
            (.error (.message "RPC eth_sendTransaction returned an unexpected result shape")) .ok) :
        ExceptT CliError (Prog Act) String).run := by
  rw [send, hopen]
  show (sendOrder args order).run = _
  rw [sendOrder, hnonce, hchain]
  rfl

/-! ## The transaction -/

omit [Ed25519] [Scrypt] [Aes256Gcm] [SecretKeys] in
/-- The transaction is the transfer that a command asks for. -/
structure Asked (args : SendArgs) (tx : Transaction) : Prop where
  sender : parseAddressAs CliError.message args.sender = .ok tx.fromAddr
  recipient : ∃ dst, parseAddressAs CliError.message args.recipient = .ok dst ∧ tx.toAddr = some dst
  value : tx.value = args.amount
  gasPrice : tx.gasPrice = args.gasPrice
  nonce : ∀ nonce, args.nonce = some nonce → tx.nonce = nonce

omit [Scrypt] [Aes256Gcm] [SecretKeys] [Jsonrpsee] in
/-- What the node lets through is for its chain, and what was signed. -/
theorem signedTransaction_cliSend {key : SigningKey} {sender recipient : Address} {amount gasPrice : Amount} {nonce : Nonce}
    {chainId chain : ChainId} {tx : Transaction}
    (h : signedTransaction (cliSend key sender recipient amount gasPrice nonce chainId) chain = .ok tx) :
    tx = key.transfer sender recipient amount gasPrice nonce chainId := by
  by_cases hchain : chainId = chain
  · subst hchain
    have hread := readAs_sendParams sender recipient amount gasPrice nonce chainId key.publicKey
      (key.sign (unsignedTransfer sender recipient amount gasPrice nonce chainId).signingPayload)
    rw [cliSend, signedTransaction_of_readAs hread] at h
    cases hverified : verifyTransactionSignature (unsignedTransfer sender recipient amount gasPrice nonce chainId)
        key.publicKey (key.sign (unsignedTransfer sender recipient amount gasPrice nonce chainId).signingPayload) with
    | error e =>
      rw [hverified] at h
      cases h
    | ok u =>
      rw [hverified] at h
      exact (Except.ok.inj h).symm
  · simp [signedTransaction, cliSend, sendParams, paramsOne, transactionFromParams, Json.get, List.lookup_cons, Json.asStr,
      unsignedTransfer, parseAddress_display, hexQuantity, hexNumber_hexText, hchain, bind, Except.bind, Except.map,
      throw, throwThe, MonadExceptOf.throw] at h

omit [Ed25519] [Jsonrpsee] in
/-- What is checked before the node is asked. -/
theorem openSend_ok_iff {dir : String} {listed opened : Folder} {args : SendArgs} {order : Order} :
    openSend dir listed opened args = .ok order ↔
      args.amount ≠ 0 ∧ parseAddressAs CliError.message args.sender = .ok order.sender ∧
      parseAddressAs CliError.message args.recipient = .ok order.recipient ∧ order.sender ≠ order.recipient ∧
      ∃ file w w', findWallet dir listed order.sender = .ok (file, w) ∧
        opened.load file args.password = .ok (w', order.secret) := by
  constructor
  · intro h
    unfold openSend at h
    split at h
    · cases h
    rename_i hamount
    obtain ⟨sender, hsender, h⟩ := exists_ok_of_bind h
    obtain ⟨recipient, hrecipient, h⟩ := exists_ok_of_bind h
    split at h
    · cases h
    rename_i hother
    obtain ⟨⟨file, w⟩, hfind, h⟩ := exists_ok_of_bind h
    obtain ⟨⟨w', secret⟩, hload, h⟩ := exists_ok_of_bind h
    cases h
    refine ⟨hamount, hsender, hrecipient, hother, file, w, w', hfind, ?_⟩
    cases hopened : opened.load file args.password with
    | error e =>
      rw [hopened] at hload
      cases hload
    | ok found =>
      rw [hopened] at hload
      exact congrArg Except.ok (Except.ok.inj hload)
  · rintro ⟨hamount, hsender, hrecipient, hother, file, w, w', hfind, hload⟩
    rw [openSend, if_neg hamount, hsender, hrecipient]
    simp [hother, hfind, hload, bind, Except.bind, pure, Except.pure, Except.mapError]

omit [Ed25519] [Jsonrpsee] in
theorem asked_of_openSend {dir : String} {listed opened : Folder} {args : SendArgs} {order : Order}
    (h : openSend dir listed opened args = .ok order) {nonce : Nonce} (hnonce : ∀ given, args.nonce = some given → nonce = given)
    (chainId : ChainId) :
    Asked args ((SecretKeys.signingKey order.secret).transfer order.sender order.recipient args.amount args.gasPrice nonce
      chainId) := by
  obtain ⟨-, hsender, hrecipient, -⟩ := openSend_ok_iff.mp h
  exact ⟨hsender, ⟨order.recipient, hrecipient, rfl⟩, rfl, rfl, hnonce⟩

/-! ## One command -/

omit [Ed25519] [Scrypt] [Aes256Gcm] [SecretKeys] in
/-- How a command fails: nothing was sent; or, if the network is not reliable, it was. -/
def Unsent (store : LedgerStore) (reliable : Prop) (R : Ledger → Prop) (S : Transaction → Ledger → Prop) (args : SendArgs)
    (_ : CliError) (n : Node) : Prop :=
  Amid store R n ∨ ¬ reliable ∧ ∃ tx, Asked args tx ∧ Amid store (S tx) n

section
variable {store : LedgerStore} {reliable : Prop} {R : Ledger → Prop} {S : Transaction → Ledger → Prop} {args : SendArgs}

omit [Ed25519] [Scrypt] [Aes256Gcm] [SecretKeys] [Jsonrpsee] in
theorem ensures_orAsk {α : Type} {given : Option α} {ask : ExceptT CliError (Prog Act) α}
    {C : Turn RpcState.Event Choice → Prop} {P : Node → Prop} {bad : CliError → Node → Prop} {good : α → Node → Prop}
    (hgiven : ∀ a n, given = some a → P n → good a n) (hask : world.Ensures C P ask.run (Setting.OkThen bad good)) :
    world.Ensures C P (orAsk given ask).run (Setting.OkThen bad good) := by
  cases given with
  | none => exact hask
  | some a => exact .pure fun n hn => hgiven a n rfl hn

omit [Scrypt] [Aes256Gcm] [SecretKeys] in
/-- A number that the node is asked for. -/
theorem ensures_quantity {C : Turn RpcState.Event Choice → Prop} {P : Node → Prop} {bad : CliError → Node → Prop}
    {good : U64 → Node → Prop} {rpcUrl method context : String} {params : Json} {handler : Handler}
    (hnet : ∀ t, C t → Reliably reliable t) (hothers : ∀ t n, C t → P n → P (world.others n t.before))
    (hmethod : rpcModule.lookup method = some handler) (hname : quotedBytes method ≤ 100)
    (hparams : params.Integral ∧ params.weight ≤ 200000)
    (hhandler : world.Ensures C P (handler params).run (Setting.OkThen (fun _ _ => False)
      fun value n => ∃ number : U64, value = .string (hexText number.toNat) ∧ good number n))
    (hlost : ∀ e n, ¬ reliable → P n ∨ (∃ number, good number n) → bad e n) :
    world.Ensures C P (quantityCall rpcUrl method params context).run (Setting.OkThen bad good) :=
  ensures_number (c := client rpcUrl) (show 300100 ≤ maxRpcResponseBytes by decide) (by decide)
    (fun n => (quotedBytes_u64 n).trans (by decide)) _ hnet hothers hmethod hname hparams hhandler
    fun _ e n _ hrel hn => hlost e n hrel hn

variable (htolerates : Tolerates (fun _ => True) R)
  (hnext : ∀ tx, Asked args tx → ∀ l fee state block, R l → l.state.applyTransaction tx = (.ok fee, state) →
    block.transactions = [tx] → S tx (l.extend tx state block))

include htolerates in
omit [Ed25519] [Scrypt] [Aes256Gcm] [SecretKeys] [Jsonrpsee] in
theorem amid_others (turn : Turn RpcState.Event Choice) (n : Node) (h : Amid store R n) :
    Amid store R (world.others n turn.before) :=
  h.others htolerates fun _ _ => trivial

include htolerates hnext

omit [Scrypt] [Aes256Gcm] [SecretKeys] in
/-- The submission. -/
theorem ensures_submission {key : SigningKey} {sender recipient : Address} {nonce : Nonce} {chainId : ChainId}
    (hasked : Asked args (key.transfer sender recipient args.amount args.gasPrice nonce chainId)) :
    world.Ensures (Reliably reliable) (Amid store R)
      (rpcCallValue args.rpcUrl "eth_sendTransaction"
        (cliSend key sender recipient args.amount args.gasPrice nonce chainId)).run
      (Setting.OkThen (Unsent store reliable R S args) fun value n => ∃ tx, Asked args tx ∧
        value = .string (displayBytes tx.hash.toList) ∧ Amid store (S tx) n) := by
  have hparams := small_sendParams (unsignedTransfer sender recipient args.amount args.gasPrice nonce chainId) recipient
    ((quotedBytes_u128 args.gasPrice).trans (by decide)) key.publicKey
    (key.sign (unsignedTransfer sender recipient args.amount args.gasPrice nonce chainId).signingPayload)
  have hsigned : ∀ tx, signedTransaction (cliSend key sender recipient args.amount args.gasPrice nonce chainId) store.chainId =
      .ok tx → Asked args tx := fun tx htx => signedTransaction_cliSend htx ▸ hasked
  have hwhy : ∀ tx, signedTransaction (cliSend key sender recipient args.amount args.gasPrice nonce chainId) store.chainId =
      .ok tx → ∀ s d now fault e, Sane store (s, d) → s.mempool = Mempool.default → R s.ledger →
      (s.submitTransaction d tx now fault).1 = .error e → True := fun _ _ _ _ _ _ _ _ _ _ _ => trivial
  have hhandler : world.Ensures (Reliably reliable) (Amid store R)
      (ethSendTransaction (cliSend key sender recipient args.amount args.gasPrice nonce chainId)).run _ :=
    ensures_send htolerates (fun _ _ _ _ => trivial) (fun tx htx => hnext tx (hsigned tx htx)) hwhy
  refine ensures_rpcCall (c := client args.rpcUrl) (fun _ ht => ht) (fun t n _ hn => amid_others htolerates t n hn) rfl
    hparams.1 (length_requestBody_le (by decide +kernel) hparams.2) hhandler ?_ ?_ ?_ ?_
  · rintro value n ⟨tx, -, rfl, -⟩
    refine fits_of_small ⟨Json.integral_string _, ?_⟩ (show 300100 ≤ maxRpcResponseBytes by decide)
    rw [Json.weight, quotedBytes_displayBytes, Vector.length_toList]
    decide
  · rintro value n ⟨tx, htx, rfl, hn⟩
    exact ⟨tx, hsigned tx htx, rfl, hn⟩
  · exact fun _ _ _ n _ hn _ => .inl hn.1
  · rintro _ _ n - hrel (hn | ⟨_ | value, hn⟩)
    · exact .inl hn
    · exact .inl hn.1
    · obtain ⟨tx, htx, -, hn⟩ := hn
      exact .inr ⟨hrel, tx, hsigned tx htx, hn⟩

/-- **One command**: the hash that it prints is that of the transfer asked for, which was committed. -/
theorem ensures_command {dir : String} {listed opened : Folder} :
    world.Ensures (Reliably reliable) (Amid store R) (send dir listed opened args).run
      (Setting.OkThen (Unsent store reliable R S args) fun hash n => ∃ tx, Asked args tx ∧
        hash = displayBytes tx.hash.toList ∧ Amid store (S tx) n) := by
  have hlost : ∀ (e : CliError) (n : Node), ¬ reliable → (Amid store R n ∨ ∃ _ : U64, True ∧ Amid store R n) →
      Unsent store reliable R S args e n := by
    rintro e n - (hn | ⟨-, -, hn⟩) <;> exact .inl hn
  refine Setting.Ensures.andThen
    (M := fun order n => openSend dir listed opened args = .ok order ∧ Amid store R n) (.attempt ?_) fun order => .assume ?_
  · intro n hn
    cases hopen : openSend dir listed opened args with
    | error e => exact .inl hn
    | ok order => exact ⟨rfl, hn⟩
  intro hopen
  refine Setting.Ensures.andThen (M := fun _ n => True ∧ Amid store R n)
    (ensures_orAsk (fun _ _ _ hn => ⟨trivial, hn⟩) (ensures_quantity (fun _ ht => ht)
      (fun t n _ hn => amid_others htolerates t n hn) rfl (by decide +kernel) ⟨by simp, by decide⟩
      ((ensures_readChainId (fun t n _ hn => amid_others htolerates t n hn) _).weaken (fun _ h => h) ?_) hlost))
    fun chainId => .assume fun _ => ?_
  · rintro (e | value) n hn
    · exact hn
    · exact ⟨_, hn.1, trivial, hn.2⟩
  refine Setting.Ensures.andThen (M := fun nonce n => (∀ given, args.nonce = some given → nonce = given) ∧ Amid store R n)
    (?_) fun nonce => .assume fun hnonce => ?_
  · cases hgiven : args.nonce with
    | some given => exact .pure fun n hn => ⟨fun _ h => Option.some.inj h, hn⟩
    | none =>
      refine ensures_quantity (fun _ ht => ht) (fun t n _ hn => amid_others htolerates t n hn) rfl (by decide +kernel)
        (small_addressed _) ((ensures_readNonce (fun t n _ hn => amid_others htolerates t n hn) _).weaken (fun _ h => h) ?_)
        ?_
      · rintro (e | value) n hn
        · exact hn
        · exact ⟨_, hn.1, nofun, hn.2⟩
      · rintro e n - (hn | ⟨-, -, hn⟩) <;> exact .inl hn
  refine (ensures_submission htolerates hnext (asked_of_openSend hopen hnonce chainId)).andThen fun value => .attempt ?_
  rintro n ⟨tx, hasked, rfl, hn⟩
  exact ⟨tx, hasked, rfl, hn⟩

end

/-! ## What was sent is found -/

omit [Ed25519] [Scrypt] [Aes256Gcm] [SecretKeys] in
/-- The transaction is in the chain and has a receipt. -/
def Recorded (tx : Transaction) (l : Ledger) : Prop := tx ∈ blockTxs l.blocks ∧ (l.receipts[tx.hash]?).isSome

omit [Ed25519] [Scrypt] [Aes256Gcm] [SecretKeys] [Jsonrpsee] in
theorem recorded_extend (l : Ledger) (tx : Transaction) (state : State) {block : Block} (hblock : block.transactions = [tx]) :
    Recorded tx (l.extend tx state block) := by
  constructor
  · simp [Ledger.extend, blockTxs_append, hblock]
  · rw [Ledger.extend, Map.get_insert_self]
    rfl

omit [Ed25519] [Scrypt] [Aes256Gcm] [SecretKeys] [Jsonrpsee] in
theorem tolerates_recorded (tx : Transaction) : Tolerates (fun _ => True) (Recorded tx) where
  seeded _ _ _ h := h
  committed l next _ _ _ state block _ h _ hblock := by
    refine ⟨?_, ?_⟩
    · rw [Ledger.extend, blockTxs_append]
      exact List.mem_append_left _ h.1
    · by_cases hsame : next.hash = tx.hash
      · rw [Ledger.extend, hsame, Map.get_insert_self]
        rfl
      · rw [Ledger.extend, Map.get_insert_ne _ _ hsame]
        exact h.2

omit [Blake3] [Ed25519] [Scrypt] [Aes256Gcm] [SecretKeys] [Jsonrpsee] in
theorem isTxHash_display (hash : Hash) : isTxHash (displayBytes hash.toList) = true := by
  have hdigits : ∀ n < 16, (hexValue (hexDigit n)).isSome := by decide
  have hlength : byteLen (displayBytes hash.toList) = 66 := by
    rw [byteLen_displayBytes, Vector.length_toList]
    rfl
  rw [isTxHash, strip0x_displayBytes, Option.any_some, all_utf8, hlength]
  simp only [decide_true, Bool.true_and, List.all_eq_true, hexEncode, String.toList_ofList]
  intro c hc
  obtain ⟨b, -, hb⟩ := List.mem_flatMap.mp hc
  have := b.toNat_lt
  rcases List.mem_pair.mp hb with rfl | rfl <;> exact hdigits _ (by omega)

section
variable {store : LedgerStore} {reliable : Prop}

omit [Ed25519] [Scrypt] [Aes256Gcm] [SecretKeys] [Jsonrpsee] in
/-- The receipt of a recorded transaction is there at every point. -/
theorem ensures_receipt (tx : Transaction) :
    world.Ensures (Reliably reliable) (Amid store (Recorded tx))
      (ethGetTransactionReceipt (.array [.string (displayBytes tx.hash.toList)])).run
      (Setting.OkThen (fun _ _ => False) fun value n => ∃ block ∈ n.memory.blocks, block.Contains tx.hash ∧
        value = receiptJson (newReceipt tx.hash block) ∧ Amid store (Recorded tx) n) := by
  refine Setting.Ensures.andThen (M := fun txHash n => txHash = tx.hash ∧ Amid store (Recorded tx) n) (.attempt ?_)
    fun txHash => .assume ?_
  · intro n hn
    rw [requestedHash_display]
    exact ⟨rfl, hn⟩
  rintro rfl
  refine Setting.Ensures.andThen (M := fun receipt n => ∃ block ∈ n.memory.blocks, block.Contains tx.hash ∧
    receipt = some (newReceipt tx.hash block) ∧ Amid store (Recorded tx) n) (.access ?_) fun receipt => .pure ?_
  · intro turn n _ hn
    have hread := amid_others (tolerates_recorded tx) turn n hn
    obtain ⟨l, hl, hreceipts⟩ := hread.receipts
    obtain ⟨r, hr⟩ := Option.isSome_iff_exists.mp hl.2
    have hfound : (world.others n turn.before).memory.receipt tx.hash = some r := by
      rw [RpcState.receipt, ← hreceipts, hr]
    obtain ⟨block, hmem, hcontains, rfl⟩ := hread.stage.receipt hfound
    exact ⟨block, hmem, hcontains, hfound, hread⟩
  · rintro n ⟨block, hmem, hcontains, rfl, hn⟩
    exact ⟨block, hmem, hcontains, rfl, hn⟩

omit [Scrypt] [Aes256Gcm] [SecretKeys] in
theorem ensures_status (rpcUrl : String) (tx : Transaction) :
    world.Ensures (Reliably reliable) (Amid store (Recorded tx)) (status rpcUrl (displayBytes tx.hash.toList)).run
      (Setting.OkThen (fun _ _ => ¬ reliable) fun found n => ∃ block ∈ n.memory.blocks, block.Contains tx.hash ∧
        found = .receipt (receiptJson (newReceipt tx.hash block)) ∧ Amid store (Recorded tx) n) := by
  have hparams : (Json.array [.string (displayBytes tx.hash.toList)]).weight ≤ 200000 := by
    simp only [Json.weight, Json.weightItems, quotedBytes_displayBytes, Vector.length_toList]
    decide
  rw [status, if_neg (by simp [isTxHash_display])]
  refine Setting.Ensures.andThen (M := fun value n => ∃ block ∈ n.memory.blocks, block.Contains tx.hash ∧
    value = receiptJson (newReceipt tx.hash block) ∧ Amid store (Recorded tx) n) ?_ fun value => ?_
  · refine ensures_small (c := client rpcUrl) (show 300100 ≤ maxRpcResponseBytes by decide) (fun _ ht => ht)
      (fun t n _ hn => amid_others (tolerates_recorded tx) t n hn) rfl (by decide +kernel) ⟨by simp, hparams⟩
      ((ensures_receipt tx).weaken (fun _ h => h) ?_) fun _ _ _ _ hrel _ => hrel
    rintro (e | value) n hn
    · exact hn
    · obtain ⟨block, hmem, hcontains, rfl, hn⟩ := hn
      exact ⟨⟨by simp [receiptJson, newReceipt], (weight_receiptJson tx.hash block).trans (by decide)⟩, block, hmem, hcontains,
        rfl, hn⟩
  · -- a receipt is an object
    rintro turns hturns n ⟨block, hmem, hcontains, rfl, hn⟩
    exact ⟨block, hmem, hcontains, rfl, hn⟩

end

/-- **What was sent is found.** A `tx send` on any node that a run leads to, while others commit as they like and the
network may fail: if it prints a hash, a `tx status` of that hash, at any time later and whatever was committed in
between, prints the receipt of a block with that transaction, and the chain has the transfer that was asked for. It
never says that the transaction is unknown; it fails only if the network does. -/
theorem sent_is_found (store : LedgerStore) (ops : List RpcOp) (dir : String) (listed opened : Folder) (args : SendArgs)
    (turns turns' : Nat → Turn RpcState.Event Choice) (rpcUrl hash : String) :
    let sent := world.exec (send dir listed opened args).run turns (.quiet (final step (fresh store, emptyDisk) ops))
    sent.1 = .ok hash →
    let found := world.exec (status rpcUrl hash).run turns' sent.2
    (∃ tx ∈ blockTxs found.2.memory.blocks, Asked args tx ∧ hash = displayBytes tx.hash.toList ∧
      ∃ block ∈ found.2.memory.blocks, block.Contains tx.hash ∧
        found.1 = .ok (.receipt (receiptJson (newReceipt tx.hash block)))) ∨
    (∃ e, found.1 = .error e) ∧ ¬ ∀ i, ∃ d, (turns' i).choice.fate = .answered d := by
  intro sent hsent found
  have hsend : world.Ensures (Reliably False) (Amid store fun _ => True) (send dir listed opened args).run _ :=
    ensures_command (S := Recorded) ⟨fun _ _ _ h => h, fun _ _ _ _ _ _ _ _ h _ _ => h⟩
      fun tx _ l _ state block _ _ hblock => recorded_extend l tx state hblock
  have hresult := hsend turns (fun _ => False.elim) _ (amid_run ops trivial)
  change Setting.OkThen _ _ sent.1 sent.2 at hresult
  rw [hsent] at hresult
  obtain ⟨tx, hasked, rfl, hn⟩ := hresult
  have hstatus : world.Ensures (Reliably (∀ i, ∃ d, (turns' i).choice.fate = .answered d)) (Amid store (Recorded tx))
      (status rpcUrl (displayBytes tx.hash.toList)).run _ := ensures_status rpcUrl tx
  have hfound := hstatus turns' (fun i h => h i) sent.2 hn
  change Setting.OkThen _ _ found.1 found.2 at hfound
  generalize found = found at hfound ⊢
  obtain ⟨e | value, n⟩ := found
  · exact .inr ⟨⟨e, rfl⟩, hfound⟩
  · obtain ⟨block, hmem, hcontains, rfl, hn⟩ := hfound
    obtain ⟨l, hl, hblocks⟩ := hn.blocks
    exact .inl ⟨tx, hblocks ▸ hl.1, hasked, rfl, block, hmem, hcontains, rfl⟩

/-! ## Reports -/

omit [Ed25519] [Scrypt] [Aes256Gcm] [SecretKeys] in
/-- A command, with the directory as it is listed and as the wallet is opened. -/
structure SendCommand where
  listed : Folder
  opened : Folder
  args : SendArgs

/-- Commands one after the other. -/
def sendAll (dir : String) : List SendCommand → Prog Act (List (Except CliError String))
  | [] => return []
  | c :: commands => do
    let result ← (send dir c.listed c.opened c.args).run
    return result :: (← sendAll dir commands)

omit [Ed25519] [Scrypt] [Aes256Gcm] [SecretKeys] in
/-- The transactions that reports stand for. -/
inductive Reported : List SendCommand → List (Except CliError String) → List Transaction → Prop where
  | nil : Reported [] [] []
  | sent {c : SendCommand} {commands : List SendCommand} {results : List (Except CliError String)} {txs : List Transaction}
      {tx : Transaction} (asked : Asked c.args tx) (rest : Reported commands results txs) :
      Reported (c :: commands) (.ok (displayBytes tx.hash.toList) :: results) (tx :: txs)
  | failed {c : SendCommand} {commands : List SendCommand} {results : List (Except CliError String)}
      {txs : List Transaction} (e : CliError) (rest : Reported commands results txs) :
      Reported (c :: commands) (.error e :: results) txs

omit [Ed25519] [Scrypt] [Aes256Gcm] [SecretKeys] in
/-- The chain has gone on from these blocks, and these transactions were committed in this order since. -/
def SentSince (blocks : List Block) (txs : List Transaction) (l : Ledger) : Prop :=
  ∃ added, l.blocks = blocks ++ added ∧ txs.Sublist (blockTxs added)

omit [Ed25519] [Scrypt] [Aes256Gcm] [SecretKeys] [Jsonrpsee] in
theorem sentSince_extend {blocks : List Block} {txs more : List Transaction} {l : Ledger} {tx : Transaction} {state : State}
    {block : Block} (h : SentSince blocks txs l) (hblock : block.transactions = [tx]) (hmore : more.Sublist [tx]) :
    SentSince blocks (txs ++ more) (l.extend tx state block) := by
  obtain ⟨added, hadded, hsublist⟩ := h
  refine ⟨added ++ [block], ?_, ?_⟩
  · rw [Ledger.extend, hadded, List.append_assoc]
  · rw [blockTxs_append, hblock]
    exact hsublist.append hmore

omit [Ed25519] [Scrypt] [Aes256Gcm] [SecretKeys] [Jsonrpsee] in
theorem tolerates_sentSince (blocks : List Block) (txs : List Transaction) :
    Tolerates (fun _ => True) (SentSince blocks txs) where
  seeded _ _ _ h := h
  committed l tx _ _ _ state block _ h _ hblock := by
    have hextended : SentSince blocks (txs ++ []) (l.extend tx state block) :=
      sentSince_extend h hblock (List.nil_sublist [tx])
    rwa [List.append_nil] at hextended

theorem ensures_sendAll {store : LedgerStore} {blocks : List Block} (dir : String) (commands : List SendCommand)
    (before : List Transaction) :
    world.Ensures (Reliably False) (Amid store (SentSince blocks before)) (sendAll dir commands) fun results n =>
      ∃ txs, Reported commands results txs ∧ Amid store (SentSince blocks (before ++ txs)) n := by
  induction commands generalizing before with
  | nil => exact .done fun n hn => ⟨[], .nil, by rwa [List.append_nil]⟩
  | cons c commands ih =>
    have hfirst : world.Ensures (Reliably False) (Amid store (SentSince blocks before))
        (send dir c.listed c.opened c.args).run _ :=
      ensures_command (S := fun tx => SentSince blocks (before ++ [tx])) (tolerates_sentSince blocks before)
        fun tx _ l _ state block hl _ hblock => sentSince_extend hl hblock (List.Sublist.refl _)
    refine Setting.Ensures.bind hfirst fun result => ?_
    have hrest : ∀ sent, world.Ensures (Reliably False) (Amid store (SentSince blocks sent))
        (sendAll dir commands >>= fun results => .done (result :: results)) fun results n =>
          ∃ results' txs, results = result :: results' ∧ Reported commands results' txs ∧
            Amid store (SentSince blocks (sent ++ txs)) n := by
      refine fun sent => Setting.Ensures.bind (ih sent) fun results => .done ?_
      rintro n ⟨txs, hreported, hn⟩
      exact ⟨results, txs, rfl, hreported, hn⟩
    intro turns hturns n hn
    cases result with
    | ok hash =>
      obtain ⟨tx, hasked, rfl, hn⟩ := hn
      obtain ⟨results, txs, hresults, hreported, hn'⟩ := hrest _ turns hturns n hn
      refine ⟨tx :: txs, hresults ▸ .sent hasked hreported, ?_⟩
      rwa [List.append_assoc] at hn'
    | error e =>
      -- whatever became of the transaction, it does not disturb
      have hn : Amid store (SentSince blocks before) n := by
        rcases hn with hn | ⟨-, tx, -, hn⟩
        · exact hn
        · refine hn.mono ?_
          rintro l ⟨added, hadded, hsublist⟩
          exact ⟨added, hadded, (List.sublist_append_left before [tx]).trans hsublist⟩
      obtain ⟨results, txs, hresults, hreported, hn'⟩ := hrest _ turns hturns n hn
      exact ⟨txs, hresults ▸ .failed e hreported, hn'⟩

/-- **Every report is backed.** Any commands one after the other, for any accounts, on any node that a run leads to, while
others commit as they like and the network may fail: the hashes that were printed are those of transfers as they were
asked for, each of its own, which the chain has got since in the order of the commands. -/
theorem reports_backed (store : LedgerStore) (ops : List RpcOp) (dir : String) (commands : List SendCommand)
    (turns : Nat → Turn RpcState.Event Choice) :
    let start : Node := .quiet (final step (fresh store, emptyDisk) ops)
    let outcome := world.exec (sendAll dir commands) turns start
    ∃ txs added, Reported commands outcome.1 txs ∧ outcome.2.memory.blocks = start.memory.blocks ++ added ∧
      txs.Sublist (blockTxs added) := by
  intro start outcome
  have hstart : Amid store (SentSince start.memory.blocks []) start :=
    amid_run ops ⟨[], (List.append_nil _).symm, List.nil_sublist _⟩
  obtain ⟨txs, hreported, hn⟩ := ensures_sendAll dir commands [] turns (fun _ => False.elim) start hstart
  obtain ⟨l, ⟨added, hadded, hsublist⟩, hblocks⟩ := hn.blocks
  exact ⟨txs, added, hreported, hblocks ▸ hadded, hsublist⟩

omit [Ed25519] [Scrypt] [Aes256Gcm] [SecretKeys] [Jsonrpsee] in
theorem Reported.length {commands : List SendCommand} {results : List (Except CliError String)} {txs : List Transaction}
    (h : Reported commands results txs) : (results.filter Except.isOk).length = txs.length := by
  induction h with
  | nil => rfl
  | sent asked rest ih => rw [List.filter_cons_of_pos rfl, List.length_cons, List.length_cons, ih]
  | failed e rest ih => rw [List.filter_cons_of_neg Bool.false_ne_true, ih]

omit [Ed25519] [Scrypt] [Aes256Gcm] [SecretKeys] [Jsonrpsee] in
theorem Reported.asked {commands : List SendCommand} {results : List (Except CliError String)} {txs : List Transaction}
    (h : Reported commands results txs) : ∀ tx ∈ txs, ∃ c ∈ commands, Asked c.args tx := by
  induction h with
  | nil => nofun
  | @sent c commands results txs tx asked rest ih =>
    intro t ht
    rcases List.mem_cons.mp ht with rfl | ht
    · exact ⟨c, List.mem_cons_self, asked⟩
    · obtain ⟨c', hc', hasked⟩ := ih t ht
      exact ⟨c', List.mem_cons_of_mem _ hc', hasked⟩
  | failed e rest ih =>
    intro t ht
    obtain ⟨c', hc', hasked⟩ := ih t ht
    exact ⟨c', List.mem_cons_of_mem _ hc', hasked⟩

omit [Ed25519] [Scrypt] [Aes256Gcm] [SecretKeys] [Jsonrpsee] in
/-- An account has at most one transaction with a nonce. -/
theorem one_per_nonce {store : LedgerStore} {n : Node} (h : Stage store n) (a : Address) (nonce : Nonce) :
    ((sentBy a n.memory.blocks).filter fun tx => tx.nonce = nonce).length ≤ 1 := by
  obtain ⟨l, hwf, hblocks⟩ := h.wf
  obtain ⟨ops, -, happlied⟩ := hwf.history
  obtain ⟨k, hk⟩ := State.noncesOf_applied (State.withChainId store.chainId) ops a
  have hnodup : ((sentBy a n.memory.blocks).map fun tx => tx.nonce.toNat).Nodup := by
    have hnonces : (sentBy a n.memory.blocks).map (fun tx => tx.nonce.toNat) =
        State.noncesOf a (State.applied (State.withChainId store.chainId) ops) := by
      rw [happlied, hblocks]
      rfl
    rw [hnonces, hk]
    exact List.nodup_range'
  have hall : ((sentBy a n.memory.blocks).filter fun tx => tx.nonce = nonce).map (fun tx => tx.nonce.toNat) =
      List.replicate ((sentBy a n.memory.blocks).filter fun tx => tx.nonce = nonce).length nonce.toNat := by
    rw [List.eq_replicate_iff]
    refine ⟨by simp, fun k hk => ?_⟩
    obtain ⟨tx, htx, rfl⟩ := List.mem_map.mp hk
    have hnonce : tx.nonce = nonce := by simpa using (List.mem_filter.mp htx).2
    rw [hnonce]
  have hsublist := (List.filter_sublist (p := fun tx => tx.nonce = nonce) (l := sentBy a n.memory.blocks)).map
    fun tx => tx.nonce.toNat
  rw [hall] at hsublist
  exact List.nodup_replicate.mp (hsublist.nodup hnodup)

/-- **Retries pay once.** Commands that send for one account with one `--nonce`, whatever else they say: however the
network fails and whatever others do between them, at most one of them prints a hash, and the chain has at most one
transaction of the account with that nonce. -/
theorem retries_pay_once (store : LedgerStore) (ops : List RpcOp) (dir : String) (a : Address) (nonce : Nonce)
    (commands : List SendCommand) (turns : Nat → Turn RpcState.Event Choice)
    (hretries : ∀ c ∈ commands, c.args.nonce = some nonce ∧ ∀ b, parseAddressAs CliError.message c.args.sender = .ok b → b = a) :
    let outcome := world.exec (sendAll dir commands) turns (.quiet (final step (fresh store, emptyDisk) ops))
    (outcome.1.filter Except.isOk).length ≤ 1 ∧
      ((sentBy a outcome.2.memory.blocks).filter fun tx => tx.nonce = nonce).length ≤ 1 := by
  intro outcome
  have hstart : Amid store (SentSince [] []) (.quiet (final step (fresh store, emptyDisk) ops)) :=
    amid_run ops ⟨_, rfl, List.nil_sublist _⟩
  obtain ⟨txs, hreported, hn⟩ := ensures_sendAll dir commands [] turns (fun _ => False.elim) _ hstart
  have hone := one_per_nonce hn.stage a nonce
  refine ⟨?_, hone⟩
  obtain ⟨l, ⟨added, hadded, hsublist⟩, hblocks⟩ := hn.blocks
  rw [List.nil_append] at hadded hsublist
  rw [← hblocks, hadded, sentBy, List.filter_filter] at hone
  -- all of them are among the account's transactions with that nonce
  have hthese : txs.filter (fun tx => (tx.nonce = nonce : Bool) && (tx.fromAddr = a : Bool)) = txs := by
    rw [List.filter_eq_self]
    intro tx htx
    obtain ⟨c, hc, hasked⟩ := hreported.asked tx htx
    obtain ⟨hnonce, hsender⟩ := hretries c hc
    simp [hasked.nonce nonce hnonce, hsender _ hasked.sender]
  have hlength := (hsublist.filter fun tx => (tx.nonce = nonce : Bool) && (tx.fromAddr = a : Bool)).length_le
  rw [hthese] at hlength
  have hcount : (outcome.1.filter Except.isOk).length = txs.length := hreported.length
  omega

/-- A transaction that the node accepts is reported, if the network and the others keep still. -/
theorem send_accepted {store : LedgerStore} {start : Node} (hstart : Amid store (fun _ => True) start)
    {turn : Turn RpcState.Event Choice} {delivery : Delivery} (hbefore : turn.before = []) (hfate : turn.choice.fate = .answered delivery)
    {dir : String} {listed opened : Folder} {args : SendArgs} {order : Order} {nonce : Nonce} {chainId : ChainId}
    (hnonce : args.nonce = some nonce) (hchain : args.chainId = some chainId)
    (hopen : openSend dir listed opened args = .ok order)
    (haccepted : (world.exec (ethSendTransaction (cliSend (SecretKeys.signingKey order.secret) order.sender order.recipient
      args.amount args.gasPrice nonce chainId)).run (fun _ => turn) start).1.isOk = true) :
    ∃ hash, (world.exec (send dir listed opened args).run (fun _ => turn) start).1 = .ok hash := by
  let key := SecretKeys.signingKey order.secret
  let params := cliSend key order.sender order.recipient args.amount args.gasPrice nonce chainId
  have hreliable : Reliably True turn := fun _ => ⟨delivery, hfate⟩
  have hsend : world.Ensures (Reliably True) (Amid store fun _ => True) (ethSendTransaction params).run
      (Setting.OkThen (fun _ n => Amid store (fun _ => True) n ∧ ∀ tx, signedTransaction params store.chainId = .ok tx → True)
        fun value n => ∃ tx, signedTransaction params store.chainId = .ok tx ∧
          value = .string (displayBytes tx.hash.toList) ∧ Amid store (fun _ => True) n) :=
    ensures_send (D := fun _ => True) ⟨fun _ _ _ _ => trivial, fun _ _ _ _ _ _ _ _ _ _ _ => trivial⟩
      (fun _ _ _ _ => trivial) (fun _ _ _ _ _ _ _ _ _ => trivial) fun _ _ _ _ _ _ _ _ _ _ _ => trivial
  have hanswer := hsend (fun _ => turn) (fun _ => hreliable) start hstart
  have hexec := world.ensures_exec (ethSendTransaction params).run turn start
  change (world.exec (ethSendTransaction params).run (fun _ => turn) start).1.isOk = true at haccepted
  generalize world.exec (ethSendTransaction params).run (fun _ => turn) start = outcome at haccepted hanswer hexec
  obtain ⟨e | value, n⟩ := outcome
  · cases haccepted
  obtain ⟨tx, -, rfl, -⟩ := hanswer
  have hparams := small_sendParams (unsignedTransfer order.sender order.recipient args.amount args.gasPrice nonce chainId)
    order.recipient ((quotedBytes_u128 args.gasPrice).trans (by decide)) key.publicKey
    (key.sign (unsignedTransfer order.sender order.recipient args.amount args.gasPrice nonce chainId).signingPayload)
  have hcall : world.Ensures (· = turn) (· = start) (rpcCallValue args.rpcUrl "eth_sendTransaction" params).run
      (Setting.OkThen (fun _ _ => False) fun value _ => value = .string (displayBytes tx.hash.toList)) := by
    refine ensures_rpcCall (c := client args.rpcUrl) (fun t ht => ht ▸ hreliable) ?_ rfl hparams.1
      (length_requestBody_le (by decide +kernel) hparams.2) hexec ?_ ?_ ?_ ?_
    · rintro t n rfl rfl
      rw [hbefore]
      rfl
    · rintro value n' ⟨⟩
      refine fits_of_small ⟨Json.integral_string _, ?_⟩ (show 300100 ≤ maxRpcResponseBytes by decide)
      rw [Json.weight, quotedBytes_displayBytes, Vector.length_toList]
      decide
    · rintro value n' ⟨⟩
      rfl
    · rintro _ _ _ _ _ ⟨⟩
    · exact fun _ _ _ _ hrel => absurd trivial hrel
  have hresult : world.Ensures (· = turn) (· = start) (send dir listed opened args).run
      (Setting.OkThen (fun _ _ => False) fun hash _ => hash = displayBytes tx.hash.toList) := by
    rw [send_given hnonce hchain hopen]
    refine hcall.andThen fun value => .attempt ?_
    rintro n rfl
    rfl
  have hok := hresult (fun _ => turn) (fun _ => rfl) start rfl
  generalize world.exec (send dir listed opened args).run (fun _ => turn) start = outcome at hok ⊢
  obtain ⟨e | hash, n⟩ := outcome
  · exact hok.elim
  · exact ⟨hash, rfl⟩

end
section
open scoped Concrete

def payerArgs : SendArgs :=
  ⟨displayBytes payer.toList, displayBytes bob.toList, 5, "correct horse", 1, some 0, some durableStore.chainId,
    "http://127.0.0.1:8545"⟩

def fundingOps : List RpcOp := [.seed [(payer, 100000)] none]

def promptTurn : Turn RpcState.Event Choice := ⟨[], .answered inOnePiece, 8, none⟩

theorem openSend_payer : openSend "wallets" payerFolder payerFolder payerArgs = .ok ⟨payer, bob, payerSecret⟩ := by
  obtain ⟨w, hload⟩ := load_payer
  exact openSend_ok_iff.mpr ⟨by decide, by decide +kernel, by decide +kernel, by decide +kernel, "payer.json", payerWallet, w,
    findWallet_payer _, hload⟩

/-- The payer's transfer is accepted, and its hash printed. -/
theorem send_payer : ∃ hash, (world.exec (send "wallets" payerFolder payerFolder payerArgs).run (fun _ => promptTurn)
    (.quiet (final step (fresh durableStore, emptyDisk) fundingOps))).1 = .ok hash :=
  send_accepted (amid_run fundingOps trivial) rfl rfl rfl rfl openSend_payer (by decide +kernel)

/-- The status is asked for after two more blocks of somebody else, one of them half published. -/
def laterTurn : Turn RpcState.Event Choice := ⟨[.seed ⟨[(alice, 100000)], none⟩, .commit (.submit payment 9 none), .write],
  .answered inOnePiece, 10, none⟩

theorem sent_is_found_payer : ∃ hash,
    let sent := world.exec (send "wallets" payerFolder payerFolder payerArgs).run (fun _ => promptTurn)
      (.quiet (final step (fresh durableStore, emptyDisk) fundingOps))
    sent.1 = .ok hash ∧
    let found := world.exec (status payerArgs.rpcUrl hash).run (fun _ => laterTurn) sent.2
    ((∃ tx ∈ blockTxs found.2.memory.blocks, Asked payerArgs tx ∧ hash = displayBytes tx.hash.toList ∧
        ∃ block ∈ found.2.memory.blocks, block.Contains tx.hash ∧
          found.1 = .ok (.receipt (receiptJson (newReceipt tx.hash block)))) ∨
      (∃ e, found.1 = .error e) ∧ ¬ ∀ _ : Nat, ∃ d, laterTurn.choice.fate = .answered d) := by
  obtain ⟨hash, hsent⟩ := send_payer
  exact ⟨hash, hsent, sent_is_found durableStore fundingOps "wallets" payerFolder payerFolder payerArgs (fun _ => promptTurn)
    (fun _ => laterTurn) payerArgs.rpcUrl hash hsent⟩

/-- The answer to the first try is lost, and the payer tries again with another amount. -/
theorem retries_pay_once_payer :
    let lostTurn : Turn RpcState.Event Choice := ⟨[], .unanswered inOnePiece "connection closed", 8, none⟩
    let commands : List SendCommand := [⟨payerFolder, payerFolder, payerArgs⟩, ⟨payerFolder, payerFolder, { payerArgs with amount := 6 }⟩]
    let outcome := world.exec (sendAll "wallets" commands) (fun i => if i = 0 then lostTurn else promptTurn)
      (.quiet (final step (fresh durableStore, emptyDisk) fundingOps))
    (outcome.1.filter Except.isOk).length ≤ 1 ∧
      ((sentBy payer outcome.2.memory.blocks).filter fun tx => tx.nonce = 0).length ≤ 1 := by
  have hsender : parseAddressAs CliError.message payerArgs.sender = .ok payer := by decide +kernel
  refine retries_pay_once durableStore fundingOps "wallets" payer 0 _ _ ?_
  intro c hc
  have hargs : c.args.nonce = some 0 ∧ c.args.sender = payerArgs.sender := by
    rcases List.mem_cons.mp hc with rfl | hc
    · exact ⟨rfl, rfl⟩
    · rw [List.mem_singleton.mp hc]
      exact ⟨rfl, rfl⟩
  refine ⟨hargs.1, fun b hb => ?_⟩
  rw [hargs.2, hsender] at hb
  exact (Except.ok.inj hb).symm

end
end Cli
end Subhost
