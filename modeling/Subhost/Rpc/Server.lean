import Subhost.Lib.Program
import Subhost.Rpc.Publish
import Subhost.Rpc.BlockTag
import Subhost.Rpc.Wire
/-!
# The JSON-RPC server and its callers (subhost-rpc/src/lib.rs:650-740)

| here | there |
| --- | --- |
| `rpcModule`  | `RpcServer::build_module` (lib.rs:650), with its ten methods |
| `Act`        | what a handler does under one lock: the accessors of `RpcState` and `submit_transaction` |
| `Jsonrpsee`  | **jsonrpsee boundary**: its server with the limits of `start` (lib.rs:626-628) |
| `Concrete.jsonrpsee` | a server that shows that `Jsonrpsee` can be met |
| `post`       | the HTTP exchange of a client |

Handlers do not take the commit lock: each access of a handler is a request of its own, and between two of them the
node may commit blocks, write by write (`Rpc/Publish.lean`). The world of these programs is the node with everything
that may happen to it, and the network, which may lose a request, or its answer after the node has acted. Of a run the
messages are noted, each with its fate.

Of jsonrpsee it is only assumed that it hands a request as the clients here send it to the method and answers with the
result; batches, notifications and ill-formed bodies are left open. `hears_rpcCall` lifts what holds of a handler to what
a client gets.
-/
namespace Subhost
open Uint Bincode Run Program JsonText

/-- What becomes of a request on the network. -/
inductive Fate where
  /-- It does not reach the node. -/
  | lost (error : String)
  /-- Something before the node turns it away. -/
  | refused (response : HttpResponse) (failure : 400 ≤ response.status ∧ response.status < 600)
  /-- The node acts on it, and the answer is lost. -/
  | unanswered (delivery : Delivery) (error : String)
  /-- The answer breaks off. -/
  | cutOff (delivery : Delivery) (kept : Nat) (error : String)
  | answered (delivery : Delivery)

/-- What the outside world decides about an act: the fate of a message, and for a commit its time and I/O error. -/
structure Choice where
  fate : Fate
  now : Timestamp
  fault : Option Fault

/-- The acts of handlers and clients. -/
inductive Act : Type → Type where
  /-- A message is sent. -/
  | fate (message : Bytes) : Act Fate
  | chainId : Act ChainId
  | blockHeight : Act U64
  | minGasPrice : Act Amount
  | balance (address : Address) : Act Amount
  | nonce (address : Address) : Act Nonce
  | receipt (txHash : Hash) : Act (Option Receipt)
  | blockAtHeight (height : U64) : Act (Option Block)
  | blockCount : Act Nat
  | submit (tx : Transaction) : Act (Except RpcError Hash)

section
variable [Blake3] [Ed25519]

namespace RpcState

omit [Ed25519] in
/-- One act on the node. A submission waits for the commit lock, that is until the writes of the commit that holds it
are made. -/
def Node.perform {β : Type} (act : Act β) (choice : Choice) (n : Node) : β × Node :=
  match act with
  | .fate _ => (choice.fate, n)
  | .chainId => (n.memory.chainId, n)
  | .blockHeight => (n.memory.blockHeight, n)
  | .minGasPrice => (n.memory.mempool.config.minGasPrice, n)
  | .balance address => (n.memory.state.balance address, n)
  | .nonce address => (n.memory.state.nonce address, n)
  | .receipt txHash => (n.memory.receipt txHash, n)
  | .blockAtHeight height => (n.memory.blockAtHeight height, n)
  | .blockCount => (n.memory.blockCount, n)
  | .submit tx =>
    let (s, d) := n.complete
    let (result, s, d) := s.submitTransaction d tx choice.now choice.fault
    (result, ⟨s, d, []⟩)

/-- What is noted of an act: a message, and its fate. -/
def messageOf {β : Type} (act : Act β) (choice : Choice) : List (Bytes × Fate) :=
  match act with
  | .fate message => [(message, choice.fate)]
  | _ => []

omit [Ed25519] in
/-- The node amid everything that happens to it. -/
def world : Setting Act Node RpcState.Event Choice (Bytes × Fate) :=
  ⟨fun n e => (n.step e).2, Node.perform, messageOf⟩

end RpcState

/-- Answers get through, if the network is reliable. -/
def Reliably (reliable : Prop) (turn : Turn RpcState.Event Choice) : Prop :=
  reliable → ∃ d, turn.choice.fate = .answered d

/-! ## The methods -/

/-- `params.sequence().next()` at the type `String`. -/
def nextString : Json → Except RpcError String
  | .array (.string text :: _) => .ok text
  | _ => .error .invalidParams

/-- A method of the module. -/
abbrev Handler := Json → ExceptT RpcError (Prog Act) Json

open Prog (access attempt)

omit [Blake3] [Ed25519] in
/-- `eth_chainId` (lib.rs:653). -/
def ethChainId : Handler := fun _ => do
  return .string (hexText (← access .chainId).toNat)

omit [Blake3] [Ed25519] in
/-- `net_version` (lib.rs:657). -/
def netVersion : Handler := fun _ => do
  return .string (toString (← access .chainId).toNat)

omit [Blake3] [Ed25519] in
/-- `eth_blockNumber` (lib.rs:661). -/
def ethBlockNumber : Handler := fun _ => do
  return .string (hexText (← access .blockHeight).toNat)

omit [Blake3] [Ed25519] in
/-- `eth_gasPrice` (lib.rs:665). -/
def ethGasPrice : Handler := fun _ => do
  return .string (hexText (← access .minGasPrice).toNat)

omit [Blake3] [Ed25519] in
/-- `eth_getBalance` (lib.rs:669). -/
def ethGetBalance : Handler := fun params => do
  let text ← attempt (nextString params)
  let address ← attempt (parseAddress text)
  return .string (hexText (← access (.balance address)).toNat)

omit [Blake3] [Ed25519] in
/-- `eth_getTransactionCount` (lib.rs:675). -/
def ethGetTransactionCount : Handler := fun params => do
  let text ← attempt (nextString params)
  let address ← attempt (parseAddress text)
  return .string (hexText (← access (.nonce address)).toNat)

/-- `eth_sendTransaction` (lib.rs:680). -/
def ethSendTransaction : Handler := fun params => do
  let chainId ← access .chainId
  let tx ← attempt (signedTransaction params chainId)
  let hash ← attempt (← access (.submit tx))
  return .string (displayBytes hash.toList)

omit [Blake3] [Ed25519] in
/-- `eth_getTransactionReceipt` (lib.rs:696). -/
def ethGetTransactionReceipt : Handler := fun params => do
  let txHash ← attempt (requestedHash params)
  return (← access (.receipt txHash)).elim .null receiptJson

omit [Ed25519] in
/-- `eth_getBlockByNumber` (lib.rs:706): the count and the block are two reads. -/
def ethGetBlockByNumber : Handler := fun params => do
  let (tag, fullTransactions) ← attempt (requestedBlock params)
  let count ← access .blockCount
  match ← attempt (resolveBlockHeight tag (BitVec.ofNat 64 count)) with
  | none => return .null
  | some height =>
    return (← access (.blockAtHeight height)).elim .null fun block => blockJson block fullTransactions

omit [Ed25519] in
/-- `eth_getTransactionByHash` (lib.rs:721): the receipt and its block are two reads. -/
def ethGetTransactionByHash : Handler := fun params => do
  let txHash ← attempt (requestedHash params)
  match ← access (.receipt txHash) with
  | none => return .null
  | some receipt =>
    match ← access (.blockAtHeight receipt.blockHeight) with
    | none => return .null
    | some block => return foundTransaction txHash block

/-- `RpcServer::build_module` (lib.rs:650). -/
def rpcModule : List (String × Handler) :=
  [("eth_chainId", ethChainId), ("net_version", netVersion), ("eth_blockNumber", ethBlockNumber),
    ("eth_gasPrice", ethGasPrice), ("eth_getBalance", ethGetBalance),
    ("eth_getTransactionCount", ethGetTransactionCount), ("eth_sendTransaction", ethSendTransaction),
    ("eth_getTransactionReceipt", ethGetTransactionReceipt), ("eth_getBlockByNumber", ethGetBlockByNumber),
    ("eth_getTransactionByHash", ethGetTransactionByHash)]

/-! ## A request and its answer -/

/-- The server of jsonrpsee, with any methods: the response to a body. A request of a client that names a method and is
within the limit is answered with the method's result, or with an error of the server's own if that is too big. -/
class Jsonrpsee where
  oversized : ErrorObject
  respond : List (String × Handler) → Delivery → Bytes → Prog Act HttpResponse
  respond_request : ∀ {methods : List (String × Handler)} {method : String} {handler : Handler} {params : Json}
    (delivery : Delivery), methods.lookup method = some handler → params.Integral →
    (requestBody method params).toVec.length ≤ maxRequestBodyBytes →
    respond methods delivery (requestBody method params).toVec = (handler params).run >>= fun result =>
      .done (delivery.response (reply oversized (.int 1) (result.mapError RpcError.toErrorObject)))

/-- The exchange of a client with the node. -/
def post [Jsonrpsee] (body : Bytes) : Prog Act (Except String HttpResponse) := do
  match ← Prog.call (.fate body) with
  | .lost error => return .error error
  | .refused response _ => return .ok response
  | .unanswered delivery error => do
    let _ ← Jsonrpsee.respond rpcModule delivery body
    return .error error
  | .cutOff delivery kept error => do
    let response ← Jsonrpsee.respond rpcModule delivery body
    return .ok { response with chunks := response.chunks.take kept, broken := some error }
  | .answered delivery => return .ok (← Jsonrpsee.respond rpcModule delivery body)

/-! A server that answers every other body with an error. -/

/-- Id, method and parameters of a request. -/
def parseRequest (body : Json) : Option (Json × String × Json) :=
  match body.get "jsonrpc", body.get "id", body.get "method" with
  | some (.string "2.0"), some id, some (.string method) => some (id, method, (body.get "params").getD .null)
  | _, _, _ => none

/-- The body of the answer to a body. -/
def serveBody (oversized : ErrorObject) (methods : List (String × Handler)) (body : Bytes) : Prog Act Bytes :=
  match Json.fromSlice body with
  | none => .done (reply oversized .null (.error ⟨-32700, "Parse error", none⟩))
  | some request =>
    match parseRequest request with
    | none => .done (reply oversized .null (.error ⟨-32600, "Invalid request", none⟩))
    | some (id, method, params) =>
      match methods.lookup method with
      | none => .done (reply oversized id (.error ⟨-32601, "Method not found", none⟩))
      | some handler => do
        let result ← (handler params).run
        return reply oversized id (result.mapError RpcError.toErrorObject)

omit [Blake3] [Ed25519] in
/-- It finds the method and the parameters that the client has written. -/
theorem serveBody_requestBody (oversized : ErrorObject) {methods : List (String × Handler)} {method : String}
    {params : Json} {handler : Handler} (hmethod : methods.lookup method = some handler) (hparams : params.Integral) :
    serveBody oversized methods (requestBody method params).toVec = (handler params).run >>= fun result =>
      .done (reply oversized (.int 1) (result.mapError RpcError.toErrorObject)) := by
  have hbody : (requestBody method params).Integral := by simp [requestBody, hparams]
  have hparse : parseRequest (requestBody method params) = some (.int 1, method, params) := by
    simp [parseRequest, requestBody, Json.get, List.lookup_cons]
  rw [serveBody, Json.toVec, Json.fromSlice_write hbody]
  dsimp only
  rw [hparse]
  dsimp only
  rw [hmethod]
  rfl

namespace Concrete

omit [Blake3] [Ed25519] in
scoped instance jsonrpsee : Jsonrpsee where
  oversized := ⟨-32008, "Response is too big", some "Exceeded max limit of 1048576"⟩
  respond methods delivery body := do
    return delivery.response (← serveBody ⟨-32008, "Response is too big", some "Exceeded max limit of 1048576"⟩ methods body)
  respond_request delivery hmethod hparams _ := by
    rw [serveBody_requestBody _ hmethod hparams, Prog.bind_assoc]
    rfl

end Concrete

omit [Blake3] [Ed25519] in
/-- What a client makes of the outcome, up to the kind of its error: the explorer and the faucet. -/
def rpcResult {ε : Type} (rpc : String → ε) (method : String) : Faucet.RpcOutcome → Except ε Json
  | .requestFailed error => .error (rpc (method ++ " request failed: " ++ error))
  | .httpStatus status => .error (rpc (method ++ " returned HTTP " ++ status))
  | .tooLarge => .error (rpc "response is too large")
  | .readFailed error => .error (rpc ("response read failed: " ++ error))
  | .invalidJson error => .error (rpc (method ++ " returned invalid JSON: " ++ error))
  | .body value =>
    match value.get "error" with
    | some error =>
      .error (rpc (method ++ " failed: " ++ ((error.get "message").bind Json.asStr).getD "unknown error"))
    | none => (value.get "result").elim (.error (rpc (method ++ " response has no result"))) .ok

omit [Blake3] [Ed25519] in
theorem Faucet.rpcCall_eq : Faucet.rpcCall = rpcResult FaucetError.rpc := by
  funext method outcome
  cases outcome <;> rfl

/-- A client of the node: of which statuses it reads the body, up to which size, and what it makes of the outcome. -/
structure Client (ε : Type) where
  accepts : Nat → Bool
  serdeError : Bytes → String
  limit : Nat
  result : String → Faucet.RpcOutcome → Except ε Json
  /-- Its error for a method that failed with this message. -/
  failed : String → String → ε
  accepts_ok : accepts 200 = true
  rejects_failure : ∀ status, 400 ≤ status → status < 600 → accepts status = false
  result_value : ∀ method value, result method (.body (response (.int 1) (.ok value))) = .ok value
  result_error : ∀ method e, result method (.body (response (.int 1) (.error e))) = .error (failed method e.message)
  result_none : ∀ method outcome, (∀ value, outcome ≠ .body value) → ∃ e, result method outcome = .error e

namespace Client

variable {ε : Type}

omit [Blake3] [Ed25519] in
def outcome (c : Client ε) : Except String HttpResponse → Faucet.RpcOutcome := outcomeOf c.accepts c.serdeError c.limit

/-- `rpc_call` of a client. -/
def rpcCall [Jsonrpsee] (c : Client ε) (method : String) (params : Json) : ExceptT ε (Prog Act) Json :=
  .mk (do return c.result method (c.outcome (← post (requestBody method params).toVec)))

omit [Blake3] [Ed25519] in
/-- The explorer and the faucet, which read the body of a success only. -/
def ofRpc (rpc : String → ε) (serdeError : Bytes → String) (limit : Nat) : Client ε where
  accepts status := 200 ≤ status ∧ status < 300
  serdeError
  limit
  result := rpcResult rpc
  failed method message := rpc (method ++ " failed: " ++ message)
  accepts_ok := rfl
  rejects_failure status h _ := by
    simp only [Bool.decide_and, Bool.and_eq_false_iff, decide_eq_false_iff_not]
    omega
  result_value method value := by simp [rpcResult, response, payload, Json.get, List.lookup_cons]
  result_error method e := by
    simp [rpcResult, response, payload, Json.get, List.lookup_cons, ErrorObject.json, Json.asStr]
  result_none method outcome h := by
    cases outcome with
    | body value => exact absurd rfl (h value)
    | requestFailed | httpStatus | tooLarge | readFailed | invalidJson => exact ⟨_, rfl⟩

omit [Blake3] [Ed25519] in
/-- All their errors are of one kind. -/
theorem exists_of_rpcResult {rpc : String → ε} {method : String} {outcome : Faucet.RpcOutcome} {e : ε}
    (h : rpcResult rpc method outcome = .error e) : ∃ message, e = rpc message := by
  cases outcome with
  | body value =>
    rw [rpcResult] at h
    split at h
    · exact ⟨_, (Except.error.inj h).symm⟩
    · cases hresult : value.get "result" <;> rw [hresult] at h
      · exact ⟨_, (Except.error.inj h).symm⟩
      · cases h
  | requestFailed | httpStatus | tooLarge | readFailed | invalidJson => exact ⟨_, (Except.error.inj h).symm⟩

end Client

/-! ## The node under its callers -/

namespace RpcState

omit [Ed25519] in
/-- Whatever happens, the node goes from stage to stage and its chain only grows. -/
theorem Stage.keeps {store : LedgerStore} {n : Node} (h : Stage store n) (e : RpcState.Event) :
    Stage store (n.step e).2 ∧ n.memory.blocks <+: (n.step e).2.memory.blocks := by
  have hwait : Stage store n ∧ n.memory.blocks <+: n.memory.blocks := ⟨h, List.prefix_rfl⟩
  cases e with
  | read reader query => exact hwait
  | write =>
    cases h with
    | idle sane => exact ⟨.idle sane, List.prefix_rfl⟩
    | @swap base d txHash c k hk before after =>
      rcases k with _ | _ | _ | _ | _ | k
      · exact ⟨.swap 1 (by omega) before after, List.prefix_rfl⟩
      · exact ⟨.swap 2 (by omega) before after, List.prefix_rfl⟩
      · exact ⟨.swap 3 (by omega) before after, List.prefix_append _ _⟩
      · exact ⟨.swap 4 (by omega) before after, List.prefix_rfl⟩
      · exact ⟨.idle after, List.prefix_rfl⟩
      · omega
  | seed op =>
    by_cases hidle : n.pending.isEmpty
    · simp only [Node.step, if_pos hidle]
      exact (Stage.seed (h.sane hidle) op).imp_right Grows.blocks
    · simp only [Node.step, if_neg hidle]
      exact hwait
  | commit op =>
    by_cases hidle : n.pending.isEmpty
    · simp only [Node.step, if_pos hidle]
      exact (Stage.commit (h.sane hidle) op).imp_right Grows.blocks
    · simp only [Node.step, if_neg hidle]
      exact hwait

omit [Ed25519] in
/-- The height that readers see never goes back. -/
theorem Stage.blockHeight_le {store : LedgerStore} {n : Node} (h : Stage store n) (e : RpcState.Event) :
    n.memory.blockHeight.toNat ≤ (n.step e).2.memory.blockHeight.toNat := by
  have hlength : ∀ {s : RpcState} {d : Disk}, Sane store (s, d) → s.blockHeight.toNat = s.blocks.length :=
    fun {s d} hs => (congrArg BitVec.toNat hs.height).trans (lastHeight_toNat hs.wf.linked)
  have hsane : ∀ {s s' : RpcState} {d d' : Disk}, Sane store (s, d) → Sane store (s', d') → s.blocks <+: s'.blocks →
      s.blockHeight.toNat ≤ s'.blockHeight.toNat := by
    intro s s' d d' hs hs' hblocks
    rw [hlength hs, hlength hs']
    exact hblocks.length_le
  cases e with
  | read reader query => exact Nat.le_refl _
  | write =>
    cases h with
    | idle sane => exact Nat.le_refl _
    | @swap base d txHash c k hk before after =>
      rcases k with _ | _ | _ | _ | _ | k
      · exact Nat.le_refl _
      · exact Nat.le_refl _
      · exact Nat.le_refl _
      · exact Nat.le_refl _
      · have hheight : base.blockHeight.toNat ≤ (base.commitBlock txHash c).blockHeight.toNat :=
          hsane before after (List.prefix_append _ _)
        exact hheight
      · omega
  | seed op =>
    by_cases hidle : n.pending.isEmpty
    · simp only [Node.step, if_pos hidle]
      obtain ⟨hstage, hgrows⟩ := Stage.seed (h.sane hidle) op
      exact hsane (h.sane hidle) (hstage.sane rfl) hgrows.blocks
    · simp only [Node.step, if_neg hidle]
      exact Nat.le_refl _
  | commit op =>
    by_cases hidle : n.pending.isEmpty
    · simp only [Node.step, if_pos hidle]
      -- the call has not reached the height yet
      obtain ⟨-, p, d', -, hbegin | ⟨txHash, c, hbegin⟩⟩ := beginCommit_spec (h.sane hidle).pool n.disk op <;> rw [hbegin] <;>
        exact Nat.le_refl _
    · simp only [Node.step, if_neg hidle]
      exact Nat.le_refl _

omit [Ed25519] in
/-- When the writes under way are made, the node is sane. -/
theorem Stage.complete {store : LedgerStore} {n : Node} (h : Stage store n) :
    Sane store n.complete ∧ n.memory.blocks <+: n.complete.1.blocks := by
  cases h with
  | idle sane => exact ⟨sane, List.prefix_rfl⟩
  | @swap base d txHash c k hk before after =>
    rcases k with _ | _ | _ | _ | _ | k
    · exact ⟨after, List.prefix_append _ _⟩
    · exact ⟨after, List.prefix_append _ _⟩
    · exact ⟨after, List.prefix_append _ _⟩
    · exact ⟨after, List.prefix_rfl⟩
    · exact ⟨after, List.prefix_rfl⟩
    · omega

omit [Ed25519] in
theorem Stage.chainId {store : LedgerStore} {n : Node} (h : Stage store n) : n.memory.chainId = store.chainId := by
  cases h with
  | idle sane => exact sane.chain
  | @swap base d txHash c k hk before after =>
    rcases k with _ | _ | _ | _ | _ | k <;> first | exact before.chain | omega

omit [Ed25519] in
/-- At every point the chain is one that a well-formed ledger has. -/
theorem Stage.wf {store : LedgerStore} {n : Node} (h : Stage store n) :
    ∃ l : Ledger, l.Wf store.chainId ∧ l.blocks = n.memory.blocks := by
  cases h with
  | @idle s d sane => exact ⟨_, sane.wf, rfl⟩
  | @swap base d txHash c k hk before after =>
    rcases k with _ | _ | _ | _ | _ | k
    · exact ⟨_, before.wf, rfl⟩
    · exact ⟨_, before.wf, rfl⟩
    · exact ⟨_, before.wf, rfl⟩
    · exact ⟨_, after.wf, rfl⟩
    · exact ⟨_, after.wf, rfl⟩
    · omega

/-- A node of the store, whose chain starts with these blocks. -/
structure Holds (store : LedgerStore) (blocks : List Block) (n : Node) : Prop where
  stage : Stage store n
  chain : blocks <+: n.memory.blocks

omit [Ed25519] in
theorem Holds.others {store : LedgerStore} {blocks : List Block} {n : Node} (h : Holds store blocks n)
    (events : List RpcState.Event) : Holds store blocks (world.others n events) :=
  Setting.others_invariant (D := fun _ => True)
    (fun n e _ (h : Holds store blocks n) => ⟨(h.stage.keeps e).1, h.chain.trans (h.stage.keeps e).2⟩) h
    fun _ _ => trivial

omit [Ed25519] in
theorem submitTransaction_extends {store : LedgerStore} {s : RpcState} {d : Disk} (h : Sane store (s, d))
    (tx : Transaction) (now : Timestamp) (fault : Option Fault) :
    s.blocks <+: (s.submitTransaction d tx now fault).2.1.blocks := by
  have hextends : ∀ {l l' : Ledger}, l.Extends s.chainId l' → l.blocks <+: l'.blocks := by
    rintro l _ ⟨⟩
    exact List.prefix_append _ _
  rcases step_commit h (.submit tx now fault) with hsame | hmore
  · have hblocks : (s.submitTransaction d tx now fault).2.1.blocks = s.blocks := congrArg Ledger.blocks hsame
    rw [hblocks]
  · exact hextends hmore

omit [Ed25519] in
/-- **Every act** leaves a node of the store, with the same beginning of its chain. -/
theorem Holds.serve {store : LedgerStore} {blocks : List Block} {n : Node} (h : Holds store blocks n) {β : Type}
    (act : Act β) (turn : Turn RpcState.Event Choice) : Holds store blocks (world.serve act turn n).2 := by
  have hothers := h.others turn.before
  cases act with
  | submit tx =>
    obtain ⟨hsane, hgrown⟩ := hothers.stage.complete
    have hstep := hsane.step (.submit tx turn.choice.now turn.choice.fault)
    exact ⟨.idle hstep, (hothers.chain.trans hgrown).trans (submitTransaction_extends hsane tx _ _)⟩
  | fate | chainId | blockHeight | minGasPrice | balance | nonce | receipt | blockAtHeight | blockCount => exact hothers

end RpcState

/-! ## Calls -/

open RpcState

/-- What a client of this limit makes of a method's answer: a result is read as it is; an error as well if it fits the
limits, and otherwise as another error. -/
inductive Seen (limit : Nat) : Except RpcError Json → Faucet.RpcOutcome → Prop where
  | result (value : Json) : Seen limit (.ok value) (.body (response (.int 1) (.ok value)))
  | error {e : RpcError} {outcome : Faucet.RpcOutcome}
      (fits : (response (.int 1) (.error e.toErrorObject)).toVec.length ≤ min maxResponseBodyBytes limit →
        outcome = .body (response (.int 1) (.error e.toErrorObject)))
      (refused : outcome = .tooLarge ∨ ∃ e, outcome = .body (response (.int 1) (.error e))) :
      Seen limit (.error e) outcome

/-- A value that can be answered: it is made of strings and integers, and not too big for the server and the client. -/
structure Fits (limit : Nat) (value : Json) : Prop where
  integral : value.Integral
  short : (response (.int 1) (.ok value)).toVec.length ≤ min maxResponseBodyBytes limit

omit [Blake3] [Ed25519] in
/-- The client's view of the server's reply. -/
theorem seen_reply {ε : Type} (c : Client ε) (d : Delivery) (oversized : ErrorObject) {result : Except RpcError Json}
    (hfits : ∀ value, result = .ok value → Fits c.limit value) :
    Seen c.limit result
      (c.outcome (.ok (d.response (reply oversized (.int 1) (result.mapError RpcError.toErrorObject))))) := by
  have herror : ∀ e : ErrorObject, (response (.int 1) (.error e)).Integral :=
    fun e => integral_response (Json.integral_int 1) nofun
  have hread : ∀ {j : Json}, j.Integral →
      c.outcome (.ok (d.response j.toVec)) = if j.toVec.length ≤ c.limit then .body j else .tooLarge :=
    fun hj => outcomeOf_delivered c.accepts_ok c.serdeError d hj c.limit
  cases result with
  | ok value =>
    obtain ⟨hintegral, hshort⟩ := hfits value rfl
    obtain ⟨hserver, hclient⟩ := Nat.le_min.mp hshort
    rw [Except.mapError, reply, if_neg (Nat.not_lt.mpr hserver), hread, if_pos hclient]
    · exact .result value
    · exact integral_response (Json.integral_int 1) (by rintro _ ⟨⟩; exact hintegral)
  | error e =>
    rw [Except.mapError, reply]
    refine .error ?_ ?_
    · intro hshort
      obtain ⟨hserver, hclient⟩ := Nat.le_min.mp hshort
      rw [if_neg (Nat.not_lt.mpr hserver), hread (herror _), if_pos hclient]
    · split <;> rw [hread (herror _)] <;> split
      · exact .inr ⟨_, rfl⟩
      · exact .inl rfl
      · exact .inr ⟨_, rfl⟩
      · exact .inl rfl

omit [Blake3] [Ed25519] in
/-- An answer that broke off is never taken for one. -/
theorem outcome_broken {ε : Type} (c : Client ε) {r : HttpResponse} {error : String} (h : r.broken = some error) (value : Json) :
    c.outcome (.ok r) ≠ .body value := by
  rw [Client.outcome, outcomeOf]
  split
  · exact Faucet.RpcOutcome.noConfusion
  · cases hread : readBounded c.limit r with
    | error e => cases e <;> exact Faucet.RpcOutcome.noConfusion
    | ok body =>
      have hwhole := (readBounded_ok_iff.mp hread).2.1
      rw [h] at hwhole
      cases hwhole

omit [Blake3] [Ed25519] in
/-- The node has acted on the message, and the client does not get the whole answer. -/
def Fate.Unheard : Fate → Prop
  | .unanswered .. | .cutOff .. => True
  | .lost _ | .refused .. | .answered _ => False

omit [Blake3] [Ed25519] in
theorem Fate.Unheard.ne_answered {fate : Fate} (h : fate.Unheard) (d : Delivery) : fate ≠ .answered d := by
  rintro rfl
  exact h

omit [Blake3] [Ed25519] in
theorem not_of_lost {reliable : Prop} {fate : Fate} (hfate : reliable → ∃ d, fate = .answered d)
    (hlost : ∀ d, fate ≠ .answered d) : ¬ reliable :=
  fun hrel => (hfate hrel).elim hlost

/-- What the fate of a message means for the node, from `P` by a method that leads to `Q`, and for the client. -/
inductive Exchange (limit : Nat) (P : Node → Prop) (Q : Except RpcError Json → Node → Prop) :
    Fate → Faucet.RpcOutcome → Node → Prop where
  | unsent {fate : Fate} {outcome : Faucet.RpcOutcome} {n : Node} (lost : ∀ d, fate ≠ .answered d)
      (silent : ∀ value, outcome ≠ .body value) (state : P n) : Exchange limit P Q fate outcome n
  | unheard {fate : Fate} {outcome : Faucet.RpcOutcome} {n : Node} (lost : fate.Unheard)
      (silent : ∀ value, outcome ≠ .body value) (r : Except RpcError Json) (state : Q r n) :
      Exchange limit P Q fate outcome n
  | answered (d : Delivery) {outcome : Faucet.RpcOutcome} {n : Node} (r : Except RpcError Json) (state : Q r n)
      (seen : Seen limit r outcome) : Exchange limit P Q (.answered d) outcome n

section
variable [Jsonrpsee] {C : Turn RpcState.Event Choice → Prop} {K : Fate → Prop} {P : Node → Prop}
  {Q : Except RpcError Json → Node → Prop} {method : String} {params : Json} {handler : Handler} {ε : Type} {c : Client ε}

theorem ensures_respond (hmethod : rpcModule.lookup method = some handler) (hparams : params.Integral)
    (hsmall : (requestBody method params).toVec.length ≤ maxRequestBodyBytes)
    (hhandler : world.Ensures C P (handler params).run Q) (delivery : Delivery) :
    world.Ensures C P (Jsonrpsee.respond rpcModule delivery (requestBody method params).toVec) fun resp n =>
      ∃ r, Q r n ∧
        resp = delivery.response (reply Jsonrpsee.oversized (.int 1) (r.mapError RpcError.toErrorObject)) := by
  rw [Jsonrpsee.respond_request delivery hmethod hparams hsmall]
  exact hhandler.bind fun r => .done fun n hn => ⟨r, hn, rfl⟩

/-- **From the handler to the client.** Whatever holds of a method's result on the server, under interference, holds of
what a client reads, if it reads anything; what it does depends on the fate of its message, the first that is noted. -/
theorem hears_post (hfate : ∀ t, C t → K t.choice.fate)
    (hothers : ∀ t n, C t → P n → P (world.others n t.before)) (hmethod : rpcModule.lookup method = some handler)
    (hparams : params.Integral) (hsmall : (requestBody method params).toVec.length ≤ maxRequestBodyBytes)
    (hhandler : world.Ensures C P (handler params).run Q) (hfits : ∀ value n, Q (.ok value) n → Fits c.limit value) :
    world.Hears C P (post (requestBody method params).toVec) fun l x n =>
      ∃ fate, ((requestBody method params).toVec, fate) ∈ l ∧ K fate ∧ Exchange c.limit P Q fate (c.outcome x) n := by
  have hrespond := ensures_respond hmethod hparams hsmall hhandler
  refine Setting.Hears.bind (Setting.Hears.call (Q := fun l fate n =>
    (((requestBody method params).toVec, fate) ∈ l ∧ K fate) ∧ P n) ?_) ?_
  · exact fun turn n hturn hn => ⟨⟨List.mem_singleton_self _, hfate turn hturn⟩, hothers turn n hturn hn⟩
  refine fun l fate => .assume ?_
  rintro ⟨hnoted, hkind⟩
  have hnoted : ∀ l', ((requestBody method params).toVec, fate) ∈ l ++ l' := fun l' => List.mem_append_left l' hnoted
  cases fate with
  | lost error =>
    refine .done fun n hn => ⟨_, hnoted [], hkind, .unsent (fun _ => Fate.noConfusion) ?_ hn⟩
    exact fun _ => Faucet.RpcOutcome.noConfusion
  | refused resp hstatus =>
    refine .done fun n hn => ⟨_, hnoted [], hkind, .unsent (fun _ => Fate.noConfusion) (fun value => ?_) hn⟩
    rw [Client.outcome, outcomeOf, if_pos (c.rejects_failure _ hstatus.1 hstatus.2)]
    exact Faucet.RpcOutcome.noConfusion
  | unanswered delivery error =>
    refine Setting.Hears.bind (hrespond delivery) fun l' resp => .done ?_
    rintro n ⟨r, hr, -⟩
    exact ⟨_, hnoted _, hkind, .unheard trivial (fun _ => Faucet.RpcOutcome.noConfusion) r hr⟩
  | cutOff delivery kept error =>
    refine Setting.Hears.bind (hrespond delivery) fun l' resp => .done ?_
    rintro n ⟨r, hr, -⟩
    exact ⟨_, hnoted _, hkind, .unheard trivial (outcome_broken c rfl) r hr⟩
  | answered delivery =>
    refine Setting.Hears.bind (hrespond delivery) fun l' resp => .done ?_
    rintro n ⟨r, hr, rfl⟩
    exact ⟨_, hnoted _, hkind, .answered delivery r hr
      (seen_reply c delivery _ fun value hvalue => hfits value n (hvalue ▸ hr))⟩

omit [Blake3] [Ed25519] [Jsonrpsee] in
/-- A client reads a result as the result, and anything else as an error of its own; a short message reaches it. -/
theorem result_of_seen (method : String) {r : Except RpcError Json} {outcome : Faucet.RpcOutcome} (h : Seen c.limit r outcome) :
    (∃ value, r = .ok value ∧ c.result method outcome = .ok value) ∨
      ∃ e e', r = .error e ∧ c.result method outcome = .error e' ∧
        ((response (.int 1) (.error e.toErrorObject)).toVec.length ≤ min maxResponseBodyBytes c.limit →
          e' = c.failed method e.toErrorObject.message) := by
  cases h with
  | result value => exact .inl ⟨value, rfl, c.result_value method value⟩
  | @error e _ fits refused =>
    rcases refused with rfl | ⟨object, rfl⟩
    · obtain ⟨e', he'⟩ := c.result_none method .tooLarge nofun
      exact .inr ⟨e, e', rfl, he', fun hshort => nomatch fits hshort⟩
    · refine .inr ⟨e, _, rfl, c.result_error method object, fun hshort => ?_⟩
      have hresult := c.result_error method e.toErrorObject
      rw [← fits hshort, c.result_error] at hresult
      exact Except.error.inj hresult

/-- **One call of a client.** It returns the method's result; or it fails, because the method did or the network. -/
theorem hears_rpcCall {bad : List (Bytes × Fate) → ε → Node → Prop} {good : Json → Node → Prop}
    (hfate : ∀ t, C t → K t.choice.fate)
    (hothers : ∀ t n, C t → P n → P (world.others n t.before)) (hmethod : rpcModule.lookup method = some handler)
    (hparams : params.Integral) (hsmall : (requestBody method params).toVec.length ≤ maxRequestBodyBytes)
    (hhandler : world.Ensures C P (handler params).run Q) (hfits : ∀ value n, Q (.ok value) n → Fits c.limit value)
    (hgood : ∀ value n, Q (.ok value) n → good value n)
    (hrefused : ∀ l e outcome error n, c.result method outcome = .error error → Q (.error e) n →
      ((response (.int 1) (.error e.toErrorObject)).toVec.length ≤ min maxResponseBodyBytes c.limit →
        error = c.failed method e.toErrorObject.message) → bad l error n)
    (hunsent : ∀ l fate outcome error n, c.result method outcome = .error error → K fate → (∀ d, fate ≠ .answered d) →
      P n → bad l error n)
    (hunheard : ∀ l fate outcome error r n, c.result method outcome = .error error → K fate → fate.Unheard →
      ((requestBody method params).toVec, fate) ∈ l → Q r n → bad l error n) :
    world.Hears C P (c.rpcCall method params).run fun l => Setting.OkThen (bad l) good := by
  refine Setting.Hears.bind (hears_post (c := c) hfate hothers hmethod hparams hsmall hhandler hfits) fun l x => .done ?_
  rintro n ⟨fate, hnoted, hkind, hexchange⟩
  have hnoted := List.mem_append_left [] hnoted
  cases hexchange with
  | unsent hlost hsilent hn =>
    obtain ⟨e, he⟩ := c.result_none method _ hsilent
    rw [he]
    exact hunsent _ fate _ e n he hkind hlost hn
  | unheard hlost hsilent r hn =>
    obtain ⟨e, he⟩ := c.result_none method _ hsilent
    rw [he]
    exact hunheard _ fate _ e r n he hkind hlost hnoted hn
  | answered d r hr hseen =>
    rcases result_of_seen method hseen with ⟨value, rfl, hvalue⟩ | ⟨e, e', rfl, he', hshort⟩
    · rw [hvalue]
      exact hgood value n hr
    · rw [he']
      exact hrefused _ e _ e' n he' hr hshort

/-- The same where it does not matter which message was lost. -/
theorem ensures_rpcCall {reliable : Prop} {bad : ε → Node → Prop} {good : Json → Node → Prop}
    (hnet : ∀ t, C t → Reliably reliable t)
    (hothers : ∀ t n, C t → P n → P (world.others n t.before)) (hmethod : rpcModule.lookup method = some handler)
    (hparams : params.Integral) (hsmall : (requestBody method params).toVec.length ≤ maxRequestBodyBytes)
    (hhandler : world.Ensures C P (handler params).run Q) (hfits : ∀ value n, Q (.ok value) n → Fits c.limit value)
    (hgood : ∀ value n, Q (.ok value) n → good value n)
    (hrefused : ∀ e outcome error n, c.result method outcome = .error error → Q (.error e) n →
      ((response (.int 1) (.error e.toErrorObject)).toVec.length ≤ min maxResponseBodyBytes c.limit →
        error = c.failed method e.toErrorObject.message) → bad error n)
    (hlost : ∀ outcome error n, c.result method outcome = .error error → ¬ reliable → (P n ∨ ∃ r, Q r n) → bad error n) :
    world.Ensures C P (c.rpcCall method params).run (Setting.OkThen bad good) := by
  refine hears_rpcCall (K := fun fate => reliable → ∃ d, fate = .answered d) hnet hothers hmethod hparams hsmall hhandler
    hfits hgood (fun _ => hrefused) ?_ ?_
  · exact fun _ _ outcome e n he hkind hnot hn => hlost outcome e n he (not_of_lost hkind hnot) (.inl hn)
  · exact fun _ _ outcome e r n he hkind hunheard _ hn =>
      hlost outcome e n he (not_of_lost hkind hunheard.ne_answered) (.inr ⟨r, hn⟩)

end

end
end Subhost
