import Subhost.Lib.JsonPrint
import Subhost.Network.Message
import Subhost.Faucet.Drip
/-!
# JSON-RPC over HTTP (subhost-rpc/src/lib.rs:34-93, explorer/src/main.rs:273-315, subhost-faucet/src/lib.rs:344-446,
subhost-cli/src/main.rs:676-724)

| here | there |
| --- | --- |
| `Json.toVec`, `Json.fromSlice` | `serde_json::to_vec`, `from_slice` of a `Value` |
| `RpcError.toErrorObject`     | `From<RpcError> for ErrorObject` (lib.rs:73) |
| `response`, `reply`          | the body of an answer, under `max_response_body_size` (lib.rs:628) |
| `requestBody`                | the body the three clients post |
| `readBounded`                | `read_bounded` (faucet lib.rs:428); the loops of the explorer and the command line are the same |
| `outcomeOf`                  | the first part of `rpc_call`, up to the body's value |

A reply is written compactly, travels in chunks, and is put together and read by a client under a limit on its size.
`outcomeOf_delivered`: however it is cut, what the client reads is what the server answered. Members of an object are
written in the order in which they are listed here; serde_json sorts them, and every reader looks them up by name.
-/
namespace Subhost
open Bincode JsonText

/-! ## Values as text -/

namespace Json

mutual

def tree : Json → Tree
  | .null => .null
  | .bool value => .bool value
  | .number literal => .number literal.toList
  | .string text => .string text.toList
  | .array items => .array (treeItems items)
  | .object fields => .object (treeFields fields)

def treeItems : List Json → List Tree
  | [] => []
  | j :: items => j.tree :: treeItems items

def treeFields : List (String × Json) → List (List Char × Tree)
  | [] => []
  | (key, j) :: fields => (key.toList, j.tree) :: treeFields fields

end

mutual

theorem build_tree : ∀ j : Json, j.tree.build jsonBuilder = j
  | .null => rfl
  | .bool _ => rfl
  | .number _ => congrArg Json.number String.ofList_toList
  | .string _ => congrArg Json.string String.ofList_toList
  | .array items => by rw [tree, Tree.build, build_treeItems items]; rfl
  | .object fields => by
    rw [tree, Tree.build]
    exact congrArg Json.object (build_treeFields fields)

theorem build_treeItems : ∀ items : List Json, Tree.buildItems jsonBuilder (treeItems items) = items
  | [] => rfl
  | j :: items => by rw [treeItems, Tree.buildItems, build_tree j, build_treeItems items]

theorem build_treeFields : ∀ fields : List (String × Json),
    (Tree.buildMembers jsonBuilder (treeFields fields)).map (fun m => (String.ofList m.1, m.2)) = fields
  | [] => rfl
  | (key, j) :: fields => by
    rw [treeFields, Tree.buildMembers, List.map_cons, build_tree j, build_treeFields fields, String.ofList_toList]

end

theorem treeItems_eq (items : List Json) : treeItems items = items.map tree := by
  induction items with
  | nil => rfl
  | cons j items ih => rw [treeItems, ih, List.map_cons]

theorem treeFields_eq (fields : List (String × Json)) :
    treeFields fields = fields.map fun f => (f.1.toList, f.2.tree) := by
  induction fields with
  | nil => rfl
  | cons f fields ih => rw [treeFields, ih, List.map_cons]

/-- An integer. -/
def int (i : Int) : Json := .number (String.ofList (integer i))

/-- Every number is an integer. -/
def Integral (j : Json) : Prop := j.tree.Valid

@[simp]
theorem integral_null : Integral .null := Tree.Valid.null

@[simp]
theorem integral_bool (value : Bool) : Integral (.bool value) := Tree.Valid.bool value

@[simp]
theorem integral_string (text : String) : Integral (.string text) := Tree.Valid.string _

@[simp]
theorem integral_int (i : Int) : Integral (int i) := by
  rw [Integral, int, tree, String.toList_ofList]
  exact Tree.Valid.number i

@[simp]
theorem integral_array {items : List Json} : Integral (.array items) ↔ ∀ j ∈ items, j.Integral := by
  rw [Integral, tree, treeItems_eq]
  constructor
  · intro h
    cases h with
    | array h => exact fun j hj => h _ (List.mem_map_of_mem hj)
  · intro h
    refine .array fun t ht => ?_
    obtain ⟨j, hj, rfl⟩ := List.mem_map.mp ht
    exact h j hj

@[simp]
theorem integral_object {fields : List (String × Json)} : Integral (.object fields) ↔ ∀ f ∈ fields, f.2.Integral := by
  rw [Integral, tree, treeFields_eq]
  constructor
  · intro h
    cases h with
    | object h => exact fun f hf => h _ (List.mem_map_of_mem hf)
  · intro h
    refine .object fun m hm => ?_
    obtain ⟨f, hf, rfl⟩ := List.mem_map.mp hm
    exact h f hf

/-- `serde_json::to_string` or `to_string_pretty`, as characters. -/
def write (layout : Layout) (j : Json) : List Char := j.tree.write layout 0

/-- `serde_json::to_vec`. -/
def toVec (j : Json) : Bytes := utf8 (j.write .compact)

/-- `serde_json::from_slice`. -/
def fromSlice (data : Bytes) : Option Json :=
  match data.toByteArray.utf8Decode? with
  | none => none
  | some chars => parse (strictText hexValue) jsonBuilder chars.toList

theorem readsHex_hexValue : ReadsHex hexValue := hexValue_hexDigit

/-- **What is written is read**, whatever the layout. -/
theorem fromSlice_write {j : Json} (h : j.Integral) (layout : Layout) : fromSlice (utf8 (j.write layout)) = some j := by
  have hdecode : (utf8 (j.write layout)).toByteArray.utf8Decode? = some (j.write layout).toArray :=
    List.utf8Decode?_utf8Encode
  rw [fromSlice, hdecode]
  dsimp only
  rw [write, h.parse_write (readsQuoted_strictText readsHex_hexValue) layout, build_tree]

end Json

/-! ## The server's side -/

/-- `ErrorObject` of jsonrpsee. -/
structure ErrorObject where
  code : Int
  message : String
  data : Option String
deriving DecidableEq

/-- `From<RpcError> for ErrorObject` (lib.rs:73): what went wrong inside the node is not told. -/
def RpcError.toErrorObject (error : RpcError) : ErrorObject :=
  match error with
  | .invalidAddress | .invalidTxHash | .invalidParams | .invalidChainId | .invalidSignature =>
    ⟨-32602, error.display, none⟩
  | .unsupportedTransactionType _ | .transactionRejected _ => ⟨-32000, error.display, none⟩
  | .persistence _ => ⟨-32603, "state persistence failed", none⟩
  | .internal => ⟨-32603, "internal error", none⟩

def ErrorObject.json (e : ErrorObject) : Json :=
  .object ([("code", .int e.code), ("message", .string e.message)] ++ (e.data.map fun d => ("data", .string d)).toList)

/-- `MAX_REQUEST_BODY_BYTES` (lib.rs:35). -/
def maxRequestBodyBytes : Nat := 256 * 1024

/-- `MAX_RESPONSE_BODY_BYTES` (lib.rs:37). -/
def maxResponseBodyBytes : Nat := 1024 * 1024

/-- The member that tells success from failure. -/
def payload : Except ErrorObject Json → String × Json
  | .ok value => ("result", value)
  | .error e => ("error", e.json)

/-- The answer to the request with this id. -/
def response (id : Json) (result : Except ErrorObject Json) : Json :=
  .object [("jsonrpc", .string "2.0"), ("id", id), payload result]

/-- The body of the answer. One that is too big is replaced by this error. -/
def reply (oversized : ErrorObject) (id : Json) (result : Except ErrorObject Json) : Bytes :=
  let body := (response id result).toVec
  if maxResponseBodyBytes < body.length then (response id (.error oversized)).toVec else body

/-- What can stand for the id of a request. -/
inductive RequestId : Json → Prop where
  | null : RequestId .null
  | number (n : Nat) : RequestId (.int n)
  | string (text : String) : RequestId (.string text)

/-! ## The clients' side -/

/-- What the clients post. -/
def requestBody (method : String) (params : Json) : Json :=
  .object [("jsonrpc", .string "2.0"), ("method", .string method), ("params", params), ("id", .int 1)]

/-- A response: the stream of its chunks ends, or breaks with an error. -/
structure HttpResponse where
  status : Nat
  statusText : String
  contentLength : Option Nat
  chunks : List Bytes
  broken : Option String

inductive ReadError where
  | tooLarge
  | failed (error : String)

/-- The loop over the chunks. -/
def readChunks (limit : Nat) (broken : Option String) : Bytes → List Bytes → Except ReadError Bytes
  | body, [] => broken.elim (.ok body) fun error => .error (.failed error)
  | body, chunk :: chunks =>
    if limit < body.length + chunk.length then .error .tooLarge
    else readChunks limit broken (body ++ chunk) chunks

/-- `read_bounded` (faucet lib.rs:428). -/
def readBounded (limit : Nat) (response : HttpResponse) : Except ReadError Bytes :=
  if response.contentLength.any (fun length => limit < length) then .error .tooLarge
  else readChunks limit response.broken [] response.chunks

theorem readChunks_ok_iff {limit : Nat} {broken : Option String} {chunks : List Bytes} {body whole : Bytes}
    (hbody : body.length ≤ limit) :
    readChunks limit broken body chunks = .ok whole ↔
      broken = none ∧ whole = body ++ chunks.flatten ∧ whole.length ≤ limit := by
  induction chunks generalizing body with
  | nil =>
    cases broken with
    | none =>
      simp only [readChunks, Option.elim_none, Except.ok.injEq, List.flatten_nil, List.append_nil, true_and]
      exact ⟨fun h => ⟨h.symm, h ▸ hbody⟩, fun h => h.1.symm⟩
    | some error => simp [readChunks]
  | cons chunk chunks ih =>
    rw [readChunks]
    split
    · rename_i hlarge
      refine iff_of_false nofun ?_
      rintro ⟨-, rfl, hle⟩
      simp only [List.flatten_cons, List.length_append] at hle
      omega
    · rename_i hfits
      rw [ih (by rw [List.length_append]; omega), List.flatten_cons, List.append_assoc]

/-- **What is read**: the whole body, if it came without a break and is within the limit, and so is the length that
was announced. -/
theorem readBounded_ok_iff {limit : Nat} {r : HttpResponse} {whole : Bytes} :
    readBounded limit r = .ok whole ↔
      (∀ length, r.contentLength = some length → length ≤ limit) ∧ r.broken = none ∧ whole = r.chunks.flatten ∧
        whole.length ≤ limit := by
  unfold readBounded
  split
  · rename_i hany
    obtain ⟨length, hlength, hlarge⟩ := (Option.any_eq_true ..).mp hany
    refine iff_of_false nofun fun h => ?_
    have := h.1 length hlength
    simp at hlarge
    omega
  · rename_i hany
    have hannounced : ∀ length, r.contentLength = some length → length ≤ limit := by
      intro length hlength
      by_contra hlarge
      exact hany ((Option.any_eq_true ..).mpr ⟨length, hlength, by simp; omega⟩)
    rw [readChunks_ok_iff (Nat.zero_le _), List.nil_append]
    exact (and_iff_right hannounced).symm

/-- The first part of `rpc_call`: from the transport to the value of the body. Of which statuses the body is read
depends on the client; how serde_json words its complaint about a body is left open. -/
def outcomeOf (accepts : Nat → Bool) (serdeError : Bytes → String) (limit : Nat) :
    Except String HttpResponse → Faucet.RpcOutcome
  | .error error => .requestFailed error
  | .ok response =>
    if accepts response.status = false then .httpStatus response.statusText
    else
      match readBounded limit response with
      | .error .tooLarge => .tooLarge
      | .error (.failed error) => .readFailed error
      | .ok body =>
        match Json.fromSlice body with
        | none => .invalidJson (serdeError body)
        | some value => .body value

/-- A number of `w` bits in a reply: `quantity` and `amount` of the explorer (main.rs:508, :516) and of the command
line (main.rs:646, :654). A JSON number has 64 bits. -/
def numberIn (w : Nat) : Json → Option (BitVec w)
  | .string text => (strip0x text).bind fun digits => fromAsciiRadix w (utf8 digits)
  | .number literal => (literalAsU64 literal).map (BitVec.setWidth w)
  | _ => none

/-- Printed quantities are read. -/
theorem numberIn_hexText {w : Nat} (hw : 16 < 2 ^ w) (n : BitVec w) : numberIn w (.string (hexText n.toNat)) = some n := by
  have hstrip : strip0x (hexText n.toNat) = some (Nat.toDigits 16 n.toNat) := strip0x_eq_some_iff.mpr rfl
  have hfits : positional (Nat.toDigits 16 n.toNat) < 2 ^ w := by
    rw [positional_toDigits]
    exact n.isLt
  rw [numberIn, hstrip, Option.bind_some, fromAsciiRadix_eq_some_iff hw]
  refine ⟨_, .inl rfl, (canonical_toDigits _).ne_nil, (canonical_toDigits _).isHexDigit, hfits, ?_⟩
  rw [positional_toDigits, BitVec.ofNat_toNat, BitVec.setWidth_eq]

/-! ## On the way -/

/-- How a body is cut into chunks, and whether its length is announced. -/
structure Delivery where
  split : Bytes → List Bytes
  joins : ∀ body, (split body).flatten = body
  announced : Bool

/-- The response that carries a body. -/
def Delivery.response (d : Delivery) (body : Bytes) : HttpResponse :=
  ⟨200, "200 OK", if d.announced then some body.length else none, d.split body, none⟩

/-- All at once. -/
def inOnePiece : Delivery := ⟨fun body => [body], by simp, true⟩

theorem integral_response {id : Json} (hid : id.Integral) {result : Except ErrorObject Json}
    (h : ∀ value, result = .ok value → value.Integral) : (response id result).Integral := by
  rw [response, Json.integral_object]
  cases result with
  | ok value => simp [payload, hid, h value rfl]
  | error e => cases hdata : e.data <;> simp [payload, hid, ErrorObject.json, hdata]

/-- The body is put together again, or found too large. -/
theorem readBounded_response (d : Delivery) (body : Bytes) (limit : Nat) :
    readBounded limit (d.response body) = if body.length ≤ limit then .ok body else .error .tooLarge := by
  split
  · rename_i hfits
    refine readBounded_ok_iff.mpr ⟨?_, rfl, (d.joins body).symm, hfits⟩
    intro length hlength
    cases hannounced : d.announced <;> simp [Delivery.response, hannounced] at hlength
    omega
  · rename_i hlarge
    -- the stream does not break, so the only other way to fail is the limit
    have hchunks : ∀ chunks acc, readChunks limit none acc chunks = .ok (acc ++ chunks.flatten) ∨
        readChunks limit none acc chunks = .error .tooLarge := by
      intro chunks
      induction chunks with
      | nil => exact fun acc => .inl (by simp [readChunks])
      | cons chunk chunks ih =>
        intro acc
        rw [readChunks]
        split
        · exact .inr rfl
        · simpa using ih (acc ++ chunk)
    unfold readBounded
    split
    · rfl
    · rcases hchunks (d.split body) [] with hok | htoo
      · have hread := (readChunks_ok_iff (Nat.zero_le _)).mp hok
        rw [List.nil_append, d.joins] at hread
        exact absurd hread.2.2 hlarge
      · exact htoo

/-- **However a body is cut**, the client reads the value that was written, or finds it too large. -/
theorem outcomeOf_delivered {accepts : Nat → Bool} (haccepts : accepts 200 = true) (serdeError : Bytes → String)
    (d : Delivery) {j : Json} (h : j.Integral) (limit : Nat) :
    outcomeOf accepts serdeError limit (.ok (d.response j.toVec)) =
      if j.toVec.length ≤ limit then .body j else .tooLarge := by
  rw [outcomeOf, if_neg (by simp [Delivery.response, haccepts]), readBounded_response]
  by_cases hfits : j.toVec.length ≤ limit
  · rw [if_pos hfits, if_pos hfits]
    dsimp only
    rw [Json.toVec, Json.fromSlice_write h]
  · rw [if_neg hfits, if_neg hfits]

end Subhost
