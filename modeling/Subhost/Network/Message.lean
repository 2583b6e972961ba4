import Subhost.Lib.JsonText
import Subhost.Rpc.Identifiers
/-!
# Gossip messages (subhost-network/src/lib.rs:28-29, :87-127, :265-282)

| here | there |
| --- | --- |
| `NetworkMessage`, `NetworkMessage.validate` | the same (lib.rs:88, :104) |
| `NetworkMessage.toVec`      | `serde_json::to_vec` of a message, by the derived `Serialize` |
| `NetworkMessage.fromSlice`  | `serde_json::from_slice`, by the derived `Deserialize` |
| `publish`                   | `NetworkManager::publish` (lib.rs:265), up to the call of gossipsub |
| `GossipsubSpec`             | **libp2p boundary**: `gossipsub::Behaviour::publish` under `max_transmit_size` (lib.rs:161) |
| `gossipsubRef`              | a gossipsub that shows that `GossipsubSpec` can be met |

A message goes out as JSON: an object with one member, the variant, whose value is the object of the fields, and byte
vectors are arrays of decimal numbers. The limit of `validate` is on the payload, the one of gossipsub is on the JSON
and the frame it is sent in, and in the JSON a byte takes between two and four characters.
-/
namespace Subhost
open Bincode JsonText

/-- `MAX_TRANSMIT_BYTES` (lib.rs:29). -/
def maxTransmitBytes : Nat := 256 * 1024

/-- `NetworkError` (lib.rs:335). -/
inductive NetworkError where
  | config (message : String)
  | libp2p (message : String)
  | invalidMessage (message : String)
deriving DecidableEq, Repr

/-- `NetworkMessage` (lib.rs:88). -/
inductive NetworkMessage where
  | transactionStem (data : Bytes) (ttl : UInt8)
  | transactionFluff (txHash : Vector UInt8 32) (data : Bytes)
  | dagVertex (data : Bytes)
  | blockProposal (data : Bytes)
  | vote (blockHash : Vector UInt8 32) (signature : Bytes)
deriving DecidableEq

namespace NetworkMessage

/-- `NetworkMessage::validate` (lib.rs:104). -/
def validate (message : NetworkMessage) : Except NetworkError Unit := do
  let payloadLen ← match message with
    | .transactionStem data ttl =>
      if ttl = 0 then .error (.invalidMessage "stem TTL is exhausted") else .ok data.length
    | .transactionFluff _ data => .ok data.length
    | .dagVertex data => .ok data.length
    | .blockProposal data => .ok data.length
    | .vote _ signature => .ok signature.length
  if payloadLen = 0 then .error (.invalidMessage "empty payload")
  else if payloadLen > maxTransmitBytes then
    .error (.invalidMessage s!"payload of {payloadLen} bytes exceeds the {maxTransmitBytes} byte limit")
  else .ok ()

end NetworkMessage

/-! ## The encoding -/

/-- What the fields of a message are. -/
inductive WireField where
  | bytes (data : Bytes)
  | byte (value : UInt8)

def WireField.text : WireField → List Char
  | .bytes data => arrayText (data.map fun b => Nat.toDigits 10 b.toNat)
  | .byte value => Nat.toDigits 10 value.toNat

namespace NetworkMessage

/-- The name of the variant, as serde writes it. -/
def variant : NetworkMessage → String
  | .transactionStem .. => "TransactionStem"
  | .transactionFluff .. => "TransactionFluff"
  | .dagVertex .. => "DagVertex"
  | .blockProposal .. => "BlockProposal"
  | .vote .. => "Vote"

/-- The fields in the order of their declaration. -/
def fields : NetworkMessage → List (String × WireField)
  | .transactionStem data ttl => [("data", .bytes data), ("ttl", .byte ttl)]
  | .transactionFluff txHash data => [("tx_hash", .bytes txHash.toList), ("data", .bytes data)]
  | .dagVertex data => [("data", .bytes data)]
  | .blockProposal data => [("data", .bytes data)]
  | .vote blockHash signature => [("block_hash", .bytes blockHash.toList), ("signature", .bytes signature)]

/-- The JSON of a message, externally tagged and without whitespace. -/
def text (message : NetworkMessage) : List Char :=
  objectText [(message.variant.toList, objectText (message.fields.map fun f => (f.1.toList, f.2.text)))]

/-- `serde_json::to_vec(&message)`. -/
def toVec (message : NetworkMessage) : Bytes := utf8 message.text

end NetworkMessage

/-! ## The decoder -/

def jsonBuilder : Builder Json where
  null := .null
  bool := .bool
  number literal := .number (String.ofList literal)
  string text := .string (String.ofList text)
  array := .array
  object members := .object (members.map fun m => (String.ofList m.1, m.2))
  unread := .null

/-- A `u8`: a literal with a sign, a fraction or an exponent is refused. -/
def deserializeU8 : Json → Option UInt8
  | .number literal =>
    if literal.toList.all Char.isDigit ∧ Radix.decimal literal.toList < 256 then
      some (UInt8.ofNat (Radix.decimal literal.toList))
    else none
  | _ => none

/-- A `Vec<u8>`. -/
def deserializeBytes : Json → Option Bytes
  | .array items => items.mapM deserializeU8
  | _ => none

/-- A `[u8; 32]`. -/
def deserializeHash (json : Json) : Option (Vector UInt8 32) := (deserializeBytes json).bind (toArray? 32)

/-- Bytes as the characters with these numbers. All marks of JSON are ASCII. -/
def byteChars (data : Bytes) : List Char := data.map fun b => Char.ofNat b.toNat

/-- The text of a string of bytes, which are to be UTF-8. An escape stands for the bytes of its character. -/
def utf8Text (ps : List Piece) : Option (List Char) :=
  (assemble (fun c => [UInt8.ofNat c.toNat]) (fun c => utf8 [c]) ps).bind fun bytes =>
    bytes.toByteArray.utf8Decode?.map Array.toList

/-- The fields of a struct by their names: from an object, where each stands once, in any order and among unknown ones,
or from an array that lists them. -/
def structFields (names : List String) : Json → Option (List Json)
  | .object members => names.mapM fun name =>
    match members.filter fun m => m.1 = name with
    | [(_, value)] => some value
    | _ => none
  | .array items => if items.length = names.length then some items else none
  | _ => none

namespace NetworkMessage

/-- The derived `Deserialize`: an object with one member, named as the variant. -/
def fromJson : Json → Option NetworkMessage
  | .object [(tag, body)] =>
    if tag = "TransactionStem" then
      match structFields ["data", "ttl"] body with
      | some [data, ttl] => return .transactionStem (← deserializeBytes data) (← deserializeU8 ttl)
      | _ => none
    else if tag = "TransactionFluff" then
      match structFields ["tx_hash", "data"] body with
      | some [txHash, data] => return .transactionFluff (← deserializeHash txHash) (← deserializeBytes data)
      | _ => none
    else if tag = "DagVertex" then
      match structFields ["data"] body with
      | some [data] => return .dagVertex (← deserializeBytes data)
      | _ => none
    else if tag = "BlockProposal" then
      match structFields ["data"] body with
      | some [data] => return .blockProposal (← deserializeBytes data)
      | _ => none
    else if tag = "Vote" then
      match structFields ["block_hash", "signature"] body with
      | some [blockHash, signature] => return .vote (← deserializeHash blockHash) (← deserializeBytes signature)
      | _ => none
    else none
  | _ => none

/-- `serde_json::from_slice`. Unknown members are passed over at any depth and whatever bytes their strings are made
of; other keys have to be texts. No field is a string or null, so that `null` stands for what is not one. -/
def fromSlice (data : Bytes) : Option NetworkMessage :=
  (parse (looseText hexValue utf8Text) jsonBuilder (byteChars data)).bind fromJson

end NetworkMessage

/-! ## Publishing -/

/-- `NetworkManager::publish` (lib.rs:265): what it hands to gossipsub. An invalid message is refused with a warning,
and an error that gossipsub returns is noted at the debug level. -/
def publish (message : NetworkMessage) : Except NetworkError Bytes := do
  message.validate
  return message.toVec

/-- What is relied on of a gossipsub that is built with `max_transmit_size(MAX_TRANSMIT_BYTES)` and has peers to send to,
where `accepts data` says that its `publish` returns `Ok`. It adds up to `overhead` bytes to the data: the author, the
sequence number, the topic, the signature. -/
structure GossipsubSpec (accepts : Bytes → Prop) (overhead : Nat) : Prop where
  refuses : ∀ data, maxTransmitBytes < data.length → ¬ accepts data
  sends : ∀ data, data.length + overhead ≤ maxTransmitBytes → accepts data

/-- The one whose frames are all of one size. -/
def gossipsubRef (overhead : Nat) (data : Bytes) : Prop := data.length + overhead ≤ maxTransmitBytes

theorem gossipsubRef_spec (overhead : Nat) : GossipsubSpec (gossipsubRef overhead) overhead where
  refuses data hlarge haccepted := by
    unfold gossipsubRef at haccepted
    omega
  sends _ hroom := hroom

/-- A message that the application hands over goes out. -/
def Sent (accepts : Bytes → Prop) (message : NetworkMessage) : Prop :=
  ∃ data, publish message = .ok data ∧ accepts data

/-! ## What is accepted -/

namespace NetworkMessage

/-- The bytes a message carries for others to read. -/
def payload : NetworkMessage → Bytes
  | .transactionStem data _ => data
  | .transactionFluff _ data => data
  | .dagVertex data => data
  | .blockProposal data => data
  | .vote _ signature => signature

/-- What `validate` checks: a stem has hops left, and there is a payload within the limit. -/
theorem validate_ok_iff {message : NetworkMessage} :
    message.validate = .ok () ↔
      (∀ data, message ≠ .transactionStem data 0) ∧ message.payload ≠ [] ∧ message.payload.length ≤ maxTransmitBytes := by
  have hcheck : ∀ data : Bytes, (if data.length = 0 then .error (.invalidMessage "empty payload")
      else if data.length > maxTransmitBytes then
        .error (.invalidMessage s!"payload of {data.length} bytes exceeds the {maxTransmitBytes} byte limit")
      else .ok () : Except NetworkError Unit) = .ok () ↔ data ≠ [] ∧ data.length ≤ maxTransmitBytes := by
    intro data
    rw [ne_eq, ← List.length_eq_zero_iff]
    split
    · simp [*]
    · split <;> simp [*]
      omega
  cases message with
  | transactionStem data ttl =>
    by_cases httl : ttl = 0
    · simp [validate, httl, bind, Except.bind]
    · rw [validate, if_neg httl]
      exact (hcheck data).trans (by simp [payload, httl])
  | transactionFluff txHash data => exact (hcheck data).trans (by simp [payload])
  | dagVertex data => exact (hcheck data).trans (by simp [payload])
  | blockProposal data => exact (hcheck data).trans (by simp [payload])
  | vote blockHash signature => exact (hcheck signature).trans (by simp [payload])

end NetworkMessage

/-! ## Decoding inverts encoding -/

theorem byteChars_utf8 {text : List Char} (h : ∀ c ∈ text, c.toNat < 128) : byteChars (utf8 text) = text := by
  have hchar : ∀ c ∈ text, Char.ofNat (UInt8.ofNat c.toNat).toNat = c := by
    intro c hc
    have hlt : c.toNat < UInt8.size := (h c hc).trans (by decide)
    rw [UInt8.toNat_ofNat_of_lt' hlt, Char.ofNat_toNat]
  rw [utf8_eq_map h, byteChars, List.map_map]
  exact (List.map_congr_left hchar).trans (List.map_id text)

theorem readsPlain_utf8Text : ReadsPlain (looseText hexValue utf8Text) := by
  intro key hkey rest
  have hbytes : assemble (fun c => [UInt8.ofNat c.toNat]) (fun c => utf8 [c]) (key.map .char) = some (utf8 key) := by
    rw [utf8_eq_map fun c hc => (hkey c hc).2.2.2]
    clear hkey
    induction key with
    | nil => rfl
    | cons c key ih =>
      rw [List.map_cons, assemble, ih]
      rfl
  have hdecode : (utf8 key).toByteArray.utf8Decode? = some key.toArray := List.utf8Decode?_utf8Encode
  rw [looseText, pieces_plain hexValue hkey, Option.map_some, utf8Text, hbytes, Option.bind_some, hdecode]
  rfl

def WireField.json : WireField → Json
  | .bytes data => .array (data.map fun b => .number (String.ofList (Nat.toDigits 10 b.toNat)))
  | .byte value => .number (String.ofList (Nat.toDigits 10 value.toNat))

theorem WireField.compact (field : WireField) (depth : Nat) :
    Compact jsonBuilder (depth + 2) field.text field.json := by
  cases field with
  | byte value => exact .number value.toNat
  | bytes data =>
    let entries := data.map fun b =>
      (Nat.toDigits 10 b.toNat, Json.number (String.ofList (Nat.toDigits 10 b.toNat)))
    have harray : Compact jsonBuilder (depth + 2) (arrayText (entries.map Prod.fst))
        (.array (entries.map Prod.snd)) := by
      refine .array entries ?_
      intro e he
      obtain ⟨b, -, rfl⟩ := List.mem_map.mp he
      exact .number b.toNat
    simpa only [entries, List.map_map, Function.comp_def, text, json] using harray

theorem compact_object {depth : Nat} (members : List (String × List Char × Json))
    (hkeys : ∀ m ∈ members, Plain m.1.toList) (h : ∀ m ∈ members, Compact jsonBuilder depth m.2.1 m.2.2) :
    Compact jsonBuilder (depth + 1) (objectText (members.map fun m => (m.1.toList, m.2.1)))
      (.object (members.map fun m => (m.1, m.2.2))) := by
  have hobject := @Compact.object _ jsonBuilder depth (members.map fun m => (m.1.toList, m.2.1, m.2.2))
    (List.forall_mem_map.mpr hkeys) (List.forall_mem_map.mpr h)
  simpa [jsonBuilder, Function.comp_def] using hobject

theorem WireField.ascii (field : WireField) : ∀ c ∈ field.text, c.toNat < 128 := by
  have hdigits : ∀ b : UInt8, ∀ c ∈ Nat.toDigits 10 b.toNat, c.toNat < 128 := by
    intro b c hc
    obtain ⟨-, hall⟩ := Radix.numeral_toDigits (by decide) Radix.decimalValue_digitChar b.toNat
    obtain ⟨d, hd⟩ := Option.isSome_iff_exists.mp (hall c hc)
    exact (Radix.decimalValue_bounds hd).1
  cases field with
  | byte value => exact hdigits value
  | bytes data => exact forall_mem_arrayText (by simp) (List.forall_mem_map.mpr fun b _ => hdigits b)

theorem deserializeU8_toDigits (value : UInt8) :
    deserializeU8 (.number (String.ofList (Nat.toDigits 10 value.toNat))) = some value := by
  have hdigits : (Nat.toDigits 10 value.toNat).all Char.isDigit = true :=
    List.all_eq_true.mpr fun c hc => Nat.isDigit_of_mem_toDigits (by decide) (by decide) hc
  rw [deserializeU8, String.toList_ofList, Radix.decimal_toDigits, if_pos ⟨hdigits, value.toNat_lt⟩, UInt8.ofNat_toNat]

theorem deserializeBytes_json (data : Bytes) : deserializeBytes (WireField.bytes data).json = some data := by
  rw [WireField.json, deserializeBytes]
  induction data with
  | nil => rfl
  | cons b data ih =>
    rw [List.map_cons, List.mapM_cons, deserializeU8_toDigits, ih]
    rfl

theorem deserializeHash_json (hash : Vector UInt8 32) :
    deserializeHash (WireField.bytes hash.toList).json = some hash := by
  rw [deserializeHash, deserializeBytes_json, Option.bind_some, toArray?_eq_some_iff]

namespace NetworkMessage

def json (message : NetworkMessage) : Json :=
  .object [(message.variant, .object (message.fields.map fun f => (f.1, f.2.json)))]

theorem plain_variant (message : NetworkMessage) : Plain message.variant.toList := by
  cases message <;> simp [variant, Plain]

theorem plain_fields (message : NetworkMessage) : ∀ f ∈ message.fields, Plain f.1.toList := by
  cases message <;> simp [fields, Plain]

/-- The text of a message is a compact text of its JSON value. -/
theorem compact (message : NetworkMessage) (depth : Nat) :
    Compact jsonBuilder (depth + 4) message.text message.json := by
  have hbody : Compact jsonBuilder (depth + 3) (objectText (message.fields.map fun f => (f.1.toList, f.2.text)))
      (.object (message.fields.map fun f => (f.1, f.2.json))) := by
    have hobject := @compact_object (depth + 2) (message.fields.map fun f => (f.1, f.2.text, f.2.json)) ?_ ?_
    · simpa only [List.map_map, Function.comp_def] using hobject
    · intro m hm
      obtain ⟨f, hf, rfl⟩ := List.mem_map.mp hm
      exact message.plain_fields f hf
    · intro m hm
      obtain ⟨f, -, rfl⟩ := List.mem_map.mp hm
      exact f.2.compact depth
  exact compact_object [(message.variant, _, _)]
    (fun m hm => by rw [List.mem_singleton.mp hm]; exact message.plain_variant)
    (fun m hm => by rw [List.mem_singleton.mp hm]; exact hbody)

theorem fromJson_json (message : NetworkMessage) : fromJson message.json = some message := by
  have hbyte : ∀ value, deserializeU8 (WireField.byte value).json = some value := deserializeU8_toDigits
  cases message <;>
    simp [json, fields, variant, fromJson, structFields, deserializeBytes_json, deserializeHash_json, hbyte]

theorem ascii (message : NetworkMessage) : ∀ c ∈ message.text, c.toNat < 128 := by
  have hvariant : ∀ c ∈ message.variant.toList, c.toNat < 128 := by
    cases message <;> simp [variant]
  have hkeys : ∀ f ∈ message.fields, ∀ c ∈ f.1.toList, c.toNat < 128 := by
    cases message <;> simp [fields]
  have hbody : ∀ c ∈ objectText (message.fields.map fun f => (f.1.toList, f.2.text)), c.toNat < 128 := by
    refine forall_mem_objectText (by simp) (List.forall_mem_map.mpr hkeys) (List.forall_mem_map.mpr ?_)
    exact fun f _ => f.2.ascii
  refine forall_mem_objectText (by simp) ?_ ?_
  · exact List.forall_mem_singleton.mpr hvariant
  · exact List.forall_mem_singleton.mpr hbody

/-- **Decoding inverts encoding.** -/
theorem fromSlice_toVec (message : NetworkMessage) : fromSlice message.toVec = some message := by
  have hlength : 3 ≤ message.text.length := by
    rw [text, length_objectText, List.map_singleton, List.sum_singleton]
    omega
  obtain ⟨depth, hdepth⟩ : ∃ depth, message.text.length + 1 = depth + 4 := ⟨message.text.length - 3, by omega⟩
  have hparse : parse (looseText hexValue utf8Text) jsonBuilder message.text = some message.json := by
    refine parse_of_compact readsPlain_utf8Text ?_
    rw [hdepth]
    exact message.compact depth
  rw [fromSlice, toVec, byteChars_utf8 message.ascii, hparse, Option.bind_some, fromJson_json]

-- half a pair of surrogates and a byte that is not UTF-8, in a member that nothing reads
example : fromSlice (utf8 "\x7b\"DagVertex\":\x7b\"data\":[7],\"note\":\"\\ud800".toList ++ 255 :: utf8 "\"\x7d\x7d".toList) =
    some (.dagVertex [7]) := by decide +kernel

end NetworkMessage

/-! ## The size of the encoding -/

/-- How many digits a byte has. -/
def digitsOf (b : UInt8) : Nat := if b < 10 then 1 else if b < 100 then 2 else 3

/-- The size of a list of bytes, if there are any: two characters for each, one more for each from 10 on and from 100
on, and one more. -/
def listed (data : Bytes) : Nat := 2 * data.length + data.countP (10 ≤ ·) + data.countP (100 ≤ ·) + 1

/-- The size of a message on the wire. -/
def NetworkMessage.wireLength : NetworkMessage → Nat
  | .transactionStem data ttl => 36 + listed data + digitsOf ttl
  | .transactionFluff txHash data => 41 + listed txHash.toList + listed data
  | .dagVertex data => 23 + listed data
  | .blockProposal data => 27 + listed data
  | .vote blockHash signature => 37 + listed blockHash.toList + listed signature

theorem length_toDigits_byte (b : UInt8) : (Nat.toDigits 10 b.toNat).length = digitsOf b := by
  have hall : ∀ n < 256, (Nat.toDigits 10 n).length = digitsOf (UInt8.ofNat n) := by decide +kernel
  have hb := hall b.toNat b.toNat_lt
  rwa [UInt8.ofNat_toNat] at hb

theorem digitsOf_eq (b : UInt8) :
    digitsOf b = 1 + (if 10 ≤ b then 1 else 0) + (if 100 ≤ b then 1 else 0) := by
  unfold digitsOf
  simp only [UInt8.le_iff_toNat_le, UInt8.lt_iff_toNat_lt, UInt8.reduceToNat]
  split_ifs <;> omega

theorem sum_digitsOf (data : Bytes) :
    (data.map fun b => digitsOf b).sum = data.length + data.countP (10 ≤ ·) + data.countP (100 ≤ ·) := by
  induction data with
  | nil => rfl
  | cons b data ih =>
    simp only [List.map_cons, List.sum_cons, List.length_cons, List.countP_cons, decide_eq_true_eq, digitsOf_eq b, ih]
    omega

theorem WireField.length_text_bytes {data : Bytes} (h : data ≠ []) : (WireField.bytes data).text.length = listed data := by
  have hpos := List.length_pos_iff.mpr h
  have hsum := sum_digitsOf data
  rw [text, length_arrayText, listed, List.map_map, List.length_map]
  simp only [Function.comp_def, length_toDigits_byte]
  omega

theorem WireField.length_text_byte (value : UInt8) : (WireField.byte value).text.length = digitsOf value :=
  length_toDigits_byte value

namespace NetworkMessage

theorem length_text {message : NetworkMessage} (h : message.payload ≠ []) :
    message.text.length = message.wireLength := by
  have hhash : ∀ hash : Vector UInt8 32, hash.toList ≠ [] := by
    intro hash hnil
    have := congrArg List.length hnil
    simp at this
  have hsize : ∀ hash : Vector UInt8 32, (WireField.bytes hash.toList).text.length = listed hash.toList :=
    fun hash => WireField.length_text_bytes (hhash hash)
  have hpayload := WireField.length_text_bytes h
  rw [text]
  cases message <;>
    simp [length_objectText, fields, variant, payload, wireLength, hsize, WireField.length_text_byte] at hpayload ⊢ <;>
    omega

theorem length_toVec {message : NetworkMessage} (h : message.payload ≠ []) :
    message.toVec.length = message.wireLength := by
  rw [toVec, utf8_eq_map message.ascii, List.length_map, length_text h]

theorem digitsOf_bounds (b : UInt8) : 1 ≤ digitsOf b ∧ digitsOf b ≤ 3 := by
  unfold digitsOf
  split
  · decide
  · split <;> decide

theorem listed_bounds (data : Bytes) : 2 * data.length + 1 ≤ listed data ∧ listed data ≤ 4 * data.length + 1 := by
  have hten : data.countP (10 ≤ ·) ≤ data.length := List.countP_le_length
  have hhundred : data.countP (100 ≤ ·) ≤ data.length := List.countP_le_length
  unfold listed
  omega

/-- Payloads of up to 65493 bytes fit whatever they are, and those of more than 131060 never do. -/
theorem wireLength_bounds (message : NetworkMessage) :
    2 * message.payload.length + 24 ≤ message.wireLength ∧ message.wireLength ≤ 4 * message.payload.length + 171 := by
  have hpayload := listed_bounds message.payload
  have hhash : ∀ hash : Vector UInt8 32, 65 ≤ listed hash.toList ∧ listed hash.toList ≤ 129 := by
    intro hash
    have := listed_bounds hash.toList
    rwa [Vector.length_toList] at this
  cases message with
  | transactionStem data ttl =>
    have httl := digitsOf_bounds ttl
    simp only [payload, wireLength] at hpayload ⊢
    omega
  | transactionFluff txHash data =>
    have := hhash txHash
    simp only [payload, wireLength] at hpayload ⊢
    omega
  | dagVertex data =>
    simp only [payload, wireLength] at hpayload ⊢
    omega
  | blockProposal data =>
    simp only [payload, wireLength] at hpayload ⊢
    omega
  | vote blockHash signature =>
    have := hhash blockHash
    simp only [payload, wireLength] at hpayload ⊢
    omega

theorem sent_iff {accepts : Bytes → Prop} {message : NetworkMessage} (hvalid : message.validate = .ok ()) :
    Sent accepts message ↔ accepts message.toVec := by
  have hpublish : publish message = .ok message.toVec := by
    rw [publish, hvalid]
    rfl
  simp [Sent, hpublish]

/-- **A valid message fits on the wire if and only if the bytes it carries are few and small enough.** It always decodes
to itself. With a gossipsub that keeps to the limit, it goes out if there is also room for the frame, and what
`validate` accepts and does not fit is dropped. -/
theorem published_iff {message : NetworkMessage} (hvalid : message.validate = .ok ()) {accepts : Bytes → Prop}
    {overhead : Nat} (hspec : GossipsubSpec accepts overhead) :
    (message.toVec.length ≤ maxTransmitBytes ∧ fromSlice message.toVec = some message ↔
      message.wireLength ≤ maxTransmitBytes) ∧
    (message.wireLength + overhead ≤ maxTransmitBytes → Sent accepts message) ∧
    (maxTransmitBytes < message.wireLength → ¬ Sent accepts message) := by
  rw [← length_toVec (validate_ok_iff.mp hvalid).2.1, sent_iff hvalid]
  exact ⟨and_iff_left message.fromSlice_toVec, hspec.sends message.toVec, hspec.refuses message.toVec⟩

theorem published_iff_stem :
    let message := transactionStem [0, 99, 255] 3
    message.validate = .ok () ∧ message.wireLength = 47 ∧
      message.toVec.length ≤ maxTransmitBytes ∧ fromSlice message.toVec = some message ∧
      Sent (gossipsubRef 120) message := by
  have hvalid : (transactionStem [0, 99, 255] 3).validate = .ok () := rfl
  have hfits := published_iff hvalid (gossipsubRef_spec 120)
  obtain ⟨hlength, hdecode⟩ := hfits.1.mpr (by decide)
  exact ⟨hvalid, rfl, hlength, hdecode, hfits.2.1 (by decide)⟩

/-- A vertex of 128 KiB, half of what `validate` allows. -/
def largeVertex : NetworkMessage := .dagVertex (List.replicate 131072 0)

theorem payload_largeVertex : largeVertex.payload.length = 131072 := List.length_replicate

/-- It is valid, and whatever the frame, it is dropped. -/
theorem large_vertex_dropped :
    largeVertex.validate = .ok () ∧ maxTransmitBytes < largeVertex.toVec.length ∧
      ∀ accepts overhead, GossipsubSpec accepts overhead → ¬ Sent accepts largeVertex := by
  have hvalid : largeVertex.validate = .ok () := by
    refine validate_ok_iff.mpr ⟨fun data h => by (cases h), ?_, ?_⟩
    · rw [← List.length_pos_iff, payload_largeVertex]
      decide
    · rw [payload_largeVertex]
      decide
  have hlarge : maxTransmitBytes < largeVertex.toVec.length := by
    have hbound := largeVertex.wireLength_bounds.1
    rw [payload_largeVertex] at hbound
    rw [length_toVec (validate_ok_iff.mp hvalid).2.1]
    exact Nat.lt_of_lt_of_le (by decide) hbound
  refine ⟨hvalid, hlarge, ?_⟩
  intro accepts overhead hspec
  rw [sent_iff hvalid]
  exact hspec.refuses _ hlarge

end NetworkMessage

end Subhost
