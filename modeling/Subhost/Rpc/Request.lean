import Subhost.Rpc.Submit
/-!
# `eth_sendTransaction` (subhost-rpc/src/lib.rs:376-455, :538-580, :680-694)

A request is any JSON value. Its fields are parsed into a transaction without a signature, the
public key is checked to belong to the sender and the signature to verify over the transaction,
and the transaction with that signature attached goes to `submit_transaction`.

Ed25519 is outside the repository and enters as two arbitrary predicates: which 32 bytes are a
key, and which signatures verify. `no_spend_without_signature` is about every run of requests
against a node that started from an empty store with seeded balances.
-/
namespace Subhost
open Uint Bincode Run

/-! ## Parameters -/

/-- `serde_json::Value`. An object is read by its first entry under a key, and a number is its
literal. -/
inductive Json where
  | null
  | bool (value : Bool)
  | number (literal : String)
  | string (text : String)
  | array (items : List Json)
  | object (fields : List (String × Json))

namespace Json

/-- `Value::get` with a key. -/
def get : Json → String → Option Json
  | .object fields, key => fields.lookup key
  | _, _ => none

/-- `Value::as_str`. -/
def asStr : Json → Option String
  | .string text => some text
  | _ => none

end Json

/-- `Params::one` of jsonrpsee at the type `Value`: the parameters are an array of one element. -/
def paramsOne : Json → Except RpcError Json
  | .array [request] => .ok request
  | _ => .error .invalidParams

/-! ## Hexadecimal text -/

/-- The value of a hexadecimal digit of either case. -/
def hexValue (c : Char) : Option Nat :=
  if '0' ≤ c ∧ c ≤ '9' then some (c.toNat - 48)
  else if 'a' ≤ c ∧ c ≤ 'f' then some (c.toNat - 87)
  else if 'A' ≤ c ∧ c ≤ 'F' then some (c.toNat - 55)
  else none

/-- `hex::decode`: two digits a byte, and nothing else. -/
def hexDecode : List Char → Option Bytes
  | [] => some []
  | [_] => none
  | high :: low :: rest =>
    match hexValue high, hexValue low, hexDecode rest with
    | some h, some l, some bytes => some (UInt8.ofNat (16 * h + l) :: bytes)
    | _, _, _ => none

/-- `str::strip_prefix("0x")`. -/
def strip0x (text : String) : Option (List Char) :=
  match text.toList with
  | '0' :: 'x' :: digits => some digits
  | _ => none

/-- `str::len`, in bytes. -/
def byteLen (text : String) : Nat := (text.toList.map Char.utf8Size).sum

/-- `<[u8; N]>::try_from` of a slice. -/
def toArray? (n : Nat) (bytes : Bytes) : Option (Vector UInt8 n) :=
  if h : bytes.length = n then some ⟨bytes.toArray, h⟩ else none

/-- `Address::from_hex` (subhost-core/src/lib.rs:89), up to the kind of its error. -/
def Address.fromHex (value : String) : Option Address :=
  (hexDecode ((strip0x value).getD value.toList)).bind (toArray? addressSize)

/-- `parse_address` (lib.rs:394). -/
def parseAddress (value : String) : Except RpcError Address :=
  if byteLen value ≠ 42 then .error .invalidAddress
  else (Address.fromHex value).elim (.error .invalidAddress) .ok

/-- `hex_digits` (lib.rs:409): a quantity is not empty and has no leading zero. -/
def hexDigits : Json → Except RpcError (List Char)
  | .string text =>
    match strip0x text with
    | none => .error .invalidParams
    | some digits =>
      if digits.isEmpty ∨ (1 < digits.length ∧ digits.head? = some '0') ∨
          ¬ digits.all (fun c => (hexValue c).isSome) then .error .invalidParams
      else .ok digits
  | _ => .error .invalidParams

/-- `from_str_radix(digits, 16)` at the width `w`; the digits are hexadecimal. -/
def fromStrRadix (w : Nat) (digits : List Char) : Option (BitVec w) :=
  let value := digits.foldl (fun acc c => 16 * acc + (hexValue c).getD 0) 0
  if value < 2 ^ w then some (BitVec.ofNat w value) else none

/-- An optional quantity of `w` bits. -/
def hexNumber (w : Nat) (value : Option Json) (default : BitVec w) : Except RpcError (BitVec w) :=
  match value with
  | none => .ok default
  | some value => do
    let digits ← hexDigits value
    (fromStrRadix w digits).elim (.error .invalidParams) .ok

/-- `hex_quantity` (lib.rs:423). -/
def hexQuantity : Option Json → U64 → Except RpcError U64 := hexNumber 64

/-- `hex_amount` (lib.rs:428). -/
def hexAmount : Option Json → Amount → Except RpcError Amount := hexNumber 128

/-- A byte string behind `0x`, with the handler's error for everything else. -/
def hexBytes (e : RpcError) (value : Option Json) : Except RpcError Bytes :=
  match value.bind Json.asStr with
  | none => .error e
  | some text => ((strip0x text).bind hexDecode).elim (.error e) .ok

/-- `fixed_hex` (lib.rs:434). -/
def fixedHex (n : Nat) (value : Option Json) : Except RpcError (Vector UInt8 n) := do
  let bytes ← hexBytes .invalidSignature value
  (toArray? n bytes).elim (.error .invalidSignature) .ok

/-- `hex_data` (lib.rs:442): absent calldata is empty. -/
def hexData (value : Option Json) : Except RpcError Bytes :=
  match value with
  | none => .ok []
  | some value => hexBytes .invalidParams (some value)

/-! Addresses, keys and signatures are read back from their printed form. -/

theorem hexValue_hexDigit : ∀ n < 16, hexValue (hexDigit n) = some n := by decide

theorem hexDecode_hexEncode (bytes : Bytes) : hexDecode (hexEncode bytes).toList = some bytes := by
  unfold hexEncode
  rw [String.toList_ofList]
  induction bytes with
  | nil => rfl
  | cons b bytes ih =>
    have hb := b.toNat_lt
    have hbyte : UInt8.ofNat (16 * (b.toNat / 16) + b.toNat % 16) = b := by
      rw [Nat.div_add_mod, UInt8.ofNat_toNat]
    simp [hexDecode, hexValue_hexDigit _ (show b.toNat / 16 < 16 by omega),
      hexValue_hexDigit _ (show b.toNat % 16 < 16 by omega), ih, hbyte]

theorem strip0x_displayBytes (bytes : Bytes) :
    strip0x (displayBytes bytes) = some (hexEncode bytes).toList := by
  simp [strip0x, displayBytes]

theorem toArray?_toList {n : Nat} (v : Vector UInt8 n) : toArray? n v.toList = some v := by
  have hbytes : v.toList.toArray = v.toArray := Array.toArray_toList
  simp [toArray?, hbytes]

/-- What `from_hex` of an address or a hash computes, on the printed form. -/
theorem fromHex_display {n : Nat} (v : Vector UInt8 n) :
    (hexDecode ((strip0x (displayBytes v.toList)).getD (displayBytes v.toList).toList)).bind (toArray? n) = some v := by
  rw [strip0x_displayBytes, Option.getD_some, hexDecode_hexEncode]
  exact toArray?_toList v

theorem fixedHex_display {n : Nat} (v : Vector UInt8 n) :
    fixedHex n (some (.string (displayBytes v.toList))) = .ok v := by
  simp [fixedHex, hexBytes, Json.asStr, strip0x_displayBytes, hexDecode_hexEncode, toArray?_toList,
    bind, Except.bind]

theorem utf8Size_hexDigit : ∀ n < 16, (hexDigit n).utf8Size = 1 := by decide

theorem byteLen_displayBytes (bytes : Bytes) : byteLen (displayBytes bytes) = 2 + 2 * bytes.length := by
  have hdigits : ((hexEncode bytes).toList.map Char.utf8Size).sum = 2 * bytes.length := by
    unfold hexEncode
    rw [String.toList_ofList]
    induction bytes with
    | nil => rfl
    | cons b bytes ih =>
      have hb := b.toNat_lt
      simp [utf8Size_hexDigit _ (show b.toNat / 16 < 16 by omega),
        utf8Size_hexDigit _ (show b.toNat % 16 < 16 by omega), ih]
      omega
  have hmark : '0'.utf8Size = 1 ∧ 'x'.utf8Size = 1 := by decide
  simp [byteLen, displayBytes, hdigits, hmark]
  omega

theorem parseAddress_display (a : Address) : parseAddress (displayBytes a.toList) = .ok a := by
  have hlen : byteLen (displayBytes a.toList) = 42 := by
    rw [byteLen_displayBytes, Vector.length_toList]
    rfl
  have hdecode : Address.fromHex (displayBytes a.toList) = some a := fromHex_display a
  simp [parseAddress, hlen, hdecode]

def defaultTxGasLimit : Gas := 21000

/-- `transaction_from_params` (lib.rs:538). The fields of the result are parsed in the order the
source lists them, so that the first wrong one decides the error. -/
def transactionFromParams (params : Json) (configuredChainId : ChainId) : Except RpcError Transaction := do
  let sender ← ((params.get "from").bind Json.asStr).elim (.error .invalidAddress) parseAddress
  let recipient ←
    match (params.get "to").bind Json.asStr with
    | some value => (parseAddress value).map some
    | none => .ok none
  let chainId ← hexQuantity (params.get "chainId") configuredChainId
  if chainId ≠ configuredChainId then throw .invalidChainId
  let gasLimit ← hexQuantity ((params.get "gas").or (params.get "gasLimit")) defaultTxGasLimit
  if recipient = none then throw (.unsupportedTransactionType .contractCreation)
  let nonce ← hexQuantity (params.get "nonce") 0
  let value ← hexAmount (params.get "value") 0
  let gasPrice ← hexAmount (params.get "gasPrice") 1
  let data ← hexData ((params.get "data").or (params.get "input"))
  return ⟨.transfer, nonce, sender, recipient, value, gasPrice, gasLimit, data, chainId, .empty⟩

/-! ## Signatures -/

/-- Ed25519 verification: which 32 bytes decode to a key, and which signatures verify. -/
class Ed25519 where
  validKey : Vector UInt8 32 → Bool
  verify : Vector UInt8 32 → Bytes → Vector UInt8 64 → Bool

/-- `TransactionSignature::from_ed25519` (subhost-core/src/lib.rs:224). -/
def TransactionSignature.fromEd25519 (signature : Vector UInt8 64) : TransactionSignature :=
  ⟨signature.take 32, signature.drop 32, 0⟩

/-- `TransactionSignature::to_ed25519` (subhost-core/src/lib.rs:233). -/
def TransactionSignature.toEd25519 (t : TransactionSignature) : Vector UInt8 64 := t.r ++ t.s

@[simp] theorem TransactionSignature.toEd25519_fromEd25519 (signature : Vector UInt8 64) :
    (TransactionSignature.fromEd25519 signature).toEd25519 = signature := by
  apply Vector.toArray_inj.mp
  unfold toEd25519 fromEd25519
  simp only [Vector.toArray_append, Vector.toArray_take, Vector.toArray_drop]
  simp [Array.extract_append_extract, -Vector.toArray_inj]

section
variable [Blake3] [Ed25519]

omit [Ed25519] in
/-- `Address::from_public_key` (subhost-core/src/lib.rs:81): the last 20 bytes of the key's hash. -/
def Address.fromPublicKey (publicKey : Bytes) : Address :=
  (Hash.fromData publicKey).drop (hashSize - addressSize)

/-- `verify_transaction_signature` (lib.rs:378). -/
def verifyTransactionSignature (tx : Transaction) (publicKey : Vector UInt8 32)
    (signature : Vector UInt8 64) : Except RpcError Unit :=
  if Ed25519.validKey publicKey = false then .error .invalidSignature
  else if Address.fromPublicKey publicKey.toList ≠ tx.fromAddr then .error .invalidSignature
  else if Ed25519.verify publicKey tx.signingPayload signature = false then .error .invalidSignature
  else .ok ()

/-- The checks of `eth_sendTransaction` and the transaction they let through (lib.rs:681-692). -/
def signedTransaction (params : Json) (chainId : ChainId) : Except RpcError Transaction := do
  let request ← paramsOne params
  let unsigned ← transactionFromParams request chainId
  let publicKey ← fixedHex 32 (request.get "publicKey")
  let signature ← fixedHex 64 (request.get "signature")
  verifyTransactionSignature unsigned publicKey signature
  return { unsigned with signature := .fromEd25519 signature }

/-- `eth_sendTransaction` (lib.rs:680). -/
def RpcState.sendTransaction (s : RpcState) (d : Disk) (params : Json) (now : Timestamp)
    (fault : Option Fault) : Except RpcError String × RpcState × Disk :=
  match signedTransaction params s.chainId with
  | .error e => (.error e, s, d)
  | .ok tx =>
    match s.submitTransaction d tx now fault with
    | (.error e, s, d) => (.error e, s, d)
    | (.ok hash, s, d) => (.ok (displayBytes hash.toList), s, d)

/-! ## What passes the checks -/

/-- The request carries a public key of the account `a` and a signature that verifies under that
key over the transaction, and the transaction carries that signature. -/
def SignedBy (params : Json) (a : Address) (tx : Transaction) : Prop :=
  ∃ request publicKey signature, paramsOne params = .ok request ∧
    fixedHex 32 (request.get "publicKey") = .ok publicKey ∧
    fixedHex 64 (request.get "signature") = .ok signature ∧
    Address.fromPublicKey publicKey.toList = a ∧
    Ed25519.verify publicKey tx.signingPayload signature = true ∧
    tx.signature = .fromEd25519 signature ∧ tx.signature.toEd25519 = signature

omit [Blake3] [Ed25519] in
theorem exists_ok_of_bind {ε α β : Type} {x : Except ε α} {f : α → Except ε β} {b : β}
    (h : (x >>= f) = .ok b) : ∃ a, x = .ok a ∧ f a = .ok b := by
  cases x with
  | error e => cases h
  | ok a => exact ⟨a, rfl, h⟩

theorem verifyTransactionSignature_ok {tx : Transaction} {publicKey : Vector UInt8 32}
    {signature : Vector UInt8 64} (h : verifyTransactionSignature tx publicKey signature = .ok ()) :
    Address.fromPublicKey publicKey.toList = tx.fromAddr ∧
      Ed25519.verify publicKey tx.signingPayload signature = true := by
  unfold verifyTransactionSignature at h
  split at h
  · cases h
  split at h
  · cases h
  split at h
  · cases h
  · rename_i hkey hverify
    exact ⟨not_not.mp hkey, by simpa using hverify⟩

/-- The signature was checked over the transaction that goes on: attaching it afterwards changes
nothing the payload covers. -/
theorem signedBy_of_ok {params : Json} {chainId : ChainId} {tx : Transaction}
    (h : signedTransaction params chainId = .ok tx) : SignedBy params tx.fromAddr tx := by
  obtain ⟨request, hone, h⟩ := exists_ok_of_bind h
  obtain ⟨unsigned, hparsed, h⟩ := exists_ok_of_bind h
  obtain ⟨publicKey, hkey, h⟩ := exists_ok_of_bind h
  obtain ⟨signature, hsignature, h⟩ := exists_ok_of_bind h
  obtain ⟨u, hverified, h⟩ := exists_ok_of_bind h
  obtain ⟨hsender, hverify⟩ := verifyTransactionSignature_ok hverified
  cases h
  exact ⟨request, publicKey, signature, hone, hkey, hsignature, hsender, hverify, rfl,
    TransactionSignature.toEd25519_fromEd25519 signature⟩

/-! ## Every step of a run -/

/-- A request at a time, with the I/O error its write may meet. -/
structure Request where
  params : Json
  now : Timestamp
  fault : Option Fault

def serve (w : RpcState × Disk) (r : Request) : Except RpcError String × RpcState × Disk :=
  w.1.sendTransaction w.2 r.params r.now r.fault

namespace RpcState

omit [Ed25519] in
/-- A transaction that was committed from an empty pool leaves it empty. -/
theorem commit_empty {tx : Transaction} {admission : Admission} {q : Mempool}
    (h : Mempool.default.admitTx tx = (.ok admission, q)) : (q.remove tx.hash).2 = Mempool.default := by
  have hempty : ∀ hash, Mempool.default.get hash = none := by
    intro hash
    simp [Mempool.default, Mempool.get]
  have hadmits := Mempool.consistent_default.admits tx
  rw [h] at hadmits
  cases hadmits with
  | outbid => exact Mempool.remove_of_none (hempty _)
  | pending hget => rw [hempty] at hget; cases hget
  | displacing _ hget => rw [hempty] at hget; cases hget
  | fresh hnew _ hq hconfig htxs =>
    refine Mempool.consistent_default.eq_of_txs (hq.remove _) ((Mempool.remove_config _ _).trans hconfig) ?_
    rw [Mempool.remove_txs, htxs]
    exact Map.erase_insert tx hnew

omit [Ed25519] in
/-- Only a failed write can have touched the disk (lib.rs:341). -/
theorem disk_of_submit_error {s s' : RpcState} {d d' : Disk} {tx : Transaction} {now : Timestamp}
    {fault : Option Fault} {e : RpcError} (h : s.submitTransaction d tx now fault = (.error e, s', d'))
    (he : ∀ m, e ≠ .persistence m) : d' = d := by
  unfold submitTransaction at h
  dsimp only at h
  split at h
  · cases h; rfl
  split at h
  · cases h; rfl
  unfold sealNextBlock persist at h
  split at h
  · cases h
  · rename_i hseal
    cases h
    split at hseal
    · cases hseal; rfl
    · split at hseal
      · rename_i hwrite
        cases hseal
        split at hwrite
        · cases hwrite
          exact absurd rfl (he _)
        · cases hwrite
      · cases hseal

/-- What a request does to a node with an empty pool: nothing to its memory, or one block with a
transaction signed by its sender, executed on the current state. -/
inductive Serves (s : RpcState) (d : Disk) (params : Json) :
    Except RpcError String → RpcState → Disk → Prop where
  | refused {e : RpcError} {d' : Disk} (disk : (∀ m, e ≠ .persistence m) → d' = d) :
      Serves s d params (.error e) s d'
  | committed {tx : Transaction} {fee : Amount} {c : Sealed} {s' : RpcState} {d' : Disk}
      (signed : SignedBy params tx.fromAddr tx)
      (executed : s.state.applyTransaction tx = (.ok fee, c.state)) (state : s'.state = c.state)
      (blocks : s'.blocks = s.blocks ++ [c.block]) (block : c.block.transactions = [tx])
      (pool : s'.mempool = Mempool.default) :
      Serves s d params (.ok (displayBytes tx.hash.toList)) s' d'

theorem sendTransaction_serves {s : RpcState} (hpool : s.mempool = Mempool.default) (d : Disk) (params : Json)
    (now : Timestamp) (fault : Option Fault) :
    Serves s d params (s.sendTransaction d params now fault).1 (s.sendTransaction d params now fault).2.1
      (s.sendTransaction d params now fault).2.2 := by
  unfold sendTransaction
  cases hsigned : signedTransaction params s.chainId with
  | error e => exact .refused fun _ => rfl
  | ok tx =>
    -- nothing is pending, so no other transaction can come back under the submitted one's hash
    have hsame : ∀ t, s.mempool.get tx.hash = some t → t = tx := by
      rw [hpool]
      simp [Mempool.default, Mempool.get]
    have hsubmits := submitTransaction_submits (hpool ▸ Mempool.consistent_default) hsame d now fault
    dsimp only
    rcases hresult : s.submitTransaction d tx now fault with ⟨e | hash, s', d'⟩
    all_goals
      rw [hresult] at hsubmits
      dsimp only at hsubmits ⊢
    · cases hsubmits
      exact .refused (disk_of_submit_error hresult)
    · cases hsubmits with
      | committed admitted executed block receipt =>
        rw [hpool] at admitted
        exact .committed (signedBy_of_ok hsigned) executed rfl rfl block (commit_empty admitted)

theorem Serves.pool {s s' : RpcState} {d d' : Disk} {params : Json} {r : Except RpcError String}
    (h : Serves s d params r s' d') (hpool : s.mempool = Mempool.default) : s'.mempool = Mempool.default := by
  cases h with
  | refused => exact hpool
  | committed _ _ _ _ _ pool => exact pool

omit [Ed25519] in
/-- Seeding leaves the pool alone. -/
theorem seededRun_pool (store : LedgerStore) (seeds : List SeedOp) :
    (seededRun store seeds).1.mempool = Mempool.default := by
  unfold seededRun
  rw [final_map]
  refine final_invariant _ (fun w : RpcState × Disk => w.1.mempool = Mempool.default) ?_ rfl seeds
  intro w op hpool
  show (w.1.seedAccounts w.2 op.allocations op.fault).2.1.mempool = _
  unfold seedAccounts
  dsimp only
  split <;> exact hpool

omit [Blake3] [Ed25519] in
/-- Only the sender of an executed transaction can lose balance or get another nonce. -/
theorem sender_of_spend {s s' : State} {tx : Transaction} {fee : Amount}
    (h : s.applyTransaction tx = (.ok fee, s')) {a : Address}
    (hspend : (s'.balance a).toNat < (s.balance a).toNat ∨ s'.nonce a ≠ s.nonce a) : tx.fromAddr = a := by
  obtain ⟨dst, -, heffect⟩ := State.effect_of_ok h
  by_contra hother
  rcases hspend with hloss | hnonce
  · by_cases hdst : dst = a
    · subst hdst
      obtain ⟨acct, hacct, -, hbalance⟩ := heffect.recipient (Ne.symm hother)
      rw [State.balance, hacct] at hloss
      dsimp only [Option.elim] at hloss
      omega
    · rw [State.balance, heffect.frame a (Ne.symm hother) (Ne.symm hdst), ← State.balance] at hloss
      omega
  · have := State.nonce_of_effect heffect a
    rw [if_neg hother] at this
    exact hnonce (BitVec.eq_of_toNat_eq this)

/-- **No spend without the owner's signature.** In every run of requests against a node that
started from an empty store and was seeded: a request after which an account has less balance or
another nonce has committed one block, and supplied a public key of that account and a signature
which verifies under it over the block's transaction and which that transaction carries. A request
that fails leaves the node as it was, and the disk too unless it was the write that failed. -/
theorem no_spend_without_signature (store : LedgerStore) (seeds : List SeedOp) (requests : List Request) :
    ∀ c ∈ trace serve (seededRun store seeds) requests,
      (∀ a, (c.after.1.state.balance a).toNat < (c.before.1.state.balance a).toNat ∨
          c.after.1.state.nonce a ≠ c.before.1.state.nonce a →
        ∃ block tx, c.after.1.blocks = c.before.1.blocks ++ [block] ∧ block.transactions = [tx] ∧
          SignedBy c.input.params a tx) ∧
      ∀ e, c.result = .error e →
        c.after.1 = c.before.1 ∧ ((∀ m, e ≠ .persistence m) → c.after.2 = c.before.2) := by
  intro c hc
  have hpool : c.before.1.mempool = Mempool.default := by
    refine trace_invariant serve (fun w => w.1.mempool = Mempool.default) ?_ (seededRun_pool store seeds) requests c hc
    intro w r hw
    exact (sendTransaction_serves hw w.2 r.params r.now r.fault).pool hw
  have hstep := trace_step serve _ requests c hc
  have hserves := sendTransaction_serves hpool c.before.2 c.input.params c.input.now c.input.fault
  rw [show c.before.1.sendTransaction c.before.2 c.input.params c.input.now c.input.fault =
    (c.result, c.after) from hstep] at hserves
  dsimp only at hserves
  generalize c.result = result, c.after.1 = after, c.after.2 = disk at hserves ⊢
  cases hserves with
  | refused hdisk =>
    refine ⟨?_, ?_⟩
    · rintro a (hloss | hnonce)
      · exact absurd hloss (Nat.lt_irrefl _)
      · exact absurd rfl hnonce
    · rintro e ⟨⟩
      exact ⟨rfl, hdisk⟩
  | @committed tx fee block _ _ signed executed hstate hblocks hblock _ =>
    refine ⟨?_, nofun⟩
    intro a hspend
    rw [hstate] at hspend
    obtain rfl := sender_of_spend executed hspend
    exact ⟨block.block, tx, hblocks, hblock, signed⟩

end RpcState

end

namespace Concrete

/-- Every key is valid, and exactly the signatures that start with 7 verify. -/
scoped instance ed25519 : Ed25519 := ⟨fun _ => true, fun _ _ signature => signature.toList.head? == some 7⟩

end Concrete

section
open scoped Concrete

def carol : Address := Address.fromPublicKey (List.replicate 32 9)

/-- Carol pays Bob 5. -/
def carolPays : Request where
  params := .array [.object [
    ("from", .string (displayBytes carol.toList)), ("to", .string (displayBytes RpcState.bob.toList)),
    ("value", .string "0x5"), ("gasLimit", .string "0x5208"),
    ("publicKey", .string (displayBytes (List.replicate 32 9))),
    ("signature", .string (displayBytes (List.replicate 64 7)))]]
  now := 7
  fault := none

/-- A node on which Carol has 100000. -/
def carolNode : RpcState × Disk := RpcState.seededRun RpcState.durableStore [⟨[(carol, 100000)], none⟩]

theorem balance_carolPays : ((serve carolNode carolPays).2.1.state.balance carol).toNat = 78995 := by
  decide +kernel

theorem no_spend_without_signature_carol :
    ((serve carolNode carolPays).2.1.state.balance carol).toNat < (carolNode.1.state.balance carol).toNat ∧
    ∃ block tx, (serve carolNode carolPays).2.1.blocks = carolNode.1.blocks ++ [block] ∧ block.transactions = [tx] ∧
      SignedBy carolPays.params carol tx := by
  have hless : ((serve carolNode carolPays).2.1.state.balance carol).toNat <
      (carolNode.1.state.balance carol).toNat := by
    rw [balance_carolPays]
    decide +kernel
  -- for any node and request, so that nothing is evaluated on the way
  have hspend : ∀ (w : RpcState × Disk) (request : Request),
      w = RpcState.seededRun RpcState.durableStore [⟨[(carol, 100000)], none⟩] →
      ((serve w request).2.1.state.balance carol).toNat < (w.1.state.balance carol).toNat →
      ∃ block tx, (serve w request).2.1.blocks = w.1.blocks ++ [block] ∧ block.transactions = [tx] ∧
        SignedBy request.params carol tx := by
    intro w request hw hless
    have hrun := RpcState.no_spend_without_signature RpcState.durableStore [⟨[(carol, 100000)], none⟩] [request]
    rw [← hw] at hrun
    exact (hrun ⟨w, request, _, _⟩ (List.mem_singleton_self _)).1 carol (.inl hless)
  exact ⟨hless, hspend carolNode carolPays rfl hless⟩

end

end Subhost
