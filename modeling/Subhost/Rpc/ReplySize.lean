import Subhost.Rpc.Server
/-!
# The size of replies (subhost-rpc/src/lib.rs:36, :470-536, :628)

jsonrpsee replaces a reply of more than `MAX_RESPONSE_BODY_BYTES` by an error. The longest text a node has to print is
the calldata of a transaction, two characters a byte, and the pool admits at most 128 KiB of it; a block has one
transaction and no extra data; and the id that a reply repeats is part of a request, which has at most 256 KiB. So the
reply to a request that is not one of a batch stays below the limit (`reads_fit`), and the replies that the explorer and
the command line get stay below theirs. The sizes are those of the compact text, counted in UTF-8.
-/
namespace Subhost
open Uint Bincode Run Program JsonText RpcState

/-! ## Counting -/

theorem length_utf8_append (a b : List Char) : (utf8 (a ++ b)).length = (utf8 a).length + (utf8 b).length := by
  simp [utf8]

theorem length_utf8_cons (c : Char) (text : List Char) :
    (utf8 (c :: text)).length = c.utf8Size + (utf8 text).length := by
  simp [utf8]

/-- What a quoted text takes. -/
def quotedBytes (text : String) : Nat := (utf8 (quoted text.toList)).length

namespace Json

mutual

/-- What a value takes at most. -/
def weight : Json → Nat
  | .null => 4
  | .bool _ => 5
  | .number literal => (utf8 literal.toList).length
  | .string text => quotedBytes text
  | .array items => weightItems items + 2
  | .object fields => weightFields fields + 2

def weightItems : List Json → Nat
  | [] => 0
  | j :: items => j.weight + 1 + weightItems items

def weightFields : List (String × Json) → Nat
  | [] => 0
  | (key, j) :: fields => quotedBytes key + j.weight + 2 + weightFields fields

end

/-- Brackets and commas are one byte each. -/
theorem length_enclosed_compact (depth : Nat) {left right : Char} (hleft : left.utf8Size = 1) (hright : right.utf8Size = 1)
    (texts : List (List Char)) :
    (utf8 (enclosed .compact depth left right texts)).length ≤
      (texts.map fun text => (utf8 text).length + 1).sum + 2 := by
  have hcommas : ∀ texts : List (List Char), (utf8 (commaSep texts)).length ≤
      (texts.map fun text => (utf8 text).length + 1).sum := by
    intro texts
    induction texts with
    | nil => simp [utf8]
    | cons text texts ih =>
      have hcomma : ','.utf8Size = 1 := rfl
      cases texts with
      | nil => simp
      | cons next texts =>
        rw [commaSep_cons_cons, length_utf8_append, length_utf8_cons, List.map_cons, List.sum_cons, hcomma]
        omega
  have hmap : (texts.map fun text => Layout.compact.line (depth + 1) ++ text) = texts := by
    simp [Layout.compact]
  unfold enclosed
  split
  · rw [length_utf8_cons, length_utf8_cons, hleft, hright]
    simp [utf8]
  · rw [hmap, length_utf8_cons, length_utf8_append, length_utf8_append, length_utf8_cons, hleft, hright]
    have := hcommas texts
    simp only [Layout.compact, utf8, List.flatMap_nil, List.length_nil] at this ⊢
    omega

mutual

theorem length_write_le (depth : Nat) : ∀ j : Json, (utf8 (j.tree.write .compact depth)).length ≤ j.weight
  | .null => by simp [tree, Tree.write, weight, utf8]; decide
  | .bool true => by simp [tree, Tree.write, weight, utf8]; decide
  | .bool false => by simp [tree, Tree.write, weight, utf8]; decide
  | .number literal => le_of_eq rfl
  | .string text => le_of_eq rfl
  | .array items => by
    rw [tree, Tree.write, weight]
    exact (length_enclosed_compact depth rfl rfl _).trans (Nat.add_le_add_right (length_writeItems_le _ items) 2)
  | .object fields => by
    rw [tree, Tree.write, weight]
    exact (length_enclosed_compact depth rfl rfl _).trans (Nat.add_le_add_right (length_writeFields_le _ fields) 2)

theorem length_writeItems_le (depth : Nat) : ∀ items : List Json,
    ((Tree.writeItems .compact depth (treeItems items)).map fun text => (utf8 text).length + 1).sum ≤ weightItems items
  | [] => le_of_eq rfl
  | j :: items => by
    have hj := length_write_le depth j
    have hitems := length_writeItems_le depth items
    rw [treeItems, Tree.writeItems, List.map_cons, List.sum_cons, weightItems]
    omega

theorem length_writeFields_le (depth : Nat) : ∀ fields : List (String × Json),
    ((Tree.writeMembers .compact depth (treeFields fields)).map fun text => (utf8 text).length + 1).sum ≤
      weightFields fields
  | [] => le_of_eq rfl
  | (key, j) :: fields => by
    have hj := length_write_le depth j
    have hfields := length_writeFields_le depth fields
    have hcolon : ':'.utf8Size = 1 := rfl
    rw [treeFields, Tree.writeMembers, List.map_cons, List.sum_cons, weightFields, memberOf, length_utf8_append,
      length_utf8_cons, hcolon]
    simp only [Layout.compact, List.nil_append, quotedBytes] at hj ⊢
    simp only [Layout.compact] at hfields
    omega

end

/-- **The text is no longer than the weight.** -/
theorem length_toVec_le (j : Json) : j.toVec.length ≤ j.weight := length_write_le 0 j

end Json

/-! ## Texts without escapes -/

/-- An ASCII character that stands for itself in a string. -/
def Printable (c : Char) : Prop := c ≠ '"' ∧ c ≠ '\\' ∧ 32 ≤ c.toNat ∧ c.toNat < 128

theorem escape_of_printable {c : Char} (h : Printable c) : escape c = [c] := by
  obtain ⟨hquote, hback, hlow, -⟩ := h
  have hcontrol : ∀ d : Char, d.toNat < 32 → c ≠ d := by
    rintro d hd rfl
    omega
  rw [escape, if_neg hquote, if_neg hback, if_neg (hcontrol _ (by decide)), if_neg (hcontrol _ (by decide)),
    if_neg (hcontrol _ (by decide)), if_neg (hcontrol _ (by decide)), if_neg (hcontrol _ (by decide)),
    if_neg (Nat.not_lt.mpr hlow)]

theorem quotedBytes_of_printable {text : String} (h : ∀ c ∈ text.toList, Printable c) :
    quotedBytes text = text.toList.length + 2 := by
  have hsame : text.toList.flatMap escape = text.toList := by
    rw [List.flatMap_congr fun c hc => escape_of_printable (h c hc), List.flatMap_singleton']
  have hquote : '"'.utf8Size = 1 := rfl
  rw [quotedBytes, quoted, hsame, length_utf8_cons, length_utf8_append, length_utf8, length_utf8,
    sum_utf8Size_of_ascii fun c hc => (h c hc).2.2.2, hquote]
  simp [hquote]
  omega

theorem IsHexDigit.printable {c : Char} (h : IsHexDigit c) : Printable c := by
  have hbounds : 48 ≤ c.toNat ∧ c.toNat < 128 ∧ c.toNat ≠ 92 := by
    simp only [IsHexDigit, Char.le_def, UInt32.le_iff_toNat_le] at h
    have hval : c.toNat = c.val.toNat := rfl
    rcases h with h | h | h <;> simp at h <;> omega
  refine ⟨?_, ?_, by omega, hbounds.2.1⟩
  · rintro rfl
    exact absurd hbounds.1 (by decide)
  · rintro rfl
    exact hbounds.2.2 rfl

theorem isHexDigit_hexDigit : ∀ n < 16, IsHexDigit (hexDigit n) := by
  intro n hn
  rw [← digitChar_eq_hexDigit n hn]
  exact isHexDigit_digitChar hn

/-- Digits behind `0x`. -/
theorem quotedBytes_0x {digits : List Char} (h : ∀ c ∈ digits, IsHexDigit c) :
    quotedBytes ("0x" ++ String.ofList digits) = digits.length + 4 := by
  have hmark : ∀ c ∈ "0x".toList, Printable c := by
    intro c hc
    have hcases : c = '0' ∨ c = 'x' := by simpa using hc
    rcases hcases with rfl | rfl <;> exact ⟨by decide, by decide, by decide, by decide⟩
  rw [quotedBytes_of_printable, String.toList_append, String.toList_ofList, List.length_append]
  · simp
    omega
  · rw [String.toList_append]
    refine List.forall_mem_append.mpr ⟨hmark, fun c hc => ?_⟩
    rw [String.toList_ofList] at hc
    exact (h c hc).printable

theorem quotedBytes_displayBytes (bytes : Bytes) : quotedBytes (displayBytes bytes) = 2 * bytes.length + 4 := by
  rw [displayBytes, hexEncode, quotedBytes_0x]
  · congr 1
    induction bytes with
    | nil => rfl
    | cons b bytes ih => simp [List.flatMap_cons] at ih ⊢; omega
  · intro c hc
    obtain ⟨b, -, hb⟩ := List.mem_flatMap.mp hc
    have := b.toNat_lt
    rcases List.mem_pair.mp hb with rfl | rfl <;> exact isHexDigit_hexDigit _ (by omega)

/-- A quantity of `4 * k` bits. -/
theorem quotedBytes_hexText {n k : Nat} (hk : 0 < k) (h : n < 16 ^ k) : quotedBytes (hexText n) ≤ k + 4 := by
  rw [hexText, quotedBytes_0x fun c hc => (canonical_toDigits n).isHexDigit c hc]
  exact Nat.add_le_add_right ((Nat.length_toDigits_le_iff (by decide) hk).mpr h) 4

theorem quotedBytes_u64 (n : U64) : quotedBytes (hexText n.toNat) ≤ 20 :=
  quotedBytes_hexText (by decide) (by have := n.isLt; omega)

theorem quotedBytes_u128 (n : U128) : quotedBytes (hexText n.toNat) ≤ 36 :=
  quotedBytes_hexText (by decide) (by have := n.isLt; omega)

/-- The decimal text of a 64-bit number. -/
theorem quotedBytes_decimal (n : U64) : quotedBytes (toString n.toNat) ≤ 22 := by
  have htext : toString n.toNat = String.ofList (Nat.toDigits 10 n.toNat) := rfl
  have hdigits : (Nat.toDigits 10 n.toNat).length ≤ 20 :=
    (Nat.length_toDigits_le_iff (by decide) (by decide)).mpr (by have := n.isLt; omega)
  rw [htext, quotedBytes_of_printable, String.toList_ofList]
  · omega
  · intro c hc
    rw [String.toList_ofList] at hc
    have hdigit := Nat.isDigit_of_mem_toDigits (by decide) (by decide) hc
    simp only [Char.isDigit, Bool.and_eq_true, decide_eq_true_eq] at hdigit
    exact IsHexDigit.printable (.inl ⟨hdigit.1, hdigit.2⟩)

theorem quotedBytes_txType (t : TransactionType) : quotedBytes t.display ≤ 18 := by
  cases t <;> decide +kernel

/-! ## The replies -/

/-- The names of the members of requests and replies. -/
def memberNames : List String :=
  ["jsonrpc", "id", "method", "params", "result", "error", "number", "hash", "parentHash", "stateRoot", "transactionsRoot",
    "receiptsRoot", "miner", "timestamp", "gasLimit", "gasUsed", "extraData", "transactions", "blockHash", "blockNumber",
    "transactionIndex", "from", "to", "value", "nonce", "gas", "gasPrice", "chainId", "input", "type",
    "transactionHash", "cumulativeGasUsed", "status", "contractAddress", "logs", "publicKey", "signature", "data"]

theorem quotedBytes_memberNames : ∀ key ∈ memberNames, quotedBytes key ≤ 19 := by decide +kernel

theorem weight_object_le {fields : List (String × Json)} (h : ∀ f ∈ fields, f.1 ∈ memberNames) :
    (Json.object fields).weight ≤ (fields.map fun f => f.2.weight + 21).sum + 2 := by
  rw [Json.weight]
  refine Nat.add_le_add_right ?_ 2
  induction fields with
  | nil => exact le_of_eq rfl
  | cons f fields ih =>
    obtain ⟨hf, hfields⟩ := List.forall_mem_cons.mp h
    have hkey := quotedBytes_memberNames f.1 hf
    have hmore := ih hfields
    rw [Json.weightFields, List.map_cons, List.sum_cons]
    omega

section
variable [Blake3]

theorem weight_transactionJson {tx : Transaction} {block : Block}
    (hsmall : tx.data.length ≤ MempoolConfig.default.maxTxDataBytes) :
    (transactionJson tx block 0).weight ≤ 264000 := by
  have hto : (tx.toAddr.elim Json.null fun a => .string (displayBytes a.toList)).weight ≤ 44 := by
    cases tx.toAddr with
    | none => decide
    | some a =>
      rw [Option.elim_some, Json.weight, quotedBytes_displayBytes, Vector.length_toList]
      exact le_of_eq rfl
  have hindex : quotedBytes (hexText 0) ≤ 20 := quotedBytes_u64 0
  have hdata : MempoolConfig.default.maxTxDataBytes = 131072 := rfl
  refine (weight_object_le (by simp [memberNames])).trans ?_
  simp only [List.map_cons, List.map_nil, List.sum_cons, List.sum_nil, Json.weight, quotedBytes_displayBytes,
    Vector.length_toList]
  have := quotedBytes_u64 block.header.height
  have := quotedBytes_u128 tx.value
  have := quotedBytes_u64 tx.nonce
  have := quotedBytes_u64 tx.gasLimit
  have := quotedBytes_u128 tx.gasPrice
  have := quotedBytes_u64 tx.chainId
  have := quotedBytes_txType tx.txType
  simp only [hashSize, addressSize] at *
  omega

/-- A block of the chain: one transaction, within the pool's limit, and no extra data. -/
structure Modest (block : Block) : Prop where
  bare : block.header.extraData = []
  one : ∃ tx, block.transactions = [tx] ∧ tx.data.length ≤ MempoolConfig.default.maxTxDataBytes

theorem weight_blockJson {block : Block} (h : Modest block) (full : Bool) : (blockJson block full).weight ≤ 266000 := by
  obtain ⟨tx, htx, hsmall⟩ := h.one
  have htransactions : (Json.array (if full then block.transactions.mapIdx fun index tx => transactionJson tx block index
      else block.transactions.map fun tx => .string (displayBytes tx.hash.toList))).weight ≤ 264010 := by
    have hfull : (transactionJson tx block 0).weight ≤ 264000 := weight_transactionJson hsmall
    rw [htx]
    cases full with
    | true =>
      simp only [if_true, List.mapIdx_singleton, Json.weight, Json.weightItems]
      omega
    | false =>
      simp only [Bool.false_eq_true, if_false, List.map_singleton, Json.weight, Json.weightItems,
        quotedBytes_displayBytes, Vector.length_toList]
      simp only [hashSize]
      omega
  refine (weight_object_le (by simp [memberNames])).trans ?_
  simp only [List.map_cons, List.map_nil, List.sum_cons, List.sum_nil]
  generalize (Json.array (if full then block.transactions.mapIdx fun index tx => transactionJson tx block index
      else block.transactions.map fun tx => .string (displayBytes tx.hash.toList))).weight = w at htransactions ⊢
  simp only [Json.weight, quotedBytes_displayBytes, Vector.length_toList, h.bare, List.length_nil]
  have := quotedBytes_u64 block.header.height
  have := quotedBytes_u64 block.header.timestamp
  have := quotedBytes_u64 block.header.gasLimit
  have := quotedBytes_u64 block.header.gasUsed
  simp only [hashSize, addressSize] at *
  omega

theorem weight_receiptJson (txHash : Hash) (block : Block) : (receiptJson (newReceipt txHash block)).weight ≤ 1000 := by
  have hstatus : quotedBytes (hexText ReceiptStatus.success.toU8.toNat) ≤ 20 := by decide +kernel
  have hindex : quotedBytes "0x0" ≤ 20 := by decide +kernel
  refine (weight_object_le (by simp [memberNames])).trans ?_
  simp only [List.map_cons, List.map_nil, List.sum_cons, List.sum_nil, newReceipt, Json.weight, Json.weightItems,
    quotedBytes_displayBytes, Vector.length_toList, Option.elim_none]
  have := quotedBytes_u64 block.header.height
  have := quotedBytes_u64 block.header.gasUsed
  simp only [hashSize] at *
  omega

/-! ## The methods that read -/

/-- An answer of a method that only reads: something small, or a complaint about the parameters. -/
def SmallAnswer (store : LedgerStore) : Except RpcError Json → Node → Prop :=
  Setting.OkThen (fun e n => e ∈ [RpcError.invalidParams, .invalidAddress, .invalidTxHash] ∧ Stage store n)
    fun value n => (value.Integral ∧ value.weight ≤ 300000) ∧ Stage store n

theorem RpcState.Stage.serve {store : LedgerStore} {n : Node} (h : Stage store n) {β : Type} (act : Act β)
    (turn : Turn RpcState.Event Choice) : Stage store (world.serve act turn n).2 :=
  (Holds.serve ⟨h, List.nil_prefix⟩ act turn).stage

/-- The blocks of a node are modest. -/
theorem RpcState.Stage.modest {store : LedgerStore} {n : Node} (h : Stage store n) {block : Block}
    (hb : block ∈ n.memory.blocks) : Modest block := by
  obtain ⟨l, hwf, hblocks⟩ := h.wf
  rw [← hblocks] at hb
  obtain ⟨index, parent, hok, -⟩ := blockOk_of_mem hwf.linked hb
  obtain ⟨tx, htx, -⟩ := hok.committed
  refine ⟨hwf.bare block hb, tx, htx, hwf.small tx ?_⟩
  exact List.mem_flatMap.mpr ⟨block, hb, by simp [htx]⟩

/-- The receipts of a node are those of its blocks. -/
theorem RpcState.Stage.receipt {store : LedgerStore} {n : Node} (h : Stage store n) {txHash : Hash} {r : Receipt}
    (hr : n.memory.receipt txHash = some r) :
    ∃ block ∈ n.memory.blocks, block.Contains txHash ∧ r = newReceipt txHash block := by
  -- receipts are written after the blocks
  have hledger : ∃ l : Ledger, l.Wf store.chainId ∧ l.receipts = n.memory.receipts ∧ l.blocks <+: n.memory.blocks := by
    cases h with
    | @idle s d sane => exact ⟨_, sane.wf, rfl, List.prefix_rfl⟩
    | @swap base d txHash c k hk before after =>
      rcases k with _ | _ | _ | _ | _ | k
      · exact ⟨_, before.wf, rfl, List.prefix_rfl⟩
      · exact ⟨_, before.wf, rfl, List.prefix_rfl⟩
      · exact ⟨_, before.wf, rfl, List.prefix_rfl⟩
      · exact ⟨_, before.wf, rfl, List.prefix_append _ _⟩
      · exact ⟨_, after.wf, rfl, List.prefix_rfl⟩
      · omega
  obtain ⟨l, hwf, hreceipts, hblocks⟩ := hledger
  rw [RpcState.receipt, ← hreceipts] at hr
  obtain ⟨block, hmem, hcontains, hblock⟩ := block_of_receipt hwf hr
  exact ⟨block, hblocks.subset hmem, hcontains, hblock⟩

omit [Blake3] in
theorem nextString_error {params : Json} {e : RpcError} (h : nextString params = .error e) : e = .invalidParams := by
  unfold nextString at h
  split at h <;> cases h
  rfl

omit [Blake3] in
theorem parseAddress_error {text : String} {e : RpcError} (h : parseAddress text = .error e) : e = .invalidAddress := by
  unfold parseAddress at h
  split at h
  · cases h
    rfl
  · cases hhex : Address.fromHex text <;> rw [hhex] at h <;> cases h
    rfl

omit [Blake3] in
theorem requestedHash_error {params : Json} {e : RpcError} (h : requestedHash params = .error e) :
    e = .invalidTxHash := by
  unfold requestedHash parseTxHash at h
  split at h
  · split at h
    · cases h
      rfl
    · rename_i text _
      cases hhex : Hash.fromHex text <;> rw [hhex] at h <;> cases h
      rfl
  · cases h
    rfl

omit [Blake3] in
theorem requestedBlock_error {params : Json} {e : RpcError} (h : requestedBlock params = .error e) :
    e = .invalidParams := by
  unfold requestedBlock at h
  split at h <;> cases h
  rfl

omit [Blake3] in
theorem resolveBlockHeight_error {tag : String} {count : U64} {e : RpcError}
    (h : resolveBlockHeight tag count = .error e) : e = .invalidParams := by
  unfold resolveBlockHeight at h
  dsimp only at h
  split_ifs at h
  split at h
  · cases h
    rfl
  · split at h <;> cases h
    rfl

section
variable {store : LedgerStore} {C : Turn RpcState.Event Choice → Prop}

/-- A check of the parameters that fails with one of the three complaints. -/
theorem ensures_check {α : Type} {x : Except RpcError α} {good : α → Node → Prop}
    (hbad : ∀ e, x = .error e → e ∈ [RpcError.invalidParams, .invalidAddress, .invalidTxHash])
    (hgood : ∀ a n, x = .ok a → Stage store n → good a n) :
    world.Ensures C (Stage store) (Prog.attempt x : ExceptT RpcError (Prog Act) α).run
      (Setting.OkThen (fun e n => e ∈ [RpcError.invalidParams, .invalidAddress, .invalidTxHash] ∧ Stage store n) good) := by
  refine .attempt fun n hn => ?_
  cases x with
  | error e => exact ⟨hbad e rfl, hn⟩
  | ok a => exact hgood a n rfl hn

/-- A text is answered. -/
theorem ensures_text {text : String} (h : quotedBytes text ≤ 300000) :
    world.Ensures C (Stage store) (pure (.string text) : ExceptT RpcError (Prog Act) Json).run (SmallAnswer store) :=
  .pure fun _ hn => ⟨⟨Json.integral_string _, h⟩, hn⟩

omit [Blake3] in
theorem small_null : Json.null.Integral ∧ Json.null.weight ≤ 300000 := ⟨Json.integral_null, by decide⟩

theorem ensures_null :
    world.Ensures C (Stage store) (pure .null : ExceptT RpcError (Prog Act) Json).run (SmallAnswer store) :=
  .pure fun _ hn => ⟨small_null, hn⟩

/-- Reading something of which nothing is needed. -/
theorem ensures_any {β : Type} (act : Act β) {bad : RpcError → Node → Prop} :
    world.Ensures C (Stage store) (Prog.access act : ExceptT RpcError (Prog Act) β).run
      (Setting.OkThen bad fun _ n => Stage store n) :=
  .access fun turn _ _ hn => hn.serve act turn

theorem ensures_ethChainId (params : Json) :
    world.Ensures C (Stage store) (ethChainId params).run (SmallAnswer store) :=
  (ensures_any .chainId).andThen fun chainId => ensures_text ((quotedBytes_u64 chainId).trans (by decide))

theorem ensures_netVersion (params : Json) :
    world.Ensures C (Stage store) (netVersion params).run (SmallAnswer store) :=
  (ensures_any .chainId).andThen fun chainId => ensures_text ((quotedBytes_decimal chainId).trans (by decide))

theorem ensures_ethBlockNumber (params : Json) :
    world.Ensures C (Stage store) (ethBlockNumber params).run (SmallAnswer store) :=
  (ensures_any .blockHeight).andThen fun height => ensures_text ((quotedBytes_u64 height).trans (by decide))

theorem ensures_ethGasPrice (params : Json) :
    world.Ensures C (Stage store) (ethGasPrice params).run (SmallAnswer store) :=
  (ensures_any .minGasPrice).andThen fun price => ensures_text ((quotedBytes_u128 price).trans (by decide))

/-- The address that a request names. -/
theorem ensures_address (params : Json) {f : Address → ExceptT RpcError (Prog Act) Json}
    (hf : ∀ address, world.Ensures C (Stage store) (f address).run (SmallAnswer store)) :
    world.Ensures C (Stage store)
      (do let text ← Prog.attempt (nextString params); let address ← Prog.attempt (parseAddress text); f address :
        ExceptT RpcError (Prog Act) Json).run (SmallAnswer store) := by
  refine Setting.Ensures.andThen (M := fun _ n => Stage store n) (ensures_check ?_ fun _ _ _ hn => hn) fun text => ?_
  · exact fun e he => by simp [nextString_error he]
  refine Setting.Ensures.andThen (M := fun _ n => Stage store n) (ensures_check ?_ fun _ _ _ hn => hn) hf
  exact fun e he => by simp [parseAddress_error he]

theorem ensures_ethGetBalance (params : Json) :
    world.Ensures C (Stage store) (ethGetBalance params).run (SmallAnswer store) :=
  ensures_address params fun address =>
    (ensures_any (.balance address)).andThen fun balance => ensures_text ((quotedBytes_u128 balance).trans (by decide))

theorem ensures_ethGetTransactionCount (params : Json) :
    world.Ensures C (Stage store) (ethGetTransactionCount params).run (SmallAnswer store) :=
  ensures_address params fun address =>
    (ensures_any (.nonce address)).andThen fun nonce => ensures_text ((quotedBytes_u64 nonce).trans (by decide))

theorem ensures_ethGetTransactionReceipt (params : Json) :
    world.Ensures C (Stage store) (ethGetTransactionReceipt params).run (SmallAnswer store) := by
  refine Setting.Ensures.andThen (M := fun _ n => Stage store n) (ensures_check ?_ fun _ _ _ hn => hn) fun txHash => ?_
  · exact fun e he => by simp [requestedHash_error he]
  refine Setting.Ensures.andThen
    (M := fun receipt n => (∀ r, receipt = some r → ∃ block, r = newReceipt txHash block) ∧ Stage store n)
    (.access fun turn n _ hn => ⟨fun r hr => ?_, hn.serve _ turn⟩) fun receipt => .pure ?_
  · obtain ⟨block, -, -, hblock⟩ := (hn.serve .chainId turn).receipt hr
    exact ⟨block, hblock⟩
  rintro n ⟨hreceipt, hn⟩
  refine ⟨?_, hn⟩
  cases receipt with
  | none => exact small_null
  | some r =>
    obtain ⟨block, rfl⟩ := hreceipt r rfl
    exact ⟨by simp [receiptJson, newReceipt], (weight_receiptJson txHash block).trans (by decide)⟩

/-- A block is read that is modest. -/
theorem ensures_blockAtHeight (height : U64) {bad : RpcError → Node → Prop} :
    world.Ensures C (Stage store) (Prog.access (.blockAtHeight height) : ExceptT RpcError (Prog Act) (Option Block)).run
      (Setting.OkThen bad fun block n => (∀ b, block = some b → Modest b) ∧ Stage store n) := by
  refine .access fun turn n _ hn => ⟨fun b hb => ?_, hn.serve _ turn⟩
  obtain ⟨-, hget⟩ := blockAtHeight_eq_some.mp hb
  exact (hn.serve .chainId turn).modest (List.mem_of_getElem? hget)

theorem integral_transactionJson (tx : Transaction) (block : Block) (index : Nat) :
    (transactionJson tx block index).Integral := by
  cases hto : tx.toAddr <;> simp [transactionJson, hto]

theorem integral_blockJson (block : Block) (full : Bool) : (blockJson block full).Integral := by
  have htransactions : (Json.array (if full then block.transactions.mapIdx fun index tx => transactionJson tx block index
      else block.transactions.map fun tx => .string (displayBytes tx.hash.toList))).Integral := by
    rw [Json.integral_array]
    intro j hj
    cases full with
    | true =>
      obtain ⟨index, _, rfl⟩ := List.mem_mapIdx.mp hj
      exact integral_transactionJson _ block index
    | false =>
      obtain ⟨tx, -, rfl⟩ := List.mem_map.mp hj
      exact Json.integral_string _
  simp [blockJson, htransactions]

theorem ensures_ethGetBlockByNumber (params : Json) :
    world.Ensures C (Stage store) (ethGetBlockByNumber params).run (SmallAnswer store) := by
  refine Setting.Ensures.andThen (M := fun _ n => Stage store n) (ensures_check ?_ fun _ _ _ hn => hn) ?_
  · exact fun e he => by simp [requestedBlock_error he]
  rintro ⟨tag, full⟩
  refine (ensures_any .blockCount).andThen fun count => ?_
  refine Setting.Ensures.andThen (M := fun _ n => Stage store n) (ensures_check ?_ fun _ _ _ hn => hn) fun height => ?_
  · exact fun e he => by simp [resolveBlockHeight_error he]
  cases height with
  | none => exact ensures_null
  | some height =>
    refine (ensures_blockAtHeight height).andThen fun block => .pure ?_
    rintro n ⟨hmodest, hn⟩
    refine ⟨?_, hn⟩
    cases block with
    | none => exact small_null
    | some b => exact ⟨integral_blockJson b full, (weight_blockJson (hmodest b rfl) full).trans (by decide)⟩

theorem weight_foundTransaction {block : Block} (h : Modest block) (txHash : Hash) :
    (foundTransaction txHash block).Integral ∧ (foundTransaction txHash block).weight ≤ 300000 := by
  obtain ⟨tx, htx, hsmall⟩ := h.one
  unfold foundTransaction
  rw [htx]
  by_cases hhash : tx.hash = txHash
  · simp only [List.findIdx?_cons, hhash, decide_true, if_true, List.getElem?_cons_zero]
    exact ⟨integral_transactionJson tx block 0, (weight_transactionJson hsmall).trans (by decide)⟩
  · simp only [List.findIdx?_cons, hhash, decide_false, Bool.false_eq_true, if_false, List.findIdx?_nil, Option.map_none]
    exact small_null

theorem ensures_ethGetTransactionByHash (params : Json) :
    world.Ensures C (Stage store) (ethGetTransactionByHash params).run (SmallAnswer store) := by
  refine Setting.Ensures.andThen (M := fun _ n => Stage store n) (ensures_check ?_ fun _ _ _ hn => hn) fun txHash => ?_
  · exact fun e he => by simp [requestedHash_error he]
  refine (ensures_any (.receipt txHash)).andThen fun receipt => ?_
  cases receipt with
  | none => exact ensures_null
  | some receipt =>
    refine (ensures_blockAtHeight receipt.blockHeight).andThen fun block => ?_
    cases block with
    | none => exact ensures_null.weaken (fun _ hn => hn.2) fun _ _ h => h
    | some b => exact .pure fun n hn => ⟨weight_foundTransaction (hn.1 b rfl) txHash, hn.2⟩

omit [Blake3] in
/-- A request with small parameters is within the server's limit. -/
theorem length_requestBody_le {method : String} {params : Json} (hmethod : quotedBytes method ≤ 100)
    (hparams : params.weight ≤ 200000) : (requestBody method params).toVec.length ≤ maxRequestBodyBytes := by
  have hone : (Json.int 1).weight = 1 := by decide +kernel
  have htwo : (Json.string "2.0").weight = 5 := by decide +kernel
  refine (Json.length_toVec_le _).trans ((weight_object_le (by simp [memberNames])).trans ?_)
  simp only [List.map_cons, List.map_nil, List.sum_cons, List.sum_nil, hone, htwo]
  rw [Json.weight, maxRequestBodyBytes]
  omega

omit [Blake3] in
/-- The parameters of a question about an account. -/
theorem small_addressed (a : Address) :
    (Json.array [.string (displayBytes a.toList), .string "latest"]).Integral ∧
      (Json.array [.string (displayBytes a.toList), .string "latest"]).weight ≤ 200000 := by
  have hlatest : quotedBytes "latest" = 8 := by decide +kernel
  have hlength : a.toList.length = 20 := Vector.length_toList
  refine ⟨by simp, ?_⟩
  simp only [Json.weight, Json.weightItems, quotedBytes_displayBytes, hlatest, hlength]
  omega

omit [Blake3] in
theorem weight_response (id : Json) (result : Except ErrorObject Json) :
    (response id result).weight ≤ id.weight + (payload result).2.weight + 70 := by
  have htwo : (Json.string "2.0").weight = 5 := by decide +kernel
  have hname : (payload result).1 ∈ memberNames := by cases result <;> simp [payload, memberNames]
  refine (weight_object_le ?_).trans ?_
  · simp only [List.forall_mem_cons, List.not_mem_nil, false_imp_iff, implies_true, and_true, hname]
    exact ⟨by simp [memberNames], by simp [memberNames]⟩
  · simp only [List.map_cons, List.map_nil, List.sum_cons, List.sum_nil, htwo]
    omega

omit [Blake3] in
/-- The text of an id has its weight. -/
theorem RequestId.weight_eq {id : Json} (h : RequestId id) : id.weight = id.toVec.length := by
  cases h with
  | null => decide
  | number n => rfl
  | string text => rfl

omit [Blake3] in
/-- A small value fits every limit above its size. -/
theorem fits_of_small {value : Json} (h : value.Integral ∧ value.weight ≤ 300000) {limit : Nat} (hlimit : 300100 ≤ limit) :
    Fits limit value := by
  have hone : (Json.int 1).weight = 1 := by decide +kernel
  have hvalue : (payload (.ok value)).2.weight = value.weight := rfl
  have hweight := weight_response (.int 1) (.ok value)
  refine ⟨h.1, (Json.length_toVec_le _).trans (hweight.trans (Nat.le_min.mpr ⟨?_, by omega⟩))⟩
  rw [maxResponseBodyBytes]
  omega

/-- **A call of a method that answers with a small value.** -/
theorem ensures_small [Ed25519] [Jsonrpsee] {ε : Type} {c : Client ε} (hlimit : 300100 ≤ c.limit) {P : Node → Prop} {reliable : Prop}
    {bad : ε → Node → Prop} {good : Json → Node → Prop} {method : String} {params : Json} {handler : Handler}
    (hnet : ∀ t, C t → Reliably reliable t) (hothers : ∀ t n, C t → P n → P (world.others n t.before))
    (hmethod : rpcModule.lookup method = some handler) (hname : quotedBytes method ≤ 100)
    (hparams : params.Integral ∧ params.weight ≤ 200000)
    (hhandler : world.Ensures C P (handler params).run (Setting.OkThen (fun _ _ => False) fun value n =>
      (value.Integral ∧ value.weight ≤ 300000) ∧ good value n))
    (hlost : ∀ outcome e n, c.result method outcome = .error e → ¬ reliable → P n ∨ (∃ value, good value n) → bad e n) :
    world.Ensures C P (c.rpcCall method params).run (Setting.OkThen bad good) := by
  refine ensures_rpcCall hnet hothers hmethod hparams.1 (length_requestBody_le hname hparams.2) hhandler ?_ ?_ ?_ ?_
  · exact fun value n hn => fits_of_small hn.1 hlimit
  · exact fun value n hn => hn.2
  · exact fun _ _ _ _ _ hn _ => hn.elim
  · rintro outcome e n he hrel (hn | ⟨_ | value, hn⟩)
    · exact hlost outcome e n he hrel (.inl hn)
    · exact hn.elim
    · exact hlost outcome e n he hrel (.inr ⟨value, hn.2⟩)

/-- **A call of a method that answers with a printed number**, which the client reads. -/
theorem ensures_number [Ed25519] [Jsonrpsee] {ε : Type} {c : Client ε} (hlimit : 300100 ≤ c.limit) {P : Node → Prop} {reliable : Prop}
    {bad : ε → Node → Prop} {w : Nat} {good : BitVec w → Node → Prop} {method : String} {params : Json} {handler : Handler}
    (hw : 16 < 2 ^ w) (hshort : ∀ n : BitVec w, quotedBytes (hexText n.toNat) ≤ 300000) (unread : ε)
    (hnet : ∀ t, C t → Reliably reliable t) (hothers : ∀ t n, C t → P n → P (world.others n t.before))
    (hmethod : rpcModule.lookup method = some handler) (hname : quotedBytes method ≤ 100)
    (hparams : params.Integral ∧ params.weight ≤ 200000)
    (hhandler : world.Ensures C P (handler params).run (Setting.OkThen (fun _ _ => False)
      fun value n => ∃ number : BitVec w, value = .string (hexText number.toNat) ∧ good number n))
    (hlost : ∀ outcome e n, c.result method outcome = .error e → ¬ reliable → P n ∨ (∃ number, good number n) → bad e n) :
    world.Ensures C P
      (do let value ← c.rpcCall method params; Prog.attempt ((numberIn w value).elim (.error unread) .ok) :
        ExceptT ε (Prog Act) (BitVec w)).run (Setting.OkThen bad good) := by
  refine Setting.Ensures.andThen
    (M := fun value n => ∃ number : BitVec w, value = .string (hexText number.toNat) ∧ good number n) ?_ fun value =>
      .attempt ?_
  · refine ensures_small hlimit hnet hothers hmethod hname hparams (hhandler.weaken (fun _ h => h) ?_) ?_
    · rintro (e | value) n hn
      · exact hn
      · obtain ⟨number, rfl, hgood⟩ := hn
        exact ⟨⟨Json.integral_string _, hshort number⟩, number, rfl, hgood⟩
    · rintro outcome e n he hrel (hn | ⟨value, number, -, hgood⟩)
      · exact hlost outcome e n he hrel (.inl hn)
      · exact hlost outcome e n he hrel (.inr ⟨number, hgood⟩)
  · rintro n ⟨number, rfl, hgood⟩
    rw [numberIn_hexText hw, Option.elim_some]
    exact hgood

/-- A node that a run leads to. -/
theorem stage_run (store : LedgerStore) (ops : List RpcOp) :
    Stage store (.quiet (final step (fresh store, emptyDisk) ops)) :=
  .idle (sane_run store ops)

/-- **Read replies fit.** Every method that only reads, called with any parameters and any id that a request has room for,
in a request of its own, on any node that a run leads to, restarts included, while the node goes on committing: the body
of its reply is within the server's limit, so that it is never replaced by an error about its size. -/
theorem reads_fit [Ed25519] (store : LedgerStore) (ops : List RpcOp) {method : String} {handler : Handler}
    (hmethod : (method, handler) ∈ rpcModule) (hreads : method ≠ "eth_sendTransaction") {id : Json} (hid : RequestId id)
    (hlength : id.toVec.length ≤ maxRequestBodyBytes) (params : Json) (turns : Nat → Turn RpcState.Event Choice) :
    (response id ((world.exec (handler params).run turns
      (.quiet (final step (fresh store, emptyDisk) ops))).1.mapError RpcError.toErrorObject)).toVec.length ≤
        maxResponseBodyBytes := by
  have hsmall : world.Ensures (fun _ => True) (Stage store) (handler params).run (SmallAnswer store) := by
    simp only [rpcModule, List.mem_cons, Prod.mk.injEq, List.not_mem_nil, or_false] at hmethod
    rcases hmethod with ⟨-, rfl⟩ | ⟨-, rfl⟩ | ⟨-, rfl⟩ | ⟨-, rfl⟩ | ⟨-, rfl⟩ | ⟨-, rfl⟩ | ⟨hsend, -⟩ | ⟨-, rfl⟩ |
      ⟨-, rfl⟩ | ⟨-, rfl⟩
    · exact ensures_ethChainId params
    · exact ensures_netVersion params
    · exact ensures_ethBlockNumber params
    · exact ensures_ethGasPrice params
    · exact ensures_ethGetBalance params
    · exact ensures_ethGetTransactionCount params
    · exact absurd hsend hreads
    · exact ensures_ethGetTransactionReceipt params
    · exact ensures_ethGetBlockByNumber params
    · exact ensures_ethGetTransactionByHash params
  have hanswer := hsmall turns (fun _ => trivial) _ (stage_run store ops)
  have hcomplaints : ∀ e ∈ [RpcError.invalidParams, .invalidAddress, .invalidTxHash],
      (payload (.error e.toErrorObject)).2.weight ≤ 300000 := by decide +kernel
  generalize world.exec (handler params).run turns (.quiet (final step (fresh store, emptyDisk) ops)) = result at hanswer ⊢
  have hpayload : (payload (result.1.mapError RpcError.toErrorObject)).2.weight ≤ 300000 := by
    obtain ⟨e | value, n⟩ := result
    · exact hcomplaints e hanswer.1
    · exact hanswer.1.2
  have hweight := weight_response id (result.1.mapError RpcError.toErrorObject)
  rw [hid.weight_eq] at hweight
  refine (Json.length_toVec_le _).trans (hweight.trans ?_)
  rw [maxRequestBodyBytes] at hlength
  rw [maxResponseBodyBytes]
  omega

end

end

section
open scoped Concrete

/-- The block of a payment, with its transaction. -/
theorem reads_fit_latest :
    (world.exec (ethGetBlockByNumber (.array [.string "latest", .bool true])).run (fun _ => ⟨[], .lost "", 0, none⟩)
      (.quiet (final step (fresh durableStore, emptyDisk) payingOps))).1.isOk ∧
    (response (.string "a-1") ((world.exec (ethGetBlockByNumber (.array [.string "latest", .bool true])).run
      (fun _ => ⟨[], .lost "", 0, none⟩) (.quiet (final step (fresh durableStore, emptyDisk) payingOps))).1.mapError
        RpcError.toErrorObject)).toVec.length ≤ maxResponseBodyBytes :=
  ⟨by decide +kernel, @reads_fit _ _ durableStore payingOps "eth_getBlockByNumber" _ (by simp [rpcModule]) (by decide) _
    (.string "a-1") (by decide +kernel) _ _⟩

end
end Subhost
