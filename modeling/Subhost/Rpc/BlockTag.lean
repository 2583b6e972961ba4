import Subhost.Rpc.Quantity
import Subhost.Rpc.Lookup
/-!
# Block tags (subhost-rpc/src/lib.rs:451-468, 506-535, 706-719)

| here | there |
| --- | --- |
| `resolveBlockHeight`         | `resolve_block_height` (lib.rs:453) |
| `blockJson`                  | `block_json` (lib.rs:506) |
| `RpcState.getBlockByNumber`  | `eth_getBlockByNumber` (lib.rs:706) |

A tag is a name or a hexadecimal height. Heights go to the integer parser as they are, not through the checks of
`hex_digits`, so a plus and leading zeros pass; and on an empty chain no tag is looked at. These are the two places
where tags are not read as strictly as quantities (`tagStrict_iff`). A tag that is well formed gets the height it
stands for in any case (`resolveBlockHeight_of_designates`), and with it the block of that height
(`getBlockByNumber_of_designates`).
-/
namespace Subhost
open Uint Bincode

/-- `resolve_block_height` (lib.rs:453). The count is a `usize` of 64 bits. -/
def resolveBlockHeight (tag : String) (blockCount : U64) : Except RpcError (Option U64) :=
  if blockCount = 0#64 then .ok none
  else
    let newest := blockCount
    if tag = "latest" ∨ tag = "pending" ∨ tag = "safe" ∨ tag = "finalized" then .ok (some newest)
    else if tag = "earliest" then .ok (some 1#64)
    else
      match strip0x tag with
      | none => .error .invalidParams
      | some value =>
        match fromAsciiRadix 64 (utf8 value) with
        | none => .error .invalidParams
        | some height => .ok (if 1 ≤ height.toNat ∧ height.toNat ≤ newest.toNat then some height else none)

/-! ## What tags stand for -/

/-- The names of the newest block, and of the first. -/
def namedTags : List String := ["latest", "pending", "safe", "finalized", "earliest"]

/-- A name, or a quantity as `hex_quantity` reads it, with the height it stands for. -/
def Designates (blockCount : U64) (tag : String) (height : U64) : Prop :=
  (tag ∈ ["latest", "pending", "safe", "finalized"] ∧ height = blockCount) ∨ (tag = "earliest" ∧ height = 1#64) ∨
    hexQuantity (some (.string tag)) 0 = .ok height

/-- A height that is there. -/
def heightInChain (blockCount height : U64) : Option U64 :=
  if 1 ≤ height.toNat ∧ height.toNat ≤ blockCount.toNat then some height else none

/-- The tag is refused exactly if it is neither a name nor a quantity, and otherwise gives its height. -/
def TagStrict (tag : String) (blockCount : U64) : Prop :=
  ((∃ e, resolveBlockHeight tag blockCount = .error e) ↔
    tag ∉ namedTags ∧ ∀ n, hexQuantity (some (.string tag)) 0 ≠ .ok n) ∧
  ∀ height, Designates blockCount tag height →
    resolveBlockHeight tag blockCount = .ok (heightInChain blockCount height)

/-- `0x` and the one numeral of a number of 64 bits. -/
def IsQuantity (tag : String) : Prop :=
  ∃ digits, tag = "0x" ++ String.ofList digits ∧ Canonical digits ∧ positional digits < 2 ^ 64

/-- `0x` and any numeral of a number of 64 bits: leading zeros and a plus are allowed. -/
def IsLaxHeight (tag : String) : Prop :=
  ∃ digits, (tag = "0x" ++ String.ofList digits ∨ tag = "0x" ++ String.ofList ('+' :: digits)) ∧ digits ≠ [] ∧
    (∀ c ∈ digits, IsHexDigit c) ∧ positional digits < 2 ^ 64

theorem IsQuantity.lax {tag : String} (h : IsQuantity tag) : IsLaxHeight tag := by
  obtain ⟨digits, htag, hcanonical, hfit⟩ := h
  exact ⟨digits, .inl htag, hcanonical.ne_nil, hcanonical.isHexDigit, hfit⟩

theorem exists_hexQuantity_iff {tag : String} : (∃ n, hexQuantity (some (.string tag)) 0 = .ok n) ↔ IsQuantity tag := by
  have hread : ∀ n, hexQuantity (some (.string tag)) 0 = .ok n ↔ _ := fun n => hexNumber_ok_iff
  simp only [hread, Json.string.injEq]
  constructor
  · rintro ⟨_, digits, htag, hcanonical, hfit, -⟩
    exact ⟨digits, htag, hcanonical, hfit⟩
  · rintro ⟨digits, htag, hcanonical, hfit⟩
    exact ⟨_, digits, htag, hcanonical, hfit, rfl⟩

/-- No name looks like a height. -/
theorem strip0x_named : ∀ tag ∈ namedTags, strip0x tag = none := by decide

theorem not_named_of_strip0x {tag : String} {value : List Char} (h : strip0x tag = some value) : tag ∉ namedTags := by
  intro hmem
  rw [strip0x_named tag hmem] at h
  cases h

theorem not_isLaxHeight_of_strip0x {tag : String} (h : strip0x tag = none) : ¬ IsLaxHeight tag := by
  rintro ⟨digits, htag | htag, -⟩
  · rw [strip0x_eq_some_iff.mpr htag] at h
    cases h
  · rw [strip0x_eq_some_iff.mpr htag] at h
    cases h

/-- The integer parser on what follows `0x`. -/
theorem fromAsciiRadix_isSome_iff {tag : String} {value : List Char} (h : strip0x tag = some value) :
    (∃ n, fromAsciiRadix 64 (utf8 value) = some n) ↔ IsLaxHeight tag := by
  simp only [fromAsciiRadix_eq_some_iff (show 16 < 2 ^ 64 by decide), IsLaxHeight, ← strip0x_eq_some_iff, h,
    Option.some.injEq]
  constructor
  · rintro ⟨_, digits, htext, hne, hhex, hfit, -⟩
    exact ⟨digits, htext, hne, hhex, hfit⟩
  · rintro ⟨digits, htext, hne, hhex, hfit⟩
    exact ⟨_, digits, htext, hne, hhex, hfit, rfl⟩

/-! ## What the code makes of them -/

/-- Beyond the empty chain and the names, the integer parser decides. -/
theorem resolveBlockHeight_of_not_named {tag : String} {blockCount : U64} (hcount : blockCount ≠ 0#64)
    (hnamed : tag ∉ namedTags) :
    resolveBlockHeight tag blockCount =
      match (strip0x tag).bind fun value => fromAsciiRadix 64 (utf8 value) with
      | none => .error .invalidParams
      | some height => .ok (heightInChain blockCount height) := by
  simp only [namedTags, List.mem_cons, List.not_mem_nil, or_false, not_or] at hnamed
  obtain ⟨h₁, h₂, h₃, h₄, h₅⟩ := hnamed
  rw [resolveBlockHeight, if_neg hcount]
  dsimp only
  rw [if_neg (by simp [h₁, h₂, h₃, h₄]), if_neg h₅]
  cases strip0x tag with
  | none => rfl
  | some value =>
    dsimp only [Option.bind_some]
    cases fromAsciiRadix 64 (utf8 value) with
    | none => rfl
    | some height => rfl

/-- **What is refused**: on a chain with blocks, what is neither a name nor any numeral. -/
theorem resolveBlockHeight_error_iff {tag : String} {blockCount : U64} :
    (∃ e, resolveBlockHeight tag blockCount = .error e) ↔
      blockCount ≠ 0#64 ∧ tag ∉ namedTags ∧ ¬ IsLaxHeight tag := by
  by_cases hcount : blockCount = 0#64
  · simp [resolveBlockHeight, hcount]
  by_cases hnamed : tag ∈ namedTags
  · refine iff_of_false ?_ fun h => h.2.1 hnamed
    rintro ⟨e, he⟩
    simp only [namedTags, List.mem_cons, List.not_mem_nil, or_false] at hnamed
    rw [resolveBlockHeight, if_neg hcount] at he
    dsimp only at he
    split at he
    · cases he
    · rename_i hnewest
      rw [if_pos (by tauto)] at he
      cases he
  rw [resolveBlockHeight_of_not_named hcount hnamed]
  cases hstrip : strip0x tag with
  | none => simp [hcount, hnamed, not_isLaxHeight_of_strip0x hstrip]
  | some value =>
    rw [Option.bind_some, ← fromAsciiRadix_isSome_iff hstrip]
    cases fromAsciiRadix 64 (utf8 value) with
    | none => simp [hcount, hnamed]
    | some height => simp

/-- **A well-formed tag gets its height**, at every count. -/
theorem resolveBlockHeight_of_designates {tag : String} {blockCount height : U64} (h : Designates blockCount tag height) :
    resolveBlockHeight tag blockCount = .ok (heightInChain blockCount height) := by
  by_cases hcount : blockCount = 0#64
  · have hnone : heightInChain 0#64 height = none := by
      have hzero : (0#64).toNat = 0 := rfl
      rw [heightInChain, if_neg (by omega)]
    rw [hcount, hnone]
    rfl
  have hpos : 1 ≤ blockCount.toNat := by
    rw [Nat.one_le_iff_ne_zero]
    exact fun hzero => hcount (BitVec.eq_of_toNat_eq hzero)
  rcases h with ⟨hnewest, rfl⟩ | ⟨rfl, rfl⟩ | hquantity
  · have hthere : heightInChain height height = some height := if_pos ⟨hpos, Nat.le_refl _⟩
    simp only [List.mem_cons, List.not_mem_nil, or_false] at hnewest
    rw [resolveBlockHeight, if_neg hcount, hthere]
    exact if_pos hnewest
  · have hthere : heightInChain blockCount 1#64 = some 1#64 := if_pos ⟨Nat.le_refl _, hpos⟩
    rw [resolveBlockHeight, if_neg hcount, hthere]
    dsimp only
    rw [if_neg (by decide), if_pos rfl]
  · obtain ⟨digits, htag, hcanonical, hfit, rfl⟩ := hexNumber_ok_iff.mp hquantity
    have hstrip : strip0x tag = some digits := strip0x_eq_some_iff.mpr (Json.string.inj htag)
    have hread : fromAsciiRadix 64 (utf8 digits) = some (BitVec.ofNat 64 (positional digits)) :=
      (fromAsciiRadix_eq_some_iff (by decide)).mpr
        ⟨digits, .inl rfl, hcanonical.ne_nil, hcanonical.isHexDigit, hfit, rfl⟩
    rw [resolveBlockHeight_of_not_named hcount (not_named_of_strip0x hstrip), hstrip, Option.bind_some, hread]

/-- **Which tags are read as strictly as quantities**: the names, the quantities, and on a chain with blocks
everything that is no numeral at all. -/
theorem tagStrict_iff (tag : String) (blockCount : U64) :
    TagStrict tag blockCount ↔
      tag ∈ namedTags ∨ IsQuantity tag ∨ (blockCount ≠ 0#64 ∧ ¬ IsLaxHeight tag) := by
  have hreads : ∀ height, Designates blockCount tag height →
      resolveBlockHeight tag blockCount = .ok (heightInChain blockCount height) :=
    fun _ => resolveBlockHeight_of_designates
  have hquantity : (∀ n, hexQuantity (some (.string tag)) 0 ≠ .ok n) ↔ ¬ IsQuantity tag := by
    rw [← exists_hexQuantity_iff, not_exists]
  rw [TagStrict, and_iff_left hreads, resolveBlockHeight_error_iff, hquantity]
  -- a quantity is a numeral, so what is refused is neither a name nor a quantity in any case
  have hlax : ¬ IsLaxHeight tag → ¬ IsQuantity tag := mt IsQuantity.lax
  tauto

theorem not_tagStrict_of_accepted {tag : String} {blockCount : U64} {reply : Option U64} {e : RpcError}
    (haccepted : resolveBlockHeight tag blockCount = .ok reply) (hnamed : tag ∉ namedTags)
    (hrefused : hexQuantity (some (.string tag)) 0 = .error e) : ¬ TagStrict tag blockCount := by
  intro h
  have hnone : ∀ n, hexQuantity (some (.string tag)) 0 ≠ .ok n := by
    intro n hn
    rw [hrefused] at hn
    cases hn
  obtain ⟨e, he⟩ := h.1.mpr ⟨hnamed, hnone⟩
  rw [haccepted] at he
  cases he

/-- The third block can be asked for by number and by name; a number without `0x` is refused. -/
theorem tagStrict_iff_third :
    TagStrict "0x3" 3 ∧ TagStrict "latest" 3 ∧ TagStrict "3" 3 := by
  refine ⟨(tagStrict_iff _ _).mpr (.inr (.inl ?_)), (tagStrict_iff _ _).mpr (.inl (by decide)),
    (tagStrict_iff _ _).mpr (.inr (.inr ⟨by decide, not_isLaxHeight_of_strip0x rfl⟩))⟩
  exact ⟨['3'], rfl, .inr ⟨'3', [], rfl, by decide, .inl (by decide), by simp⟩, by decide⟩

/-- Two spellings of `0x2` that are no quantities, and a misspelt name on an empty chain: all are accepted. -/
theorem tag_not_strict :
    resolveBlockHeight "0x02" 3 = .ok (some 2) ∧ ¬ TagStrict "0x02" 3 ∧
      resolveBlockHeight "0x+2" 3 = .ok (some 2) ∧ ¬ TagStrict "0x+2" 3 ∧
      resolveBlockHeight "lastest" 0 = .ok none ∧ ¬ TagStrict "lastest" 0 := by
  have hzero : resolveBlockHeight "0x02" 3 = .ok (some 2) := by decide +kernel
  have hplus : resolveBlockHeight "0x+2" 3 = .ok (some 2) := by decide +kernel
  have hempty : resolveBlockHeight "lastest" 0 = .ok none := rfl
  exact ⟨hzero, not_tagStrict_of_accepted hzero (by decide) rfl, hplus, not_tagStrict_of_accepted hplus (by decide) rfl,
    hempty, not_tagStrict_of_accepted hempty (by decide) rfl⟩

/-! ## Blocks by number -/

/-- The parameters of `eth_getBlockByNumber` (lib.rs:707-710): a tag, and whether the transactions are wanted. A
second parameter that is no truth value counts as `false`. -/
def requestedBlock : Json → Except RpcError (String × Bool)
  | .array (.string tag :: .bool full :: _) => .ok (tag, full)
  | .array (.string tag :: _) => .ok (tag, false)
  | _ => .error .invalidParams

section
variable [Blake3]

/-- `block_json` (lib.rs:506). -/
def blockJson (block : Block) (fullTransactions : Bool) : Json :=
  let transactions :=
    if fullTransactions then block.transactions.mapIdx fun index tx => transactionJson tx block index
    else block.transactions.map fun tx => .string (displayBytes tx.hash.toList)
  .object [
    ("number", .string (hexText block.header.height.toNat)),
    ("hash", .string (displayBytes block.hash.toList)),
    ("parentHash", .string (displayBytes block.header.parentHash.toList)),
    ("stateRoot", .string (displayBytes block.header.stateRoot.toList)),
    ("transactionsRoot", .string (displayBytes block.header.txRoot.toList)),
    ("receiptsRoot", .string (displayBytes block.header.receiptRoot.toList)),
    ("miner", .string (displayBytes block.header.validator.toList)),
    ("timestamp", .string (hexText block.header.timestamp.toNat)),
    ("gasLimit", .string (hexText block.header.gasLimit.toNat)),
    ("gasUsed", .string (hexText block.header.gasUsed.toNat)),
    ("extraData", .string (displayBytes block.header.extraData)),
    ("transactions", .array transactions)]

namespace RpcState

/-- `eth_getBlockByNumber` (lib.rs:706). -/
def getBlockByNumber (s : RpcState) (params : Json) : Except RpcError Json := do
  let (tag, fullTransactions) ← requestedBlock params
  match ← resolveBlockHeight tag (BitVec.ofNat 64 s.blockCount) with
  | none => return .null
  | some height => return (s.blockAtHeight height).elim .null fun block => blockJson block fullTransactions

/-- **The block of a well-formed tag.** Where the views of the ledger agree, the reply is the block whose header
has the height the tag stands for, and null exactly if there is no such height. -/
theorem getBlockByNumber_of_designates {s : RpcState} (hs : s.LookupAgreement) {params : Json} {tag : String}
    {full : Bool} (hparams : requestedBlock params = .ok (tag, full)) {height : U64}
    (htag : Designates s.blockHeight tag height) :
    (¬ (1 ≤ height.toNat ∧ height.toNat ≤ s.blockHeight.toNat) ∧ s.getBlockByNumber params = .ok .null) ∨
      ∃ block, s.blockAtHeight height = some block ∧ block.header.height = height ∧
        s.getBlockByNumber params = .ok (blockJson block full) := by
  have hcount : BitVec.ofNat 64 s.blockCount = s.blockHeight := by
    rw [← hs.count, BitVec.ofNat_toNat, BitVec.setWidth_eq]
  have hresolve := resolveBlockHeight_of_designates htag
  have hreply : s.getBlockByNumber params = .ok ((heightInChain s.blockHeight height).elim .null fun height =>
      (s.blockAtHeight height).elim .null fun block => blockJson block full) := by
    unfold getBlockByNumber
    rw [hparams, hcount]
    simp only [bind, Except.bind, hresolve]
    cases heightInChain s.blockHeight height with
    | none => rfl
    | some found => rfl
  by_cases hthere : 1 ≤ height.toNat ∧ height.toNat ≤ s.blockHeight.toNat
  · right
    obtain ⟨block, hblock⟩ := Option.isSome_iff_exists.mp ((hs.present height).mpr hthere)
    refine ⟨block, hblock, hs.height height block hblock, ?_⟩
    rw [hreply, heightInChain, if_pos hthere, Option.elim_some, hblock, Option.elim_some]
  · left
    refine ⟨hthere, ?_⟩
    rw [hreply, heightInChain, if_neg hthere, Option.elim_none]

end RpcState
end
end Subhost
