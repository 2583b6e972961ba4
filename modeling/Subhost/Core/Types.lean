import Subhost.Lib.Bincode
import Subhost.Lib.Map
/-!
# Core types (subhost-core/src/lib.rs)

Hashes, addresses, transactions, blocks and receipts, field by field. `u32`/`u64`/`u128` are
bit vectors, a `[u8; N]` is a `Vector UInt8 N` (its order is the lexicographic one Rust derives)
and a `Vec<T>` is a list.
-/
namespace Subhost
open Uint Bincode

def hashSize : Nat := 32
def addressSize : Nat := 20
/-- `BLOCK_GAS_LIMIT` (lib.rs:14). -/
def blockGasLimit : U64 := 30000000#64
/-- `DEFAULT_BLOCK_TIME_MS` (lib.rs:16). -/
def defaultBlockTimeMs : U64 := 1000#64

/-- `Hash([u8; HASH_SIZE])` (lib.rs:20). -/
abbrev Hash := Vector UInt8 hashSize
/-- `Address([u8; ADDRESS_SIZE])` (lib.rs:63). -/
abbrev Address := Vector UInt8 addressSize

/-- `Hash::ZERO`, the genesis parent. -/
def Hash.zero : Hash := Vector.replicate hashSize 0
/-- `Address::ZERO`, the local producer's placeholder. -/
def Address.zero : Address := Vector.replicate addressSize 0

/-- The address whose bytes are the little-endian digits of `i`. -/
def addressOf (i : Nat) : Address := ⟨(leBytes addressSize i).toArray, by simp⟩

theorem addressOf_inj {i j : Nat} (hi : i < 2 ^ 64) (hj : j < 2 ^ 64) (h : addressOf i = addressOf j) : i = j := by
  have hbytes : leBytes addressSize i = leBytes addressSize j := by
    have := congrArg Vector.toList h
    simpa [addressOf, Vector.toList] using this
  have hval := congrArg ofLe hbytes
  rw [ofLe_leBytes, ofLe_leBytes] at hval
  have hbig : (2 : Nat) ^ 64 < 256 ^ addressSize := by decide
  rwa [Nat.mod_eq_of_lt (by omega), Nat.mod_eq_of_lt (by omega)] at hval

/-- The order in which an iteration visits the entries of a map. -/
def Enumerates {K V : Type} [Ord K] [Std.TransOrd K] (entries : List (K × V)) (m : Map K V) : Prop :=
  entries.Perm m.toList

abbrev BlockHeight := U64
abbrev Timestamp := U64
abbrev Nonce := U64
abbrev Amount := U128
abbrev Gas := U64
abbrev ChainId := U64

/-! ## Text -/

def hexDigit (n : Nat) : Char :=
  if n < 10 then Char.ofNat (48 + n) else Char.ofNat (87 + n)

/-- `char::is_whitespace`: the Unicode property `White_Space`. -/
def isWhitespace (c : Char) : Bool :=
  let n := c.toNat
  (9 ≤ n && n ≤ 13) || n == 32 || n == 0x85 || n == 0xA0 || n == 0x1680 || (0x2000 ≤ n && n ≤ 0x200A) ||
    n == 0x2028 || n == 0x2029 || n == 0x202F || n == 0x205F || n == 0x3000

/-- `hex::encode`: two lower-case digits a byte. -/
def hexEncode (bs : Bytes) : String :=
  String.ofList (bs.flatMap fun b => [hexDigit (b.toNat / 16), hexDigit (b.toNat % 16)])

/-- `impl Display` for `Hash` and `Address` (lib.rs:55, :103). -/
def displayBytes (bs : Bytes) : String := "0x" ++ hexEncode bs

/-- `format!("0x{:x}", n)`. -/
def hexText (n : Nat) : String := "0x" ++ String.ofList (Nat.toDigits 16 n)

/-! ## Transactions -/

inductive TransactionType where
  | transfer
  | contractCreation
  | contractCall
  | stake
  | unstake
  | governanceVote
  | crossChain
deriving DecidableEq, Repr

/-- `impl Display for TransactionType` (lib.rs:153). -/
def TransactionType.display : TransactionType → String
  | .transfer => "transfer"
  | .contractCreation => "contractCreation"
  | .contractCall => "contractCall"
  | .stake => "stake"
  | .unstake => "unstake"
  | .governanceVote => "governanceVote"
  | .crossChain => "crossChain"

/-- A 64-byte ed25519 signature split into `r`/`s`/`v` (lib.rs:213). -/
structure TransactionSignature where
  r : Vector UInt8 32
  s : Vector UInt8 32
  v : UInt8
deriving DecidableEq

/-- `TransactionSignature::EMPTY`. -/
def TransactionSignature.empty : TransactionSignature :=
  ⟨Vector.replicate 32 0, Vector.replicate 32 0, 0⟩

/-- `Transaction` (lib.rs:169); `fromAddr` and `toAddr` are its `from` and `to`. -/
structure Transaction where
  txType : TransactionType
  nonce : Nonce
  fromAddr : Address
  toAddr : Option Address
  value : Amount
  gasPrice : U128
  gasLimit : Gas
  data : Bytes
  chainId : ChainId
  signature : TransactionSignature
deriving DecidableEq

/-- `Transaction::fee` (lib.rs:206): `gas_price * gas_limit`, `none` on overflow. -/
def Transaction.fee (tx : Transaction) : Option Amount :=
  checkedMul tx.gasPrice (tx.gasLimit.setWidth 128)

/-- `Transaction::total_cost` (lib.rs:201): `value + fee`. -/
def Transaction.totalCost (tx : Transaction) : Option Amount :=
  tx.fee.bind fun fee => checkedAdd tx.value fee

/-- `gas_price * gas_limit` in exact integers. -/
def Transaction.feeNat (tx : Transaction) : Nat := tx.gasPrice.toNat * tx.gasLimit.toNat

/-- `u128::from(gas_limit)` keeps the value. -/
theorem toNat_gas_setWidth (g : Gas) : (g.setWidth 128).toNat = g.toNat := by
  have hg := g.isLt
  rw [BitVec.toNat_setWidth]
  exact Nat.mod_eq_of_lt (by omega)

theorem Transaction.fee_eq_some {tx : Transaction} {f : Amount} :
    tx.fee = some f ↔ f.toNat = tx.feeNat := by
  rw [Transaction.fee, checkedMul_eq_some, toNat_gas_setWidth, feeNat]

theorem Transaction.fee_eq_none {tx : Transaction} : tx.fee = none ↔ 2 ^ 128 ≤ tx.feeNat := by
  rw [Transaction.fee, checkedMul_eq_none, toNat_gas_setWidth, feeNat]

theorem Transaction.totalCost_eq_some {tx : Transaction} {total : Amount} :
    tx.totalCost = some total ↔ total.toNat = tx.value.toNat + tx.feeNat := by
  unfold totalCost
  cases hfee : tx.fee with
  | none =>
    have hover := fee_eq_none.mp hfee
    have ht := total.isLt
    constructor
    · intro h; cases h
    · intro h; omega
  | some f =>
    rw [Option.bind_some, checkedAdd_eq_some, fee_eq_some.mp hfee]

theorem Transaction.totalCost_eq_none {tx : Transaction} :
    tx.totalCost = none ↔ 2 ^ 128 ≤ tx.value.toNat + tx.feeNat := by
  unfold totalCost
  cases hfee : tx.fee with
  | none =>
    have hover := fee_eq_none.mp hfee
    simp only [Option.bind_none, true_iff]
    omega
  | some f =>
    rw [Option.bind_some, checkedAdd_eq_none, fee_eq_some.mp hfee]

/-! ## Blocks and receipts -/

/-- `BlockHeader` (lib.rs:121). -/
structure BlockHeader where
  version : U32
  chainId : ChainId
  height : BlockHeight
  timestamp : Timestamp
  parentHash : Hash
  stateRoot : Hash
  txRoot : Hash
  receiptRoot : Hash
  validator : Address
  gasUsed : Gas
  gasLimit : Gas
  extraData : Bytes
deriving DecidableEq

structure ValidatorSignature where
  validator : Address
  signature : Bytes
deriving DecidableEq

/-- `Block` (lib.rs:248). -/
structure Block where
  header : BlockHeader
  transactions : List Transaction
  signatures : List ValidatorSignature
deriving DecidableEq

inductive ReceiptStatus where
  | success
  | failure
deriving DecidableEq, Repr

/-- The discriminants `Success = 1`, `Failure = 0` (lib.rs:294). -/
def ReceiptStatus.toU8 : ReceiptStatus → UInt8
  | .success => 1
  | .failure => 0

structure Log where
  address : Address
  topics : List Hash
  data : Bytes
deriving DecidableEq

/-- `Receipt` (lib.rs:283). -/
structure Receipt where
  txHash : Hash
  blockHash : Hash
  blockHeight : BlockHeight
  gasUsed : Gas
  status : ReceiptStatus
  logs : List Log
  contractAddress : Option Address
deriving DecidableEq

end Subhost
