import Subhost.Core.Types
/-!
# Canonical encoding and hashing (subhost-core/src/lib.rs:137-275, :310)

`encode_canonical` is `bincode::serialize`, so each core type gets the codec of its fields in
declaration order: an enumeration is its variant index (for `ReceiptStatus` the declaration
index, not the discriminant), a newtype over an array is the bare array.

BLAKE3 is outside the repository. It enters as an arbitrary function from byte strings to
32-byte digests, and where a result needs it, `CollisionFree` says that it separates the byte
strings that were actually hashed (no function into 32 bytes separates all byte strings).
-/
namespace Subhost
open Uint Bincode Codec

/-! ## Codecs -/

def Hash.codec : Codec Hash := array hashSize
def Address.codec : Codec Address := array addressSize

@[simp] theorem Hash.length_encode (h : Hash) : (Hash.codec.encode h).length = 32 :=
  length_encode_array hashSize h

@[simp] theorem Address.length_encode (a : Address) : (Address.codec.encode a).length = 20 :=
  length_encode_array addressSize a

theorem Hash.readsBack (h : Hash) : Hash.codec.ReadsBack h := readsBack_array (by decide) h
theorem Address.readsBack (a : Address) : Address.codec.ReadsBack a := readsBack_array (by decide) a

theorem Address.readsBack_option (o : Option Address) : (option Address.codec).ReadsBack o :=
  .option fun a _ => a.readsBack

def TransactionType.index : TransactionType → Fin 7
  | .transfer => 0
  | .contractCreation => 1
  | .contractCall => 2
  | .stake => 3
  | .unstake => 4
  | .governanceVote => 5
  | .crossChain => 6

def TransactionType.ofIndex : Fin 7 → TransactionType
  | 0 => .transfer
  | 1 => .contractCreation
  | 2 => .contractCall
  | 3 => .stake
  | 4 => .unstake
  | 5 => .governanceVote
  | 6 => .crossChain

def TransactionType.codec : Codec TransactionType :=
  (variant 7 (by decide)).iso index ofIndex (by rintro ⟨⟩ <;> rfl) (by decide)

def TransactionSignature.codec : Codec TransactionSignature :=
  (pair (array 32) (pair (array 32) u8)).iso (fun t => (t.r, t.s, t.v)) (fun p => ⟨p.1, p.2.1, p.2.2⟩)
    (fun _ => rfl) (fun _ => rfl)

def Transaction.codec : Codec Transaction :=
  (pair TransactionType.codec <| pair u64 <| pair Address.codec <| pair (option Address.codec) <|
    pair u128 <| pair u128 <| pair u64 <| pair bytes <| pair u64 TransactionSignature.codec).iso
    (fun t => (t.txType, t.nonce, t.fromAddr, t.toAddr, t.value, t.gasPrice, t.gasLimit, t.data,
      t.chainId, t.signature))
    (fun (ty, n, f, t, v, gp, gl, d, c, s) => ⟨ty, n, f, t, v, gp, gl, d, c, s⟩)
    (fun _ => rfl) (fun _ => rfl)

def BlockHeader.codec : Codec BlockHeader :=
  (pair u32 <| pair u64 <| pair u64 <| pair u64 <| pair Hash.codec <| pair Hash.codec <|
    pair Hash.codec <| pair Hash.codec <| pair Address.codec <| pair u64 <| pair u64 bytes).iso
    (fun h => (h.version, h.chainId, h.height, h.timestamp, h.parentHash, h.stateRoot, h.txRoot,
      h.receiptRoot, h.validator, h.gasUsed, h.gasLimit, h.extraData))
    (fun (v, c, n, t, p, s, x, r, a, u, g, e) => ⟨v, c, n, t, p, s, x, r, a, u, g, e⟩)
    (fun _ => rfl) (fun _ => rfl)

theorem TransactionSignature.length_encode (s : TransactionSignature) :
    (TransactionSignature.codec.encode s).length = 65 := by
  simp [TransactionSignature.codec]

theorem Transaction.length_encode (t : Transaction) :
    (Transaction.codec.encode t).length = t.data.length + 154 + (if t.toAddr.isSome then 20 else 0) := by
  simp only [Transaction.codec, encode_iso, encode_pair, List.length_append, TransactionType.codec,
    length_encode_variant, length_encode_u64, length_encode_u128, length_encode_bytes,
    Address.length_encode, length_encode_option, TransactionSignature.length_encode]
  cases t.toAddr <;> simp <;> omega

theorem BlockHeader.length_encode (h : BlockHeader) :
    (BlockHeader.codec.encode h).length = h.extraData.length + 200 := by
  simp only [BlockHeader.codec, encode_iso, encode_pair, List.length_append, length_encode_u32,
    length_encode_u64, length_encode_bytes, Address.length_encode, Hash.length_encode]
  omega

/-- The encoding determines the transaction however long its data is: all that follows the data has one
width. -/
theorem Transaction.encode_injective : Function.Injective Transaction.codec.encode := by
  intro s t h
  have htail : ∀ x : Transaction, (u64.encode x.chainId ++ TransactionSignature.codec.encode x.signature).length = 73 := by
    intro x
    rw [List.length_append, length_encode_u64, TransactionSignature.length_encode]
  simp only [Transaction.codec, encode_iso, encode_pair] at h
  have htype : ∀ x, TransactionType.codec.ReadsBack x := fun x => .iso (readsBack_variant _ _ _)
  obtain ⟨htype, h⟩ := (htype _).append_inj (htype _) h
  obtain ⟨hnonce, h⟩ := (readsBack_u64 _).append_inj (readsBack_u64 _) h
  obtain ⟨hfrom, h⟩ := s.fromAddr.readsBack.append_inj t.fromAddr.readsBack h
  obtain ⟨hto, h⟩ := (Address.readsBack_option _).append_inj (Address.readsBack_option _) h
  obtain ⟨hvalue, h⟩ := (readsBack_u128 _).append_inj (readsBack_u128 _) h
  obtain ⟨hprice, h⟩ := (readsBack_u128 _).append_inj (readsBack_u128 _) h
  obtain ⟨hgas, h⟩ := (readsBack_u64 _).append_inj (readsBack_u64 _) h
  obtain ⟨hdata, h⟩ := List.append_inj' h (by rw [htail, htail])
  have hdata := encode_bytes_inj hdata
  obtain ⟨hchain, h⟩ := (readsBack_u64 _).append_inj (readsBack_u64 _) h
  have hread : ∀ x, TransactionSignature.codec.ReadsBack x :=
    fun x => readsBack_of_length _ (by rw [TransactionSignature.length_encode]; decide)
  have hsignature := (hread _).inj (hread _) h
  cases s
  cases t
  simp_all

/-- The encoding determines the header: what comes before its free bytes has one width. -/
theorem BlockHeader.encode_injective : Function.Injective BlockHeader.codec.encode := by
  intro g h heq
  simp only [BlockHeader.codec, encode_iso, encode_pair] at heq
  obtain ⟨hversion, heq⟩ := (readsBack_u32 _).append_inj (readsBack_u32 _) heq
  obtain ⟨hchain, heq⟩ := (readsBack_u64 _).append_inj (readsBack_u64 _) heq
  obtain ⟨hheight, heq⟩ := (readsBack_u64 _).append_inj (readsBack_u64 _) heq
  obtain ⟨htime, heq⟩ := (readsBack_u64 _).append_inj (readsBack_u64 _) heq
  obtain ⟨hparent, heq⟩ := g.parentHash.readsBack.append_inj h.parentHash.readsBack heq
  obtain ⟨hstate, heq⟩ := g.stateRoot.readsBack.append_inj h.stateRoot.readsBack heq
  obtain ⟨htx, heq⟩ := g.txRoot.readsBack.append_inj h.txRoot.readsBack heq
  obtain ⟨hreceipt, heq⟩ := g.receiptRoot.readsBack.append_inj h.receiptRoot.readsBack heq
  obtain ⟨hvalidator, heq⟩ := g.validator.readsBack.append_inj h.validator.readsBack heq
  obtain ⟨hused, heq⟩ := (readsBack_u64 _).append_inj (readsBack_u64 _) heq
  obtain ⟨hlimit, heq⟩ := (readsBack_u64 _).append_inj (readsBack_u64 _) heq
  have hextra := encode_bytes_inj heq
  cases g
  cases h
  simp_all

theorem Transaction.encode_ne_nil (t : Transaction) : Transaction.codec.encode t ≠ [] :=
  List.ne_nil_of_length_pos (by rw [Transaction.length_encode]; omega)

/-- `Transaction::signing_payload` (lib.rs:195). -/
def Transaction.signingPayload (t : Transaction) : Bytes :=
  Transaction.codec.encode { t with signature := .empty }

def ValidatorSignature.codec : Codec ValidatorSignature :=
  (pair Address.codec bytes).iso (fun s => (s.validator, s.signature)) (fun p => ⟨p.1, p.2⟩)
    (fun _ => rfl) (fun _ => rfl)

theorem ValidatorSignature.encode_ne_nil (s : ValidatorSignature) :
    ValidatorSignature.codec.encode s ≠ [] :=
  List.ne_nil_of_length_pos (by simp [ValidatorSignature.codec])

def Block.codec : Codec Block :=
  (pair BlockHeader.codec <| pair (list Transaction.codec Transaction.encode_ne_nil)
    (list ValidatorSignature.codec ValidatorSignature.encode_ne_nil)).iso
    (fun b => (b.header, b.transactions, b.signatures)) (fun (h, t, s) => ⟨h, t, s⟩)
    (fun _ => rfl) (fun _ => rfl)

theorem Block.encode_ne_nil (b : Block) : Block.codec.encode b ≠ [] :=
  List.ne_nil_of_length_pos (by simp [Block.codec, BlockHeader.length_encode])

def ReceiptStatus.codec : Codec ReceiptStatus :=
  (variant 2 (by decide)).iso
    (fun | .success => 0 | .failure => 1) (fun | 0 => .success | 1 => .failure)
    (by rintro ⟨⟩ <;> rfl) (by decide)

theorem Hash.encode_ne_nil (h : Hash) : Hash.codec.encode h ≠ [] :=
  List.ne_nil_of_length_pos (by simp)

def Log.codec : Codec Log :=
  (pair Address.codec <| pair (list Hash.codec Hash.encode_ne_nil) bytes).iso
    (fun l => (l.address, l.topics, l.data)) (fun (a, t, d) => ⟨a, t, d⟩)
    (fun _ => rfl) (fun _ => rfl)

theorem Log.encode_ne_nil (l : Log) : Log.codec.encode l ≠ [] :=
  List.ne_nil_of_length_pos (by simp [Log.codec])

def Receipt.codec : Codec Receipt :=
  (pair Hash.codec <| pair Hash.codec <| pair u64 <| pair u64 <| pair ReceiptStatus.codec <|
    pair (list Log.codec Log.encode_ne_nil) (option Address.codec)).iso
    (fun r => (r.txHash, r.blockHash, r.blockHeight, r.gasUsed, r.status, r.logs, r.contractAddress))
    (fun (t, b, n, g, s, l, c) => ⟨t, b, n, g, s, l, c⟩)
    (fun _ => rfl) (fun _ => rfl)

theorem Receipt.encode_ne_nil (r : Receipt) : Receipt.codec.encode r ≠ [] :=
  List.ne_nil_of_length_pos (by simp [Receipt.codec])

/-! ## Hashes -/

/-- `blake3::hash`. -/
class Blake3 where
  hash : Bytes → Hash

/-- No two different byte strings among `inputs` share a digest. -/
def CollisionFree [Blake3] (inputs : List Bytes) : Prop :=
  ∀ x ∈ inputs, ∀ y ∈ inputs, Blake3.hash x = Blake3.hash y → x = y

instance [Blake3] (inputs : List Bytes) : Decidable (CollisionFree inputs) :=
  inferInstanceAs (Decidable (∀ x ∈ inputs, ∀ y ∈ inputs, Blake3.hash x = Blake3.hash y → x = y))

theorem CollisionFree.mono [Blake3] {inputs more : List Bytes} (h : CollisionFree more)
    (hsub : inputs ⊆ more) : CollisionFree inputs :=
  fun x hx y hy e => h x (hsub hx) y (hsub hy) e

theorem CollisionFree.append_mono [Blake3] {l l' m m' : List Bytes} (h : CollisionFree (l' ++ m')) (hl : l ⊆ l')
    (hm : m ⊆ m') : CollisionFree (l ++ m) :=
  h.mono (List.append_subset.mpr ⟨List.subset_append_of_subset_left _ hl, List.subset_append_of_subset_right _ hm⟩)

section
variable [Blake3]

/-- `Hash::from_data` (lib.rs:35). -/
def Hash.fromData (data : Bytes) : Hash := Blake3.hash data

/-- `BlockHeader::hash` (lib.rs:137). -/
def BlockHeader.hash (h : BlockHeader) : Hash := Hash.fromData (BlockHeader.codec.encode h)

/-- `Transaction::hash` (lib.rs:187): the identity of a transaction, over its signed encoding. -/
def Transaction.hash (t : Transaction) : Hash := Hash.fromData (Transaction.codec.encode t)

/-- `Block::hash` (lib.rs:255). -/
def Block.hash (b : Block) : Hash := b.header.hash

/-- `tx_root_of` (lib.rs:271). -/
def txRootOf (txHashes : List Hash) : Hash :=
  Hash.fromData ((list Hash.codec Hash.encode_ne_nil).encode txHashes)

/-- `Block::tx_root` (lib.rs:260). -/
def Block.txRoot (b : Block) : Hash := txRootOf (b.transactions.map Transaction.hash)

/-- Distinct transactions whose encodings were hashed have distinct hashes. -/
theorem Transaction.hash_inj {s t : Transaction}
    (hcf : CollisionFree [Transaction.codec.encode s, Transaction.codec.encode t])
    (h : s.hash = t.hash) : s = t :=
  Transaction.encode_injective (hcf _ (by simp) _ (by simp) h)

/-- Lists of transactions whose encodings were hashed are determined by their hashes. -/
theorem Transaction.hashes_inj {ts us : List Transaction}
    (hcf : CollisionFree (ts.map Transaction.codec.encode ++ us.map Transaction.codec.encode))
    (h : ts.map Transaction.hash = us.map Transaction.hash) : ts = us := by
  induction ts generalizing us with
  | nil =>
    rw [List.map_nil, eq_comm, List.map_eq_nil_iff] at h
    exact h.symm
  | cons t ts ih =>
    obtain ⟨u, us, rfl, hhead, htail⟩ := List.map_eq_cons_iff.mp h.symm
    have hsame : t = u := Transaction.hash_inj (hcf.mono (by simp)) hhead.symm
    have hrest : ts = us :=
      ih (hcf.append_mono (List.subset_cons_self _ _) (List.subset_cons_self _ _)) htail.symm
    rw [hsame, hrest]

/-- The bytes hashed for the root of a block's transactions. -/
def Block.rootInputs (b : Block) : List Bytes :=
  (list Hash.codec Hash.encode_ne_nil).encode (b.transactions.map Transaction.hash) ::
    b.transactions.map Transaction.codec.encode

/-- The root of the transactions determines them. -/
theorem Block.transactions_eq_of_txRoot {b b' : Block} (hcf : CollisionFree (b.rootInputs ++ b'.rootInputs))
    (h : b.txRoot = b'.txRoot) : b.transactions = b'.transactions := by
  have hencoded := hcf _ (List.mem_append_left _ (List.mem_cons_self ..)) _
    (List.mem_append_right _ (List.mem_cons_self ..)) h
  have hhashes := encode_list_inj (k := 32) (by decide) (fun a => by simp) hencoded
  exact Transaction.hashes_inj (hcf.append_mono (List.subset_cons_self _ _) (List.subset_cons_self _ _)) hhashes

theorem BlockHeader.hash_inj {g h : BlockHeader}
    (hcf : CollisionFree [BlockHeader.codec.encode g, BlockHeader.codec.encode h])
    (e : g.hash = h.hash) : g = h :=
  BlockHeader.encode_injective (hcf _ (by simp) _ (by simp) e)

end

/-- A hash that can be evaluated: the low 32 bytes of the string read as a number in base 257. -/
@[reducible] def smallBlake3 : Blake3 where
  hash bytes := ⟨(leBytes hashSize (bytes.foldl (fun acc b => 257 * acc + b.toNat + 1) 0)).toArray, by simp⟩

/-! What stands for the functions of other libraries where something is evaluated. -/

namespace Concrete

scoped instance blake3 : Blake3 := smallBlake3

end Concrete

end Subhost
