import Subhost.Storage.Store
/-!
# Canonical encodings are self-delimiting (subhost-core/src/lib.rs:195, :310)

Every hash commitment and every signature is over the output of `encode_canonical`. A value is read
back from its encoding whatever follows it, so that the boundaries between nested vectors, options and
enumerations are never ambiguous, and a signing payload determines every field but the signature.

The one condition is that each vector inside the value has a `usize` length (`Fits`), which every
vector of a 64-bit machine has; the length of the whole encoding does not matter.
-/
namespace Subhost
open Uint Bincode Codec

/-! ## Vectors with a machine length -/

def Transaction.Fits (t : Transaction) : Prop := t.data.length < 2 ^ 64
def BlockHeader.Fits (h : BlockHeader) : Prop := h.extraData.length < 2 ^ 64
def ValidatorSignature.Fits (s : ValidatorSignature) : Prop := s.signature.length < 2 ^ 64
def Log.Fits (l : Log) : Prop := l.topics.length < 2 ^ 64 ∧ l.data.length < 2 ^ 64
def StateSnapshot.Fits (p : StateSnapshot) : Prop := p.accounts.length < 2 ^ 64

structure Block.Fits (b : Block) : Prop where
  header : b.header.Fits
  transactions_len : b.transactions.length < 2 ^ 64
  transactions : ∀ t ∈ b.transactions, t.Fits
  signatures_len : b.signatures.length < 2 ^ 64
  signatures : ∀ s ∈ b.signatures, s.Fits

structure Receipt.Fits (r : Receipt) : Prop where
  logs_len : r.logs.length < 2 ^ 64
  logs : ∀ l ∈ r.logs, l.Fits

structure LedgerSnapshot.Fits (p : LedgerSnapshot) : Prop where
  state : p.state.Fits
  blocks_len : p.blocks.length < 2 ^ 64
  blocks : ∀ b ∈ p.blocks, b.Fits
  receipts_len : p.receipts.length < 2 ^ 64
  receipts : ∀ r ∈ p.receipts, r.Fits

/-! ## Reading back, type by type -/

theorem TransactionSignature.readsBack (s : TransactionSignature) : TransactionSignature.codec.ReadsBack s :=
  .iso (.pair (readsBack_array (by decide) _) (.pair (readsBack_array (by decide) _) (readsBack_u8 _)))

theorem Transaction.Fits.readsBack {t : Transaction} (h : t.Fits) : Transaction.codec.ReadsBack t :=
  .iso <| .pair (.iso (readsBack_variant _ _ _)) <| .pair (readsBack_u64 _) <| .pair t.fromAddr.readsBack <|
    .pair (Address.readsBack_option _) <| .pair (readsBack_u128 _) <| .pair (readsBack_u128 _) <|
    .pair (readsBack_u64 _) <| .pair (readsBack_bytes h) <| .pair (readsBack_u64 _) t.signature.readsBack

theorem BlockHeader.Fits.readsBack {h : BlockHeader} (hh : h.Fits) : BlockHeader.codec.ReadsBack h :=
  .iso <| .pair (readsBack_u32 _) <| .pair (readsBack_u64 _) <| .pair (readsBack_u64 _) <| .pair (readsBack_u64 _) <|
    .pair h.parentHash.readsBack <| .pair h.stateRoot.readsBack <| .pair h.txRoot.readsBack <|
    .pair h.receiptRoot.readsBack <| .pair h.validator.readsBack <| .pair (readsBack_u64 _) <|
    .pair (readsBack_u64 _) (readsBack_bytes hh)

theorem ValidatorSignature.Fits.readsBack {s : ValidatorSignature} (h : s.Fits) :
    ValidatorSignature.codec.ReadsBack s :=
  .iso (.pair s.validator.readsBack (readsBack_bytes h))

theorem Block.Fits.readsBack {b : Block} (h : b.Fits) : Block.codec.ReadsBack b :=
  .iso <| .pair h.header.readsBack <| .pair (.list h.transactions_len fun t ht => (h.transactions t ht).readsBack)
    (.list h.signatures_len fun s hs => (h.signatures s hs).readsBack)

theorem Log.Fits.readsBack {l : Log} (h : l.Fits) : Log.codec.ReadsBack l :=
  .iso <| .pair l.address.readsBack <| .pair (.list h.1 fun t _ => t.readsBack) (readsBack_bytes h.2)

theorem Receipt.Fits.readsBack {r : Receipt} (h : r.Fits) : Receipt.codec.ReadsBack r :=
  .iso <| .pair r.txHash.readsBack <| .pair r.blockHash.readsBack <| .pair (readsBack_u64 _) <|
    .pair (readsBack_u64 _) <| .pair (.iso (readsBack_variant _ _ _)) <|
    .pair (.list h.logs_len fun l hl => (h.logs l hl).readsBack) (Address.readsBack_option _)

theorem StateSnapshot.Fits.readsBack {p : StateSnapshot} (h : p.Fits) : StateSnapshot.codec.ReadsBack p :=
  .iso <| .pair (readsBack_u64 _) <| .list h fun e _ =>
    .pair e.1.readsBack (.iso (.pair (readsBack_u64 _) (readsBack_u128 _)))

theorem LedgerSnapshot.Fits.readsBack {p : LedgerSnapshot} (h : p.Fits) : LedgerSnapshot.codec.ReadsBack p :=
  .iso <| .pair (readsBack_u64 _) <| .pair h.state.readsBack <|
    .pair (.list h.blocks_len fun b hb => (h.blocks b hb).readsBack)
      (.list h.receipts_len fun r hr => (h.receipts r hr).readsBack)

/-! ## What a signature commits to -/

/-- The two transactions agree on every field except the signature. -/
def Transaction.AgreeUnsigned (s t : Transaction) : Prop :=
  s.txType = t.txType ∧ s.nonce = t.nonce ∧ s.fromAddr = t.fromAddr ∧ s.toAddr = t.toAddr ∧ s.value = t.value ∧
    s.gasPrice = t.gasPrice ∧ s.gasLimit = t.gasLimit ∧ s.data = t.data ∧ s.chainId = t.chainId

theorem Transaction.agreeUnsigned_iff {s t : Transaction} :
    s.AgreeUnsigned t ↔ { s with signature := .empty } = { t with signature := .empty } := by
  simp [AgreeUnsigned]

theorem Transaction.signingPayload_eq_iff {s t : Transaction} (hs : s.Fits) (ht : t.Fits) :
    s.signingPayload = t.signingPayload ↔ s.AgreeUnsigned t := by
  rw [agreeUnsigned_iff]
  constructor
  · intro h
    have hs' : Fits { s with signature := .empty } := hs
    have ht' : Fits { t with signature := .empty } := ht
    exact hs'.readsBack.inj ht'.readsBack h
  · intro h
    exact congrArg Transaction.codec.encode h

/-- **Canonical encoding.** The encoding of a transaction, a block header, a state snapshot or a whole
ledger, followed by any bytes, is decoded to that value and those bytes; and the signing payloads of
two transactions are equal if and only if they agree on every field except the signature. -/
theorem canonical_encoding :
    (∀ t : Transaction, t.Fits → ∀ rest,
      Transaction.codec.decode (Transaction.codec.encode t ++ rest) = some (t, rest)) ∧
    (∀ h : BlockHeader, h.Fits → ∀ rest,
      BlockHeader.codec.decode (BlockHeader.codec.encode h ++ rest) = some (h, rest)) ∧
    (∀ p : StateSnapshot, p.Fits → ∀ rest,
      StateSnapshot.codec.decode (StateSnapshot.codec.encode p ++ rest) = some (p, rest)) ∧
    (∀ p : LedgerSnapshot, p.Fits → ∀ rest,
      LedgerSnapshot.codec.decode (LedgerSnapshot.codec.encode p ++ rest) = some (p, rest)) ∧
    ∀ s t : Transaction, s.Fits → t.Fits → (s.signingPayload = t.signingPayload ↔ s.AgreeUnsigned t) :=
  ⟨fun _ h => h.readsBack, fun _ h => h.readsBack, fun _ h => h.readsBack, fun _ h => h.readsBack,
    fun _ _ hs ht => Transaction.signingPayload_eq_iff hs ht⟩

/-- A call without a recipient and with 28 bytes of data. -/
def bareCall : Transaction := ⟨.transfer, 0, Address.zero, none, 0, 1, 1, List.replicate 28 0, 1, .empty⟩

/-- The same number of bytes with a recipient; the option tag tells them apart. -/
def zeroCall : Transaction := ⟨.transfer, 0, Address.zero, some Address.zero, 0, 1, 1, List.replicate 8 0, 1, .empty⟩

theorem canonical_encoding_calls :
    bareCall.signingPayload.length = zeroCall.signingPayload.length ∧
    bareCall.signingPayload ≠ zeroCall.signingPayload ∧
    ∀ rest, Transaction.codec.decode (Transaction.codec.encode bareCall ++ rest) = some (bareCall, rest) := by
  have hbare : bareCall.Fits := by
    unfold Transaction.Fits
    decide
  have hzero : zeroCall.Fits := by
    unfold Transaction.Fits
    decide
  obtain ⟨htx, -, -, -, hpayload⟩ := canonical_encoding
  refine ⟨by decide +kernel, fun h => ?_, htx bareCall hbare⟩
  obtain ⟨-, -, -, hto, -⟩ := (hpayload bareCall zeroCall hbare hzero).mp h
  cases hto

end Subhost
