import Subhost.Rpc.Clients
import Subhost.Rpc.Amid
/-!
# One account among the others (subhost-rpc/src/lib.rs:217-339, :675-694)

A client that sends for an account asks for its nonce and submits a transaction with it. While nobody else sends for the
account, its nonce and what it has sent stay as they are, and its balance does not sink: `Standing.Of`, which what others
do tolerates (`Standing.tolerates`).

`Amid.nonce` and `ensures_sendFor` are for the two requests. A transaction that was submitted is the account's next one in
the chain, or the node has refused it; and one that the account can pay for it refuses only because it cannot number or
store the block (`refused_of_executable`).
-/
namespace Subhost
open Uint Bincode Run Program JsonText RpcState

/-- The transactions of an account in a chain, oldest first. -/
def sentBy (a : Address) (blocks : List Block) : List Transaction := (blockTxs blocks).filter fun tx => tx.fromAddr = a

/-- What is known of an account: what it has sent, its nonce, a balance it has at least, and a bound on all
balances together. -/
structure Standing where
  sent : List Transaction
  nonce : Nat
  funds : Nat
  supply : Nat

namespace Standing

structure Of (a : Address) (p : Standing) (l : Ledger) : Prop where
  sent : sentBy a l.blocks = p.sent
  nonce : (l.state.nonce a).toNat = p.nonce
  funds : p.funds ≤ (l.state.balance a).toNat
  supply : l.state.supply ≤ p.supply

/-- The standing after one more transaction. -/
def next (p : Standing) (tx : Transaction) : Standing :=
  ⟨p.sent ++ [tx], p.nonce + 1, p.funds - (tx.value.toNat + tx.feeNat), p.supply⟩

/-- The account's next transaction is a plain transfer that it can pay for. -/
structure Payable (store : LedgerStore) (a : Address) (p : Standing) (tx : Transaction) : Prop where
  sender : tx.fromAddr = a
  chain : tx.chainId = store.chainId
  transfer : tx.txType = .transfer
  recipient : ∃ dst, tx.toAddr = some dst ∧ dst ≠ tx.fromAddr
  data : tx.data = []
  price : 1 ≤ tx.gasPrice.toNat
  gas : 0 < tx.gasLimit.toNat ∧ tx.gasLimit.toNat ≤ blockGasLimit.toNat
  nonce : tx.nonce.toNat = p.nonce
  last : p.nonce < 2 ^ 64 - 1
  funds : tx.value.toNat + tx.feeNat ≤ p.funds
  supply : p.supply < 2 ^ 128

/-- The standing of an account in a ledger. -/
def ofLedger (a : Address) (l : Ledger) : Standing :=
  ⟨sentBy a l.blocks, (l.state.nonce a).toNat, (l.state.balance a).toNat, l.state.supply⟩

theorem of_ofLedger (a : Address) (l : Ledger) : (ofLedger a l).Of a l := ⟨rfl, rfl, Nat.le_refl _, Nat.le_refl _⟩

section
variable [Blake3] {a : Address} {p : Standing} {l : Ledger} {tx : Transaction} {fee : Amount} {state : State} {block : Block}

theorem sentBy_extend (hblock : block.transactions = [tx]) :
    sentBy a (l.extend tx state block).blocks = sentBy a l.blocks ++ if tx.fromAddr = a then [tx] else [] := by
  rw [Ledger.extend, sentBy, blockTxs_append, hblock, List.filter_append]
  by_cases hsender : tx.fromAddr = a <;> simp [sentBy, hsender]

omit [Blake3] in
theorem Of.supply_le (h : p.Of a l) (happlied : l.state.applyTransaction tx = (.ok fee, state)) : state.supply ≤ p.supply := by
  have hle := State.supply_applyTransaction_le l.state tx
  rw [happlied] at hle
  exact hle.trans h.supply

/-- Somebody else's transaction leaves the account what it has. -/
theorem Of.other (h : p.Of a l) (hsender : tx.fromAddr ≠ a) (happlied : l.state.applyTransaction tx = (.ok fee, state))
    (hblock : block.transactions = [tx]) : p.Of a (l.extend tx state block) := by
  obtain ⟨dst, -, heffect⟩ := State.effect_of_ok happlied
  refine ⟨?_, ?_, ?_, h.supply_le happlied⟩
  · rw [sentBy_extend hblock, if_neg hsender, List.append_nil, h.sent]
  · have hnonce := State.nonce_of_effect heffect a
    rw [if_neg hsender] at hnonce
    exact hnonce.trans h.nonce
  · refine h.funds.trans (Nat.le_of_not_lt fun hloss => ?_)
    exact hsender (sender_of_spend happlied (.inl hloss))

/-- The account's own transaction is its next one. -/
theorem Of.own (h : p.Of a l) (hsender : tx.fromAddr = a) (happlied : l.state.applyTransaction tx = (.ok fee, state))
    (hblock : block.transactions = [tx]) : (p.next tx).Of a (l.extend tx state block) := by
  obtain ⟨dst, -, heffect⟩ := State.effect_of_ok happlied
  refine ⟨?_, ?_, ?_, h.supply_le happlied⟩
  · rw [sentBy_extend hblock, if_pos hsender, h.sent]
    rfl
  · have hnonce := State.nonce_of_effect heffect a
    rw [if_pos hsender] at hnonce
    exact hnonce.trans (congrArg (· + 1) h.nonce)
  · obtain ⟨acct, hacct, -, hpaid⟩ := heffect.sender
    have hfee := heffect.fee_eq
    have hbalance : (state.balance a).toNat = acct.balance.toNat := by
      rw [State.balance, ← hsender, hacct]
      rfl
    have hfunds := h.funds
    rw [hsender] at hpaid
    show p.funds - (tx.value.toNat + tx.feeNat) ≤ (state.balance a).toNat
    rw [hbalance]
    split at hpaid <;> omega

omit [Blake3] in
/-- A transfer that is paid for can be executed. -/
theorem Of.executable {store : LedgerStore} (h : p.Of a l) (hchain : l.state.chainId = store.chainId)
    (hpayable : p.Payable store a tx) : ∃ dst, l.state.Executable tx dst := by
  obtain ⟨rfl, hchainId, htransfer, ⟨dst, hdst, hother⟩, -, -, hgas, hnonce, hlast, hfunds, hsupply⟩ := hpayable
  have hbalance := h.funds
  have hall := h.supply
  have htwo := State.two_balances_le_supply l.state hother
  have hone := State.balance_le_supply l.state tx.fromAddr
  refine ⟨dst, hchainId.trans hchain.symm, hgas.1, ?_, by omega, htransfer, hdst, ?_⟩
  · exact BitVec.eq_of_toNat_eq (hnonce.trans h.nonce.symm)
  · exact ⟨by omega, by omega, by omega, fun _ => by omega⟩

end
end Standing

/-! ## What is signed -/

/-- A transfer with its signature. -/
def SigningKey.transfer (key : SigningKey) (sender recipient : Address) (value gasPrice : Amount) (nonce : Nonce)
    (chainId : ChainId) : Transaction :=
  let unsigned := unsignedTransfer sender recipient value gasPrice nonce chainId
  { unsigned with signature := .fromEd25519 (key.sign unsigned.signingPayload) }

/-- A request to send is small, and all text. -/
theorem small_sendParams (tx : Transaction) (recipient : Address) {gasPrice : String} (hprice : quotedBytes gasPrice ≤ 100)
    (publicKey : Vector UInt8 32) (signature : Vector UInt8 64) :
    (sendParams tx recipient gasPrice publicKey signature).Integral ∧
      (sendParams tx recipient gasPrice publicKey signature).weight ≤ 200000 := by
  refine ⟨by simp [sendParams], ?_⟩
  have hempty : quotedBytes "0x" = 4 := by decide +kernel
  have := quotedBytes_u128 tx.value
  have := quotedBytes_u64 tx.nonce
  have := quotedBytes_u64 tx.gasLimit
  have := quotedBytes_u64 tx.chainId
  have haddress : ∀ a : Address, a.toList.length = 20 := fun _ => Vector.length_toList
  have harray : ∀ j : Json, (Json.array [j]).weight = j.weight + 3 := fun j => by simp [Json.weight, Json.weightItems]
  rw [sendParams, harray]
  refine (Nat.add_le_add_right (weight_object_le (by simp [memberNames])) 3).trans ?_
  simp only [List.map_cons, List.map_nil, List.sum_cons, List.sum_nil, Json.weight, quotedBytes_displayBytes,
    haddress, Vector.length_toList, hempty]
  omega

section
variable [Blake3]

/-- What is read as this transaction, key and signature is let through as the signed transaction, if the signature
verifies. -/
theorem signedTransaction_of_readAs [Ed25519] {params : Json} {chainId : ChainId} {tx : Transaction}
    {publicKey : Vector UInt8 32} {signature : Vector UInt8 64} (h : ReadAs params chainId tx publicKey signature) :
    signedTransaction params chainId = (verifyTransactionSignature tx publicKey signature).map fun _ =>
      { tx with signature := .fromEd25519 signature } := by
  obtain ⟨request, hone, hparsed, hkey, hsignature⟩ := h
  cases hverified : verifyTransactionSignature tx publicKey signature <;>
    simp [signedTransaction, hone, hparsed, hkey, hsignature, hverified, bind, Except.bind, pure, Except.pure, Except.map]

end

/-! ## The node -/

/-- Others neither set balances nor send for the account. -/
def Foreign (a : Address) : RpcState.Event → Prop
  | .seed _ => False
  | .commit (.submit tx _ _) => tx.fromAddr ≠ a
  | .commit (.includeTx ..) | .write | .read .. => True

section
variable [Blake3]

theorem Standing.tolerates (a : Address) (p : Standing) : Tolerates (Foreign a) (p.Of a) where
  seeded _ _ hforeign := hforeign.elim
  committed _ _ _ _ _ _ _ hforeign h happlied hblock := h.other hforeign happlied hblock

variable {store : LedgerStore} {a : Address} {p : Standing} {n : Node}

theorem Amid.nonce (h : Amid store (p.Of a) n) : (n.memory.state.nonce a).toNat = p.nonce := by
  obtain ⟨l, hl, hstate⟩ := h.state
  rw [← hstate, hl.nonce]

theorem Amid.sent (h : Amid store (p.Of a) n) : sentBy a n.memory.blocks = p.sent := by
  obtain ⟨l, hl, hblocks⟩ := h.blocks
  rw [← hblocks, hl.sent]

/-! ## What the node refuses -/

/-- The node could not number the block or not store it. -/
def RpcError.OwnFault (e : RpcError) : Prop := e = .internal ∨ ∃ message, e = .persistence message

theorem sealNextBlock_refused {s : RpcState} {txHash : Hash} {tx : Transaction} {fee : Amount} {state : State}
    (hget : s.mempool.get txHash = some tx) (hgas : tx.gasLimit.toNat ≤ blockGasLimit.toNat)
    (happlied : s.state.applyTransaction tx = (.ok fee, state)) {d : Disk} {now : Timestamp} {fault : Option Fault}
    {e : RpcError} (h : (s.sealNextBlock d txHash now fault).1 = .error e) : e.OwnFault := by
  have hfits : ¬ blockGasLimit < tx.gasLimit := by
    rw [lt_iff_toNat]
    exact Nat.not_lt.mpr hgas
  unfold sealNextBlock at h
  cases hprepared : s.prepareBlock txHash now with
  | error e' =>
    rw [hprepared] at h
    obtain rfl := Except.error.inj h
    rw [prepareBlock, hget] at hprepared
    dsimp only at hprepared
    rw [if_neg hfits, happlied] at hprepared
    dsimp only at hprepared
    split at hprepared
    · exact .inl (Except.error.inj hprepared).symm
    · cases hprepared
  | ok c =>
    rw [hprepared] at h
    dsimp only [persist] at h
    split at h
    · rename_i hwrite
      obtain rfl := Except.error.inj h
      split at hwrite
      · cases hwrite
        exact .inr ⟨_, rfl⟩
      · cases hwrite
    · cases h

/-- A transfer that can be executed is refused only because of the block. -/
theorem refused_of_executable {s : RpcState} (hpool : s.mempool = Mempool.default) {tx : Transaction} {dst : Address}
    (hdata : tx.data = []) (hprice : 1 ≤ tx.gasPrice.toNat) (hgas : tx.gasLimit.toNat ≤ blockGasLimit.toNat)
    (hexecutable : s.state.Executable tx dst) {d : Disk} {now : Timestamp} {fault : Option Fault} {e : RpcError}
    (h : (s.submitTransaction d tx now fault).1 = .error e) : e.OwnFault := by
  obtain ⟨fee, state, happlied, -⟩ := State.applyTransaction_of_executable hexecutable
  have hcheck : Mempool.checkTx MempoolConfig.default tx = .ok () := by
    have hcost : tx.totalCost ≠ none := by
      intro hnone
      have := Transaction.totalCost_eq_none.mp hnone
      have := hexecutable.funded.cost_fits
      omega
    have hsome : tx.gasLimit ≠ 0 := by
      intro hzero
      have := hexecutable.gas
      rw [hzero] at this
      exact absurd this (by decide)
    have hmin : ¬ tx.gasPrice < MempoolConfig.default.minGasPrice := by
      rw [lt_iff_toNat]
      exact Nat.not_lt.mpr hprice
    rw [Mempool.checkTx, if_neg hsome, if_neg hmin, if_neg hcost]
  -- the pool is empty, so of all that an admission can come to only one is left
  have hadmitted : s.mempool.admitTx tx = (.ok ⟨tx.hash, true, none⟩, Mempool.default.place tx.hash tx) := by
    rw [hpool]
    have houtcome := Mempool.consistent_default.outcome tx
    generalize Mempool.default.admitTx tx = outcome at houtcome ⊢
    have hnone : ∀ hash, Mempool.default.get hash = none := by simp [Mempool.default, Mempool.get]
    cases houtcome with
    | refused _ why =>
      have hwidth := (why (by rw [hdata]; exact Nat.zero_le _) hcheck).2
      exact absurd hwidth (by simp [Mempool.default, Nested.width, MempoolConfig.default])
    | outbid hget => cases (hnone _).symm.trans hget
    | pending hget => cases (hnone _).symm.trans hget
    | fresh => rfl
    | evicting _ _ hfull => exact absurd hfull (by simp [Mempool.default, MempoolConfig.default])
    | replacing _ hget => cases (hnone _).symm.trans hget
  unfold submitTransaction at h
  dsimp only at h
  rw [hadmitted] at h
  dsimp only at h
  rw [if_neg (by decide)] at h
  split at h
  · cases h
  · rename_i hseal
    obtain rfl := Except.error.inj h
    exact sealNextBlock_refused (s := s.withPool (Mempool.default.place tx.hash tx)) (Mempool.get_place ..) hgas happlied
      (congrArg Prod.fst hseal)

/-! ## The requests -/

/-- A turn in which others leave the account alone. -/
def Undisturbed (reliable : Prop) (a : Address) (turn : Turn RpcState.Event Choice) : Prop :=
  Reliably reliable turn ∧ ∀ e ∈ turn.before, Foreign a e

theorem Undisturbed.others {reliable : Prop} (turn : Turn RpcState.Event Choice) (n : Node) (hturn : Undisturbed reliable a turn)
    (h : Amid store (p.Of a) n) : Amid store (p.Of a) (world.others n turn.before) :=
  Amid.others (p.tolerates a) h hturn.2

/-- **Sending for an account**: the transaction is its next one, or the node has refused it. -/
theorem ensures_sendFor [Ed25519] {reliable : Prop} {params : Json}
    (hsender : ∀ tx, signedTransaction params store.chainId = .ok tx → tx.fromAddr = a) :
    world.Ensures (Undisturbed reliable a) (Amid store (p.Of a)) (ethSendTransaction params).run
      (Setting.OkThen
        (fun e n => Amid store (p.Of a) n ∧
          ∀ tx, signedTransaction params store.chainId = .ok tx → p.Payable store a tx → e.OwnFault)
        fun value n => ∃ tx, signedTransaction params store.chainId = .ok tx ∧
          value = .string (displayBytes tx.hash.toList) ∧ Amid store ((p.next tx).Of a) n) := by
  refine ensures_send (p.tolerates a) (fun _ ht => ht.2) ?_ ?_
  · exact fun tx htx l fee state block hl happlied hblock => hl.own (hsender tx htx) happlied hblock
  · intro tx _ s d now fault e hsane hpool hholds he hpayable
    obtain ⟨dst, hexecutable⟩ := hholds.executable hsane.wf.chain hpayable
    exact refused_of_executable hpool hpayable.data hpayable.price hpayable.gas.2 hexecutable he

end
end Subhost
