import Subhost.Core.Encoding
/-!
# Account world state (subhost-state/src/lib.rs)

`State` maps addresses to accounts. A method that takes `&mut self` is a function returning its
result together with the state it leaves behind, on an error too: an early `return Err(..)`
keeps whatever was written before it, so that atomicity is something to prove.
-/
namespace Subhost
open Uint Bincode Codec

/-- `Account` (lib.rs:12); its default is the all-zero account. -/
structure Account where
  nonce : Nonce
  balance : Amount
deriving DecidableEq

def Account.default : Account := ⟨0, 0⟩

/-- `State` (lib.rs:25). -/
structure State where
  accounts : Map Address Account
  chainId : ChainId

inductive StateError where
  | insufficientBalance (address : Address) (have_ want : Amount)
  | invalidNonce (address : Address) (expected got : Nonce)
  | chainMismatch (expected got : ChainId)
  | invalidTransaction (message : String)
  | invalidSnapshot (message : String)
  | unsupportedTransactionType (txType : TransactionType)
  | balanceOverflow (address : Address)
deriving DecidableEq

/-- `impl Display for StateError` (lib.rs:220-241). -/
def StateError.display : StateError → String
  | .insufficientBalance a h w =>
    "insufficient balance for " ++ displayBytes a.toList ++ ": have " ++ toString h.toNat ++ ", want " ++
      toString w.toNat
  | .invalidNonce a e g =>
    "invalid nonce for " ++ displayBytes a.toList ++ ": expected " ++ toString e.toNat ++ ", got " ++
      toString g.toNat
  | .chainMismatch e g =>
    "transaction chain ID " ++ toString g.toNat ++ " does not match state chain ID " ++ toString e.toNat
  | .invalidTransaction m => "invalid transaction: " ++ m
  | .invalidSnapshot m => "invalid state snapshot: " ++ m
  | .unsupportedTransactionType t =>
    "transaction type " ++ t.display ++ " is not supported by this state backend"
  | .balanceOverflow a => "balance overflow for " ++ displayBytes a.toList

namespace State

/-- `State::with_chain_id` (lib.rs:42). -/
def withChainId (chainId : ChainId) : State := ⟨∅, chainId⟩

/-- `State::account`. -/
def account (s : State) (a : Address) : Option Account := s.accounts[a]?

/-- `State::balance` (lib.rs:64). -/
def balance (s : State) (a : Address) : Amount := (s.account a).elim 0 Account.balance

/-- `State::nonce` (lib.rs:72). -/
def nonce (s : State) (a : Address) : Nonce := (s.account a).elim 0 Account.nonce

/-- `accounts.entry(a).or_default()` read. -/
def entryOrDefault (s : State) (a : Address) : Account := (s.account a).getD .default

/-- `accounts.entry(a).or_default().balance = b`; this is also `State::set_balance` (lib.rs:60). -/
def setBalance (s : State) (a : Address) (b : Amount) : State :=
  { s with accounts := s.accounts.insert a ⟨(s.entryOrDefault a).nonce, b⟩ }

/-- `accounts.entry(a).or_default().nonce = n`. -/
def setNonce (s : State) (a : Address) (n : Nonce) : State :=
  { s with accounts := s.accounts.insert a ⟨n, (s.entryOrDefault a).balance⟩ }

/-- `State::credit` (lib.rs:51). The entry is created before the addition is checked. -/
def credit (s : State) (a : Address) (amount : Amount) : Except StateError Unit × State :=
  let entry := s.entryOrDefault a
  let s := { s with accounts := s.accounts.insert a entry }
  match checkedAdd entry.balance amount with
  | none => (.error (.balanceOverflow a), s)
  | some b => (.ok (), s.setBalance a b)

/-- `State::apply_transfer` (lib.rs:111). -/
def applyTransfer (s : State) (src dst : Address) (value : Amount) : Except StateError Unit × State :=
  let fromBalance := s.balance src
  if fromBalance < value then (.error (.insufficientBalance src fromBalance value), s)
  else if src = dst then (.ok (), s)
  else
    match checkedAdd (s.balance dst) value with
    | none => (.error (.balanceOverflow dst), s)
    | some credited => (.ok (), (s.setBalance src (fromBalance - value)).setBalance dst credited)

/-- `State::ensure_balance` (lib.rs:195). -/
def ensureBalance (s : State) (a : Address) (amount : Amount) : Except StateError Unit :=
  let held := s.balance a
  if held < amount then .error (.insufficientBalance a held amount) else .ok ()

/-- `State::debit` (lib.rs:203). -/
def debit (s : State) (a : Address) (amount : Amount) : Except StateError Unit × State :=
  let held := s.balance a
  if held < amount then (.error (.insufficientBalance a held amount), s)
  else (.ok (), s.setBalance a (held - amount))

/-- The `TransactionType::Transfer` arm of `apply_transaction` (lib.rs:174-186). -/
def executeTransfer (s : State) (tx : Transaction) (fee : Amount) : Except StateError Unit × State :=
  match tx.toAddr with
  | none => (.error (.invalidTransaction "transfer requires a destination"), s)
  | some dst =>
    match tx.totalCost with
    | none => (.error (.invalidTransaction "transaction cost overflows"), s)
    | some total =>
      match s.ensureBalance tx.fromAddr total with
      | .error e => (.error e, s)
      | .ok () =>
        match s.applyTransfer tx.fromAddr dst tx.value with
        | (.error e, s) => (.error e, s)
        | (.ok (), s) => s.debit tx.fromAddr fee

/-- `State::apply_transaction` (lib.rs:147). -/
def applyTransaction (s : State) (tx : Transaction) : Except StateError Amount × State :=
  if tx.chainId ≠ s.chainId then (.error (.chainMismatch s.chainId tx.chainId), s)
  else if tx.gasLimit = 0 then (.error (.invalidTransaction "gas limit must be > 0"), s)
  else if tx.nonce ≠ s.nonce tx.fromAddr then
    (.error (.invalidNonce tx.fromAddr (s.nonce tx.fromAddr) tx.nonce), s)
  else
    match checkedAdd tx.nonce 1 with
    | none => (.error (.invalidTransaction "transaction nonce overflow"), s)
    | some nextNonce =>
      match tx.fee with
      | none => (.error (.invalidTransaction "transaction fee overflows"), s)
      | some fee =>
        match tx.txType with
        | .transfer =>
          match s.executeTransfer tx fee with
          | (.error e, s) => (.error e, s)
          | (.ok (), s) => (.ok fee, s.setNonce tx.fromAddr nextNonce)
        | other => (.error (.unsupportedTransactionType other), s)

end State

/-! ## Snapshots and the state root -/

/-- `StateSnapshot` (lib.rs:215). -/
structure StateSnapshot where
  chainId : ChainId
  accounts : List (Address × Account)
deriving DecidableEq

def Account.codec : Codec Account :=
  (pair u64 u128).iso (fun a => (a.nonce, a.balance)) (fun p => ⟨p.1, p.2⟩) (fun _ => rfl) (fun _ => rfl)

theorem accountEntry_encode_ne_nil (p : Address × Account) : (pair Address.codec Account.codec).encode p ≠ [] :=
  List.ne_nil_of_length_pos (by simp [Account.codec])

def StateSnapshot.codec : Codec StateSnapshot :=
  (pair u64 (list (pair Address.codec Account.codec) accountEntry_encode_ne_nil)).iso
    (fun s => (s.chainId, s.accounts)) (fun p => ⟨p.1, p.2⟩) (fun _ => rfl) (fun _ => rfl)

/-- Every account takes 44 bytes, so that the encoding determines the snapshot however many there are. -/
theorem StateSnapshot.encode_injective : Function.Injective StateSnapshot.codec.encode := by
  intro p q h
  have hwidth : ∀ e : Address × Account, ((pair Address.codec Account.codec).encode e).length = 44 := by
    intro e
    simp [Account.codec]
  simp only [StateSnapshot.codec, encode_iso, encode_pair] at h
  obtain ⟨hchain, haccounts⟩ := (readsBack_u64 _).append_inj (readsBack_u64 _) h
  have haccounts := encode_list_inj (by decide) hwidth haccounts
  cases p
  cases q
  simp_all

namespace State

/-- `State::snapshot` (lib.rs:81): the entries, sorted by address. -/
def snapshot (s : State) : StateSnapshot := ⟨s.chainId, sortByKey Prod.fst s.accounts.toList⟩

/-- The loop of `from_snapshot`: `HashMap::insert` reports a key it already held. -/
def collectAccounts : Map Address Account → List (Address × Account) → Except StateError (Map Address Account)
  | m, [] => .ok m
  | m, (a, acct) :: rest =>
    if (m[a]?).isSome then .error (.invalidSnapshot "snapshot contains duplicate accounts")
    else collectAccounts (m.insert a acct) rest

/-- `State::from_snapshot` (lib.rs:90). -/
def fromSnapshot (p : StateSnapshot) : Except StateError State :=
  if p.chainId = 0 then .error (.invalidSnapshot "chain ID cannot be zero")
  else
    match collectAccounts ∅ p.accounts with
    | .error e => .error e
    | .ok accounts => .ok ⟨accounts, p.chainId⟩

/-- `State::root` (lib.rs:106): the commitment used as a block's `state_root`. -/
def root [Blake3] (s : State) : Hash := Hash.fromData (StateSnapshot.codec.encode s.snapshot)

end State

/-! ## Look-ups after one write -/

namespace State

theorem ext_account {s t : State} (hc : s.chainId = t.chainId) (h : ∀ a, s.account a = t.account a) :
    s = t := by
  obtain ⟨m, c⟩ := s
  obtain ⟨n, d⟩ := t
  have hmn : m = n := Map.ext_get h
  simp_all

@[simp] theorem chainId_setBalance (s : State) (a : Address) (b : Amount) :
    (s.setBalance a b).chainId = s.chainId := rfl

@[simp] theorem chainId_setNonce (s : State) (a : Address) (n : Nonce) :
    (s.setNonce a n).chainId = s.chainId := rfl

theorem account_setBalance_self (s : State) (a : Address) (b : Amount) :
    (s.setBalance a b).account a = some ⟨s.nonce a, b⟩ := by
  have hentry : (s.entryOrDefault a).nonce = s.nonce a := by
    unfold entryOrDefault nonce
    cases s.account a <;> rfl
  unfold account setBalance
  rw [Map.get_insert_self, hentry]

theorem account_setBalance_ne (s : State) {a x : Address} (b : Amount) (h : a ≠ x) :
    (s.setBalance a b).account x = s.account x := Map.get_insert_ne _ _ h

theorem account_setNonce_self (s : State) (a : Address) (n : Nonce) :
    (s.setNonce a n).account a = some ⟨n, s.balance a⟩ := by
  have hentry : (s.entryOrDefault a).balance = s.balance a := by
    unfold entryOrDefault balance
    cases s.account a <;> rfl
  unfold account setNonce
  rw [Map.get_insert_self, hentry]

theorem account_setNonce_ne (s : State) {a x : Address} (n : Nonce) (h : a ≠ x) :
    (s.setNonce a n).account x = s.account x := Map.get_insert_ne _ _ h

@[simp] theorem balance_setBalance_self (s : State) (a : Address) (b : Amount) :
    (s.setBalance a b).balance a = b := by
  rw [balance, account_setBalance_self]; rfl

theorem balance_setBalance_ne (s : State) {a x : Address} (b : Amount) (h : a ≠ x) :
    (s.setBalance a b).balance x = s.balance x := by
  rw [balance, account_setBalance_ne s b h, balance]

/-- Writing a balance keeps every nonce. -/
@[simp] theorem nonce_setBalance (s : State) (a x : Address) (b : Amount) :
    (s.setBalance a b).nonce x = s.nonce x := by
  by_cases h : a = x
  · subst h
    rw [nonce, account_setBalance_self]; rfl
  · rw [nonce, account_setBalance_ne s b h, nonce]

/-- Writing a nonce keeps every balance. -/
@[simp] theorem balance_setNonce (s : State) (a x : Address) (n : Nonce) :
    (s.setNonce a n).balance x = s.balance x := by
  by_cases h : a = x
  · subst h
    rw [balance, account_setNonce_self]; rfl
  · rw [balance, account_setNonce_ne s n h, balance]

@[simp] theorem nonce_setNonce_self (s : State) (a : Address) (n : Nonce) :
    (s.setNonce a n).nonce a = n := by
  rw [nonce, account_setNonce_self]; rfl

end State
end Subhost
