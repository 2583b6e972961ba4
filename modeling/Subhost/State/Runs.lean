import Subhost.Lib.Run
import Subhost.State.Execute
import Mathlib.Data.List.Nodup
import Mathlib.Data.List.Range
/-!
# Whole runs of the account state: supply and nonces

`supply` is the exact sum of all balances. A run of `apply_transaction` calls loses exactly the
fees it reports (`supply_conserved`); as a balance is at most the supply, no credit overflows
while the supply fits in a `u128`.

The nonces of the transactions one sender gets applied are consecutive from the nonce the sender
started with, whatever else is interleaved: every other operation keeps every nonce.
-/
namespace Subhost
open Uint Run

namespace State

/-! ## Supply -/

/-- The sum of all balances, in unbounded integers. -/
def supply (s : State) : Nat := Map.sumOf (fun acct : Account => acct.balance.toNat) s.accounts

/-- The fee a call reports, 0 for a failed one. -/
def feeOf : Except StateError Amount → Nat
  | .ok fee => fee.toNat
  | .error _ => 0

theorem balance_toNat (s : State) (a : Address) :
    ((s.account a).map fun acct => acct.balance.toNat).getD 0 = (s.balance a).toNat := by
  unfold balance
  cases s.account a <;> rfl

theorem balance_le_supply (s : State) (a : Address) : (s.balance a).toNat ≤ s.supply := by
  rw [← balance_toNat]
  cases h : s.account a with
  | none => simp
  | some acct => exact Map.le_sumOf (fun acct : Account => acct.balance.toNat) h

/-- Two different accounts hold at most the supply together. -/
theorem two_balances_le_supply (s : State) {a b : Address} (hne : a ≠ b) :
    (s.balance a).toNat + (s.balance b).toNat ≤ s.supply := by
  cases ha : s.account a with
  | none =>
    have : (s.balance a).toNat = 0 := by rw [balance, ha]; rfl
    have := balance_le_supply s b
    omega
  | some x =>
    cases hb : s.account b with
    | none =>
      have : (s.balance b).toNat = 0 := by rw [balance, hb]; rfl
      have := balance_le_supply s a
      omega
    | some y =>
      rw [balance, balance, ha, hb]
      exact Map.add_le_sumOf (fun acct : Account => acct.balance.toNat) hne ha hb

/-- The account map after a successful transaction: two entries written, the sender's last. -/
theorem accounts_of_effect {s s' : State} {tx : Transaction} {dst : Address} {fee : Amount}
    (h : Effect s s' tx dst fee) (hne : dst ≠ tx.fromAddr) :
    ∃ sender recipient, s'.accounts = (s.accounts.insert dst recipient).insert tx.fromAddr sender ∧
      sender.balance.toNat + tx.value.toNat + fee.toNat = (s.balance tx.fromAddr).toNat ∧
      recipient.balance.toNat = (s.balance dst).toNat + tx.value.toNat := by
  obtain ⟨sender, hs, -, hbal⟩ := h.sender
  obtain ⟨recipient, hr, -, hrbal⟩ := h.recipient hne
  refine ⟨sender, recipient, ?_, by simpa [hne] using hbal, hrbal⟩
  apply Map.ext_get
  intro a
  by_cases ea : tx.fromAddr = a
  · subst ea; rw [Map.get_insert_self]; exact hs
  · by_cases ed : dst = a
    · subst ed; rw [Map.get_insert_ne _ _ ea, Map.get_insert_self]; exact hr
    · rw [Map.get_insert_ne _ _ ea, Map.get_insert_ne _ _ ed]
      exact h.frame a (Ne.symm ea) (Ne.symm ed)

theorem accounts_of_effect_self {s s' : State} {tx : Transaction} {fee : Amount}
    (h : Effect s s' tx tx.fromAddr fee) :
    ∃ sender, s'.accounts = s.accounts.insert tx.fromAddr sender ∧
      sender.balance.toNat + fee.toNat = (s.balance tx.fromAddr).toNat := by
  obtain ⟨sender, hs, -, hbal⟩ := h.sender
  refine ⟨sender, ?_, by simpa using hbal⟩
  apply Map.ext_get
  intro a
  by_cases ea : tx.fromAddr = a
  · subst ea; rw [Map.get_insert_self]; exact hs
  · rw [Map.get_insert_ne _ _ ea]
    exact h.frame a (Ne.symm ea) (Ne.symm ea)

/-- **One call**: what leaves the balances is exactly the reported fee. -/
theorem supply_applyTransaction (s : State) (tx : Transaction) :
    (s.applyTransaction tx).2.supply + feeOf (s.applyTransaction tx).1 = s.supply := by
  rcases h : s.applyTransaction tx with ⟨_ | fee, s'⟩
  · rw [(applyTransaction_error h).1]; rfl
  · obtain ⟨dst, -, heff⟩ := effect_of_ok h
    let f := fun acct : Account => acct.balance.toNat
    show s'.supply + fee.toNat = s.supply
    by_cases hself : dst = tx.fromAddr
    · subst hself
      obtain ⟨sender, hacc, hbal⟩ := accounts_of_effect_self heff
      have hsum := Map.sumOf_insert f s.accounts tx.fromAddr sender
      have hold := balance_toNat s tx.fromAddr
      unfold account at hold
      unfold supply
      rw [hacc]
      simp only [f] at hsum
      omega
    · obtain ⟨sender, recipient, hacc, hbal, hrec⟩ := accounts_of_effect heff hself
      have hsum₁ := Map.sumOf_insert f s.accounts dst recipient
      have hsum₂ := Map.sumOf_insert f (s.accounts.insert dst recipient) tx.fromAddr sender
      rw [Map.get_insert_ne _ _ hself] at hsum₂
      have hold₁ := balance_toNat s dst
      have hold₂ := balance_toNat s tx.fromAddr
      unfold account at hold₁ hold₂
      unfold supply
      rw [hacc]
      simp only [f] at hsum₁ hsum₂
      omega

/-- An overflow needs two accounts that hold `2 ^ 128` together. -/
theorem supply_of_overflows {s : State} {src dst : Address} {v : Amount} (h : Overflows s src dst v) :
    2 ^ 128 ≤ s.supply := by
  have htwo := two_balances_le_supply s h.distinct
  have hcov := h.covered
  have hexc := h.exceeds
  omega

/-- The fees of all successful calls of a run. -/
def totalFees (calls : List (Call State Transaction (Except StateError Amount))) : Nat :=
  (calls.map fun c => feeOf c.result).sum

theorem supply_run (s : State) (txs : List Transaction) :
    (final applyTransaction s txs).supply + totalFees (trace applyTransaction s txs) = s.supply := by
  have hrun := account_trace applyTransaction supply (fun _ => 0) (fun c => feeOf c.result)
    (fun s tx => (supply_applyTransaction s tx).symm) s txs
  simpa [totalFees] using hrun.symm

theorem supply_applyTransaction_le (s : State) (tx : Transaction) :
    (s.applyTransaction tx).2.supply ≤ s.supply :=
  Nat.le.intro (supply_applyTransaction s tx)

/-- **Supply conservation over whole runs.** After any run of `apply_transaction` calls the
balances plus the fees of the successful calls sum to what the balances summed to before; and a
run from a supply below `2 ^ 128` never meets a balance overflow. -/
theorem supply_conserved (s : State) (txs : List Transaction) :
    (final applyTransaction s txs).supply + totalFees (trace applyTransaction s txs) = s.supply ∧
    (s.supply < 2 ^ 128 → ∀ c ∈ trace applyTransaction s txs, ∀ a, c.result ≠ .error (.balanceOverflow a)) := by
  refine ⟨supply_run s txs, ?_⟩
  intro hfit c hc a hres
  -- the supply never grows, so it bounds every state of the run
  have hbound := trace_invariant applyTransaction (fun t => t.supply < 2 ^ 128)
    (fun t tx ht => lt_of_le_of_lt (supply_applyTransaction_le t tx) ht) hfit txs c hc
  have hcall := trace_step applyTransaction s txs c hc
  rw [hres] at hcall
  have hover := supply_of_overflows ((applyTransaction_error hcall).2 a rfl)
  omega

/-- An account that spends all it has on one payment and its fee. -/
theorem supply_conserved_payer :
    ((withChainId 1).setBalance (Vector.replicate addressSize 1) 21005).supply = 21005 ∧
    ∀ c ∈ trace applyTransaction ((withChainId 1).setBalance (Vector.replicate addressSize 1) 21005)
      [⟨.transfer, 0, Vector.replicate addressSize 1, some Address.zero, 5, 1, 21000, [], 1, .empty⟩],
      ∀ a, c.result ≠ .error (.balanceOverflow a) :=
  ⟨by decide +kernel, (supply_conserved _ _).2 (by decide +kernel)⟩

/-! ## Nonces -/

/-- The public mutators of the state, as one call. -/
inductive StateOp where
  | applyTransaction (tx : Transaction)
  | applyTransfer (src dst : Address) (value : Amount)
  | credit (a : Address) (amount : Amount)
  | setBalance (a : Address) (b : Amount)

/-- Runs one operation; a reported fee is dropped from the result. -/
def step (s : State) : StateOp → Except StateError Unit × State
  | .applyTransaction tx => ((s.applyTransaction tx).1.map fun _ => (), (s.applyTransaction tx).2)
  | .applyTransfer src dst v => s.applyTransfer src dst v
  | .credit a v => s.credit a v
  | .setBalance a b => (.ok (), s.setBalance a b)

/-- The transaction a call applied, if it was a successful `apply_transaction`. -/
def appliedTx : Call State StateOp (Except StateError Unit) → Option Transaction
  | ⟨_, .applyTransaction tx, .ok _, _⟩ => some tx
  | _ => none

/-- The transactions a run applied, in order. -/
def applied (s : State) (ops : List StateOp) : List Transaction := (trace step s ops).filterMap appliedTx

/-- The nonces sender `a` used in a list of transactions, in order. -/
def noncesOf (a : Address) (txs : List Transaction) : List Nat :=
  (txs.filter fun tx => tx.fromAddr = a).map fun tx => tx.nonce.toNat

theorem nonce_applyTransfer (s : State) (src dst : Address) (v : Amount) (a : Address) :
    (s.applyTransfer src dst v).2.nonce a = s.nonce a := by
  unfold applyTransfer
  dsimp only
  split
  · rfl
  · split
    · rfl
    · split <;> simp

theorem nonce_touch (s : State) (a x : Address) :
    nonce { s with accounts := s.accounts.insert a (s.entryOrDefault a) } x = s.nonce x := by
  unfold nonce entryOrDefault account
  by_cases h : a = x
  · subst h
    rw [Map.get_insert_self]
    cases s.accounts[a]? <;> rfl
  · rw [Map.get_insert_ne _ _ h]

theorem nonce_credit (s : State) (a : Address) (v : Amount) (x : Address) :
    (s.credit a v).2.nonce x = s.nonce x := by
  unfold credit
  dsimp only
  split
  · exact nonce_touch s a x
  · rw [nonce_setBalance]; exact nonce_touch s a x

/-- A successful transaction moves its sender's nonce on by one and keeps all others. -/
theorem nonce_of_effect {s s' : State} {tx : Transaction} {dst : Address} {fee : Amount}
    (h : Effect s s' tx dst fee) (a : Address) :
    (s'.nonce a).toNat = (s.nonce a).toNat + if tx.fromAddr = a then 1 else 0 := by
  by_cases hs : tx.fromAddr = a
  · subst hs
    obtain ⟨acct, hacct, hn, -⟩ := h.sender
    rw [nonce, hacct, if_pos rfl]
    exact hn
  · rw [if_neg hs, Nat.add_zero]
    by_cases hd : dst = a
    · subst hd
      obtain ⟨acct, hacct, hn, -⟩ := h.recipient (Ne.symm hs)
      rw [nonce, hacct]
      exact congrArg BitVec.toNat hn
    · rw [nonce, h.frame a (Ne.symm hs) (Ne.symm hd), ← nonce]

/-- **One call**: it either applies a transaction whose nonce was its sender's, and moves that
nonce on, or applies none and keeps every nonce. -/
theorem step_nonces (s : State) (op : StateOp) :
    (∃ tx, appliedTx ⟨s, op, (step s op).1, (step s op).2⟩ = some tx ∧ tx.nonce = s.nonce tx.fromAddr ∧
      ∀ a, ((step s op).2.nonce a).toNat = (s.nonce a).toNat + if tx.fromAddr = a then 1 else 0) ∨
    (appliedTx ⟨s, op, (step s op).1, (step s op).2⟩ = none ∧ ∀ a, (step s op).2.nonce a = s.nonce a) := by
  cases op with
  | applyTransaction tx =>
    rcases h : s.applyTransaction tx with ⟨e | fee, s'⟩
    · have hs := (applyTransaction_error h).1
      exact .inr (by simp [step, h, hs, Except.map, appliedTx])
    · obtain ⟨dst, hex, heff⟩ := effect_of_ok h
      refine .inl ⟨tx, by simp [step, h, Except.map, appliedTx], hex.nonce_eq, fun a => ?_⟩
      simpa [step, h] using nonce_of_effect heff a
  | applyTransfer src dst v => exact .inr ⟨rfl, nonce_applyTransfer s src dst v⟩
  | credit a v => exact .inr ⟨rfl, nonce_credit s a v⟩
  | setBalance a b => exact .inr ⟨rfl, fun x => nonce_setBalance s a x b⟩

/-- **Whole run**: the nonces a sender used are consecutive from the one it started with. -/
theorem noncesOf_applied (s : State) (ops : List StateOp) (a : Address) :
    ∃ k, noncesOf a (applied s ops) = List.range' (s.nonce a).toNat k := by
  induction ops generalizing s with
  | nil => exact ⟨0, rfl⟩
  | cons op ops ih =>
    obtain ⟨k, hk⟩ := ih (step s op).2
    rcases step_nonces s op with ⟨tx, happ, hn, hnext⟩ | ⟨happ, hnext⟩
    · have hcons : applied s (op :: ops) = tx :: applied (step s op).2 ops := by
        simp [applied, trace, happ]
      rw [hcons]
      rw [hnext a] at hk
      by_cases hs : tx.fromAddr = a
      · refine ⟨k + 1, ?_⟩
        rw [if_pos hs] at hk
        subst hs
        simpa [noncesOf, List.range'_succ, hn] using hk
      · refine ⟨k, ?_⟩
        rw [if_neg hs] at hk
        simpa [noncesOf, hs] using hk
    · refine ⟨k, ?_⟩
      have hsame : applied s (op :: ops) = applied (step s op).2 ops := by
        simp [applied, trace, happ]
      rw [hsame, hk, hnext a]

/-- Distinct nonces per sender make the transactions distinct. -/
theorem nodup_of_noncesOf {txs : List Transaction} (h : ∀ a, (noncesOf a txs).Nodup) : txs.Nodup := by
  rw [List.nodup_iff_count_le_one]
  intro tx
  have hfilter : (txs.filter fun t => t.fromAddr = tx.fromAddr).Nodup := (h tx.fromAddr).of_map _
  calc txs.count tx = (txs.filter fun t => t.fromAddr = tx.fromAddr).count tx :=
        (List.count_filter (by simp)).symm
    _ ≤ 1 := List.nodup_iff_count_le_one.mp hfilter tx

end State
end Subhost
