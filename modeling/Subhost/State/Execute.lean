import Subhost.State.Model
/-!
# What executing one transaction does (subhost-state/src/lib.rs:111-210)

`Executable s tx dst` is the exact condition under which `apply_transaction` succeeds and
`Effect s s' tx dst fee` is everything it then does. The three lemmas `executable_of_ok`,
`effect_of_ok` and `applyTransaction_error` are all that later proofs use of the function.

Atomicity rests on one fact: once `ensure_balance` has accepted `value + fee`, neither the
transfer nor the later `debit` can find too small a balance, so the only failure after
`ensure_balance` is the credit overflow, which `apply_transfer` reports before it writes.
-/
namespace Subhost
open Uint

namespace State

/-! ## The three helpers -/

/-- A credit of `v` from `src` that does not fit in the recipient's balance. -/
structure Overflows (s : State) (src dst : Address) (v : Amount) : Prop where
  distinct : src ≠ dst
  covered : v.toNat ≤ (s.balance src).toNat
  exceeds : 2 ^ 128 ≤ (s.balance dst).toNat + v.toNat

/-- A failed transfer wrote nothing, and only a real overflow is reported as one. -/
theorem applyTransfer_error {s s' : State} {src dst : Address} {v : Amount} {e : StateError}
    (h : s.applyTransfer src dst v = (.error e, s')) :
    s' = s ∧ ∀ a, e = .balanceOverflow a → Overflows s src a v := by
  unfold applyTransfer at h
  dsimp only at h
  split at h
  · cases h; exact ⟨rfl, nofun⟩
  · rename_i hcov
    split at h
    · cases h
    · rename_i hne
      split at h <;> cases h
      rename_i hover
      refine ⟨rfl, ?_⟩
      rintro a ⟨⟩
      rw [lt_iff_toNat] at hcov
      exact ⟨hne, by omega, checkedAdd_eq_none.mp hover⟩

theorem applyTransfer_self {s : State} {src : Address} {v : Amount} (h : v.toNat ≤ (s.balance src).toNat) :
    s.applyTransfer src src v = (.ok (), s) := by
  unfold applyTransfer
  dsimp only
  rw [if_neg (by rw [lt_iff_toNat]; omega), if_pos rfl]

theorem applyTransfer_ok {s : State} {src dst : Address} {v credited : Amount}
    (h : v.toNat ≤ (s.balance src).toNat) (hne : src ≠ dst)
    (hc : credited.toNat = (s.balance dst).toNat + v.toNat) :
    s.applyTransfer src dst v =
      (.ok (), (s.setBalance src (s.balance src - v)).setBalance dst credited) := by
  unfold applyTransfer
  dsimp only
  rw [if_neg (by rw [lt_iff_toNat]; omega), if_neg hne, checkedAdd_eq_some.mpr hc]

theorem applyTransfer_overflow {s : State} {src dst : Address} {v : Amount}
    (h : v.toNat ≤ (s.balance src).toNat) (hne : src ≠ dst)
    (hc : 2 ^ 128 ≤ (s.balance dst).toNat + v.toNat) :
    s.applyTransfer src dst v = (.error (.balanceOverflow dst), s) := by
  unfold applyTransfer
  dsimp only
  rw [if_neg (by rw [lt_iff_toNat]; omega), if_neg hne, checkedAdd_eq_none.mpr hc]

theorem debit_ok {s : State} {a : Address} {v : Amount} (h : v.toNat ≤ (s.balance a).toNat) :
    s.debit a v = (.ok (), s.setBalance a (s.balance a - v)) := by
  unfold debit
  dsimp only
  rw [if_neg (by rw [lt_iff_toNat]; omega)]

theorem ensureBalance_ok {s : State} {a : Address} {v : Amount} :
    s.ensureBalance a v = .ok () ↔ v.toNat ≤ (s.balance a).toNat := by
  unfold ensureBalance
  dsimp only
  split
  · rename_i hlt
    rw [lt_iff_toNat] at hlt
    simp only [reduceCtorEq, false_iff]
    omega
  · rename_i hlt
    rw [lt_iff_toNat] at hlt
    simp only [true_iff]
    omega

/-! ## The transfer arm -/

/-- What the `Transfer` arm has written before the nonce is advanced. -/
def settled (s : State) (tx : Transaction) (dst : Address) (fee credited : Amount) : State :=
  if tx.fromAddr = dst then s.setBalance dst (s.balance dst - fee)
  else
    let moved := (s.setBalance tx.fromAddr (s.balance tx.fromAddr - tx.value)).setBalance dst credited
    moved.setBalance tx.fromAddr (s.balance tx.fromAddr - tx.value - fee)

/-- The funds conditions of a transfer to `dst`. -/
structure Funded (s : State) (tx : Transaction) (dst : Address) : Prop where
  fee_fits : tx.feeNat < 2 ^ 128
  cost_fits : tx.value.toNat + tx.feeNat < 2 ^ 128
  covered : tx.value.toNat + tx.feeNat ≤ (s.balance tx.fromAddr).toNat
  credit_fits : dst ≠ tx.fromAddr → (s.balance dst).toNat + tx.value.toNat < 2 ^ 128

theorem executeTransfer_ok {s : State} {tx : Transaction} {dst : Address} {fee credited : Amount}
    (hto : tx.toAddr = some dst) (hfee : tx.fee = some fee) (hf : Funded s tx dst)
    (hc : dst ≠ tx.fromAddr → credited.toNat = (s.balance dst).toNat + tx.value.toNat) :
    s.executeTransfer tx fee = (.ok (), s.settled tx dst fee credited) := by
  obtain ⟨hfit, hcost, hcov, -⟩ := hf
  have hfeeN := Transaction.fee_eq_some.mp hfee
  obtain ⟨total, htotal⟩ : ∃ total, tx.totalCost = some total := by
    cases ht : tx.totalCost with
    | none => have := Transaction.totalCost_eq_none.mp ht; omega
    | some t => exact ⟨t, rfl⟩
  have hens : s.ensureBalance tx.fromAddr total = .ok () :=
    ensureBalance_ok.mpr (by rw [Transaction.totalCost_eq_some.mp htotal]; exact hcov)
  unfold executeTransfer settled
  simp only [hto, htotal, hens]
  by_cases hself : tx.fromAddr = dst
  · -- a self-transfer moves nothing; only the fee is debited
    subst hself
    rw [applyTransfer_self (by omega), if_pos rfl]
    simp only
    rw [debit_ok (by omega)]
  · rw [applyTransfer_ok (by omega) hself (hc (Ne.symm hself)), if_neg hself]
    simp only
    have hbal : ((s.setBalance tx.fromAddr (s.balance tx.fromAddr - tx.value)).setBalance dst
        credited).balance tx.fromAddr = s.balance tx.fromAddr - tx.value := by
      rw [balance_setBalance_ne _ _ (Ne.symm hself), balance_setBalance_self]
    have hsub := toNat_sub_of_le (a := s.balance tx.fromAddr) (b := tx.value) (by omega)
    rw [debit_ok (by rw [hbal, hsub]; omega), hbal]

theorem executeTransfer_error {s s' : State} {tx : Transaction} {fee : Amount} {e : StateError}
    (hfee : tx.fee = some fee) (h : s.executeTransfer tx fee = (.error e, s')) :
    s' = s ∧ ∀ a, e = .balanceOverflow a → Overflows s tx.fromAddr a tx.value := by
  have hfeeN := Transaction.fee_eq_some.mp hfee
  unfold executeTransfer at h
  split at h
  · cases h; exact ⟨rfl, nofun⟩
  · rename_i dst hto
    split at h
    · cases h; exact ⟨rfl, nofun⟩
    · rename_i total htotal
      have htot := Transaction.totalCost_eq_some.mp htotal
      split at h
      · rename_i e' hens
        cases h
        refine ⟨rfl, ?_⟩
        rintro a rfl
        unfold ensureBalance at hens
        dsimp only at hens
        split at hens <;> cases hens
      · rename_i hens
        have hcov := ensureBalance_ok.mp hens
        split at h
        · rename_i e' s₁ htr
          cases h
          exact applyTransfer_error htr
        · -- the transfer went through: the debit cannot fail any more
          rename_i s₁ htr
          exfalso
          have hlt := total.isLt
          by_cases hself : tx.fromAddr = dst
          · subst hself
            rw [applyTransfer_self (by omega)] at htr
            cases htr
            rw [debit_ok (by omega)] at h
            cases h
          · by_cases hover : (s.balance dst).toNat + tx.value.toNat < 2 ^ 128
            · have hc : (BitVec.ofNat 128 ((s.balance dst).toNat + tx.value.toNat)).toNat
                  = (s.balance dst).toNat + tx.value.toNat := by
                rw [BitVec.toNat_ofNat]; exact Nat.mod_eq_of_lt hover
              have hok := executeTransfer_ok hto hfee
                ⟨by omega, by omega, by omega, fun _ => hover⟩ (fun _ => hc)
              unfold executeTransfer at hok
              simp only [hto, htotal, hens, htr] at hok
              rw [hok] at h
              cases h
            · rw [applyTransfer_overflow (by omega) hself (by omega)] at htr
              cases htr

theorem funded_of_executeTransfer {s s' : State} {tx : Transaction} {fee : Amount}
    (hfee : tx.fee = some fee) (h : s.executeTransfer tx fee = (.ok (), s')) :
    ∃ dst, tx.toAddr = some dst ∧ Funded s tx dst := by
  have hfeeN := Transaction.fee_eq_some.mp hfee
  have hfeeL := fee.isLt
  unfold executeTransfer at h
  split at h
  · cases h
  · rename_i dst hto
    split at h
    · cases h
    · rename_i total htotal
      have htot := Transaction.totalCost_eq_some.mp htotal
      have hlt := total.isLt
      split at h
      · cases h
      · rename_i hens
        have hcov := ensureBalance_ok.mp hens
        refine ⟨dst, hto, by omega, by omega, by omega, ?_⟩
        intro hne
        by_contra hover
        rw [applyTransfer_overflow (by omega) (Ne.symm hne) (by omega)] at h
        cases h

/-! ## The whole function -/

/-- The exact success condition of `apply_transaction`. -/
structure Executable (s : State) (tx : Transaction) (dst : Address) : Prop where
  chain : tx.chainId = s.chainId
  gas : 0 < tx.gasLimit.toNat
  nonce_eq : tx.nonce = s.nonce tx.fromAddr
  nonce_lt : tx.nonce.toNat < 2 ^ 64 - 1
  transfer : tx.txType = .transfer
  destination : tx.toAddr = some dst
  funded : Funded s tx dst

/-- Everything a successful `apply_transaction` does. -/
structure Effect (s s' : State) (tx : Transaction) (dst : Address) (fee : Amount) : Prop where
  fee_eq : fee.toNat = tx.feeNat
  chainId_eq : s'.chainId = s.chainId
  sender : ∃ acct, s'.account tx.fromAddr = some acct ∧
    acct.nonce.toNat = (s.nonce tx.fromAddr).toNat + 1 ∧
    acct.balance.toNat + (if dst = tx.fromAddr then 0 else tx.value.toNat) + fee.toNat
      = (s.balance tx.fromAddr).toNat
  recipient : dst ≠ tx.fromAddr → ∃ acct, s'.account dst = some acct ∧ acct.nonce = s.nonce dst ∧
    acct.balance.toNat = (s.balance dst).toNat + tx.value.toNat
  frame : ∀ a, a ≠ tx.fromAddr → a ≠ dst → s'.account a = s.account a

theorem account_settled_sender {s : State} {tx : Transaction} {dst : Address} {fee credited : Amount} :
    (s.settled tx dst fee credited).account tx.fromAddr = some ⟨s.nonce tx.fromAddr,
      if tx.fromAddr = dst then s.balance tx.fromAddr - fee
      else s.balance tx.fromAddr - tx.value - fee⟩ := by
  unfold settled
  by_cases hself : tx.fromAddr = dst
  · subst hself
    simp only [if_true]
    rw [account_setBalance_self]
  · simp only [hself, if_false]
    rw [account_setBalance_self, nonce_setBalance, nonce_setBalance]

theorem account_settled_recipient {s : State} {tx : Transaction} {dst : Address} {fee credited : Amount}
    (hne : tx.fromAddr ≠ dst) :
    (s.settled tx dst fee credited).account dst = some ⟨s.nonce dst, credited⟩ := by
  unfold settled
  simp only [hne, if_false]
  rw [account_setBalance_ne _ _ hne, account_setBalance_self, nonce_setBalance]

theorem account_settled_frame {s : State} {tx : Transaction} {dst a : Address} {fee credited : Amount}
    (hs : a ≠ tx.fromAddr) (hd : a ≠ dst) :
    (s.settled tx dst fee credited).account a = s.account a := by
  unfold settled
  split
  · exact account_setBalance_ne _ _ (Ne.symm hd)
  · simp only
    rw [account_setBalance_ne _ _ (Ne.symm hs), account_setBalance_ne _ _ (Ne.symm hd),
      account_setBalance_ne _ _ (Ne.symm hs)]

theorem chainId_settled (s : State) (tx : Transaction) (dst : Address) (fee credited : Amount) :
    (s.settled tx dst fee credited).chainId = s.chainId := by
  unfold settled
  split <;> rfl

/-- On an executable transaction the function succeeds, with exactly `Effect`. -/
theorem applyTransaction_of_executable {s : State} {tx : Transaction} {dst : Address}
    (h : Executable s tx dst) : ∃ fee s', s.applyTransaction tx = (.ok fee, s') ∧ Effect s s' tx dst fee := by
  obtain ⟨hchain, hgas, hnonce, hlt, htype, hto, hf⟩ := h
  obtain ⟨fee, hfee⟩ : ∃ fee, tx.fee = some fee := by
    cases hx : tx.fee with
    | none => have := Transaction.fee_eq_none.mp hx; have := hf.fee_fits; omega
    | some f => exact ⟨f, rfl⟩
  have hfeeN := Transaction.fee_eq_some.mp hfee
  obtain ⟨next, hnext, hnextN⟩ : ∃ n, checkedAdd tx.nonce 1 = some n ∧ n.toNat = tx.nonce.toNat + 1 := by
    cases hx : checkedAdd tx.nonce 1 with
    | none => have := checkedAdd_eq_none.mp hx; simp at this; omega
    | some n => exact ⟨n, rfl, by simpa using checkedAdd_eq_some.mp hx⟩
  let credited : Amount := BitVec.ofNat 128 ((s.balance dst).toNat + tx.value.toNat)
  have hcred : dst ≠ tx.fromAddr → credited.toNat = (s.balance dst).toNat + tx.value.toNat := by
    intro hne
    rw [BitVec.toNat_ofNat]
    exact Nat.mod_eq_of_lt (hf.credit_fits hne)
  have hgas0 : tx.gasLimit ≠ 0 := by
    rintro e; rw [e] at hgas; simp at hgas
  have hexec := executeTransfer_ok hto hfee hf hcred
  refine ⟨fee, (s.settled tx dst fee credited).setNonce tx.fromAddr next, ?_, hfeeN, ?_, ?_, ?_, ?_⟩
  · unfold applyTransaction
    rw [if_neg (by simp [hchain]), if_neg hgas0, if_neg (by simp [← hnonce])]
    simp only [hnext, hfee, htype, hexec]
  · rw [chainId_setNonce, chainId_settled]
  · refine ⟨_, account_setNonce_self _ _ _, by rw [← hnonce]; exact hnextN, ?_⟩
    have hcov := hf.covered
    rw [balance, account_settled_sender]
    by_cases hself : tx.fromAddr = dst
    · subst hself
      have hsub := toNat_sub_of_le (a := s.balance tx.fromAddr) (b := fee) (by omega)
      simp only [if_true, Option.elim_some, hsub]
      omega
    · have hsub := toNat_sub_of_le (a := s.balance tx.fromAddr) (b := tx.value) (by omega)
      have hsub2 := toNat_sub_of_le (a := s.balance tx.fromAddr - tx.value) (b := fee) (by omega)
      simp only [hself, Ne.symm hself, if_false, Option.elim_some, hsub2, hsub]
      omega
  · intro hne
    refine ⟨⟨s.nonce dst, credited⟩, ?_, rfl, hcred hne⟩
    rw [account_setNonce_ne _ _ (Ne.symm hne), account_settled_recipient (Ne.symm hne)]
  · intro a hs hd
    rw [account_setNonce_ne _ _ (Ne.symm hs), account_settled_frame hs hd]

theorem executable_of_ok {s s' : State} {tx : Transaction} {fee : Amount}
    (h : s.applyTransaction tx = (.ok fee, s')) : ∃ dst, Executable s tx dst := by
  unfold applyTransaction at h
  split at h
  · cases h
  · rename_i hchain
    split at h
    · cases h
    · rename_i hgas
      split at h
      · cases h
      · rename_i hnonce
        split at h
        · cases h
        · rename_i next hnext
          split at h
          · cases h
          · rename_i f hfee
            split at h
            · rename_i htype
              split at h
              · cases h
              · rename_i s₁ hexec
                obtain ⟨dst, hto, hf⟩ := funded_of_executeTransfer hfee hexec
                have hnextN := checkedAdd_eq_some.mp hnext
                have hnextL := next.isLt
                have hgasN : tx.gasLimit.toNat ≠ 0 := fun e => hgas (BitVec.eq_of_toNat_eq (by simpa using e))
                simp only [ne_eq, Decidable.not_not] at hchain hnonce
                refine ⟨dst, hchain, by omega, hnonce, ?_, htype, hto, hf⟩
                simp at hnextN
                omega
            · cases h

/-- A successful call had an executable transaction and did exactly `Effect`. -/
theorem effect_of_ok {s s' : State} {tx : Transaction} {fee : Amount}
    (h : s.applyTransaction tx = (.ok fee, s')) : ∃ dst, Executable s tx dst ∧ Effect s s' tx dst fee := by
  obtain ⟨dst, hex⟩ := executable_of_ok h
  obtain ⟨fee', s₁, hok, heff⟩ := applyTransaction_of_executable hex
  rw [h] at hok
  cases hok
  exact ⟨dst, hex, heff⟩

/-- A failed call leaves the state untouched, and only a real overflow is reported as one. -/
theorem applyTransaction_error {s s' : State} {tx : Transaction} {e : StateError}
    (h : s.applyTransaction tx = (.error e, s')) :
    s' = s ∧ ∀ a, e = .balanceOverflow a → Overflows s tx.fromAddr a tx.value := by
  unfold applyTransaction at h
  split at h
  · cases h; exact ⟨rfl, nofun⟩
  · split at h
    · cases h; exact ⟨rfl, nofun⟩
    · split at h
      · cases h; exact ⟨rfl, nofun⟩
      · split at h
        · cases h; exact ⟨rfl, nofun⟩
        · split at h
          · cases h; exact ⟨rfl, nofun⟩
          · rename_i f hfee
            split at h
            · split at h
              · rename_i e' s₁ hexec
                cases h
                exact executeTransfer_error hfee hexec
              · cases h
            · cases h; exact ⟨rfl, nofun⟩

/-- The transfer arm reports no nonce. -/
theorem executeTransfer_nonce_free {s s' : State} {tx : Transaction} {fee : Amount} {e : StateError}
    (h : s.executeTransfer tx fee = (.error e, s')) (a : Address) (expected got : Nonce) :
    e ≠ .invalidNonce a expected got := by
  rintro rfl
  unfold executeTransfer at h
  split at h
  · cases h
  · split at h
    · cases h
    · split at h
      · rename_i hensure
        unfold ensureBalance at hensure
        grind
      · split at h
        · rename_i htransfer
          unfold applyTransfer at htransfer
          grind
        · unfold debit at h
          grind

/-- **`InvalidNonce` means what it says**: it is reported for a transaction of another nonce than its sender's. -/
theorem nonce_ne_of_invalidNonce {s s' : State} {tx : Transaction} {a : Address} {expected got : Nonce}
    (h : s.applyTransaction tx = (.error (.invalidNonce a expected got), s')) : tx.nonce ≠ s.nonce tx.fromAddr := by
  unfold applyTransaction at h
  split at h
  · cases h
  · split at h
    · cases h
    · split at h
      · assumption
      · split at h
        · cases h
        · split at h
          · cases h
          · split at h
            · split at h
              · rename_i e s₁ hexec
                cases h
                exact absurd rfl (executeTransfer_nonce_free hexec a expected got)
              · cases h
            · cases h

/-- **Exact effect and atomicity.** `apply_transaction` succeeds exactly on the executable
transactions, does then exactly `Effect`, and otherwise leaves the whole state as it was. -/
theorem applyTransaction_exact (s : State) (tx : Transaction) :
    ((∃ fee s', s.applyTransaction tx = (.ok fee, s')) ↔ ∃ dst, Executable s tx dst) ∧
    (∀ fee s', s.applyTransaction tx = (.ok fee, s') → ∃ dst, tx.toAddr = some dst ∧ Effect s s' tx dst fee) ∧
    (∀ e s', s.applyTransaction tx = (.error e, s') → s' = s) := by
  refine ⟨⟨?_, ?_⟩, ?_, fun e s' h => (applyTransaction_error h).1⟩
  · rintro ⟨fee, s', h⟩
    exact executable_of_ok h
  · rintro ⟨dst, hex⟩
    obtain ⟨fee, s', h, -⟩ := applyTransaction_of_executable hex
    exact ⟨fee, s', h⟩
  · intro fee s' h
    obtain ⟨dst, hex, heff⟩ := effect_of_ok h
    exact ⟨dst, hex.destination, heff⟩

end State
end Subhost
