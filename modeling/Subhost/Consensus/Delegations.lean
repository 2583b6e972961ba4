import Subhost.Consensus.Staking
/-!
# Delegation records (subhost-consensus/src/staking.rs:108-256)

Every call that fails leaves the module as it was, the second check of `delegate` included
(`delegate_cases`), so that no empty record is ever left behind.

A record is removed when it is emptied and carries no rewards (staking.rs:192). No operation ever credits
rewards, so an emptied record always goes.
-/
namespace Subhost
open Uint Run

namespace StakingModule

/-! ## Failures -/

/-- **A call that fails changes nothing.** -/
theorem step_error {m : StakingModule} {op : StakingOp} {e : StakingError} (h : (step m op).1 = .error e) :
    (step m op).2 = m := by
  cases op with
  | addValidator v =>
    rcases addValidator_cases m v with ⟨e, heq⟩ | ⟨-, heq⟩
    · simp [step, heq]
    · simp [step, heq, Except.map] at h
  | delegate d v amount =>
    rcases delegate_cases m d v amount with ⟨e, heq⟩ | ⟨_, _, _, -, -, -, heq⟩
    · simp [step, heq]
    · simp [step, heq, Except.map] at h
  | undelegate d v amount =>
    rcases undelegate_cases m d v amount with ⟨-, e, heq⟩ | ⟨-, _, -, heq⟩
    · simp [step, heq]
    · simp [step, heq, Except.map] at h
  | slash ev =>
    rcases slash_cases m ev with ⟨e, heq⟩ | ⟨_, -, heq | ⟨-, heq⟩ | heq⟩
    · simp [step, heq]
    all_goals simp [step, heq, Except.map] at h

/-! ## Referential integrity -/

/-- What holds of the record under a key: it is its own record, not empty, without rewards, and its
validator is registered. -/
structure Sound (m : StakingModule) (key : Address × Address) (e : Delegation) : Prop where
  own : key = (e.delegator, e.validator)
  amount : 0 < e.amount.toNat
  rewards : e.rewards = 0#128
  registered : (m.validators[e.validator]?).isSome = true

/-- Every delegation is sound. -/
def Referential (m : StakingModule) : Prop := ∀ d v e, m.delegation d v = some e → Sound m (d, v) e

theorem referential_of {m : StakingModule} (h : ∀ key e, m.delegations[key]? = some e → Sound m key e) :
    Referential m :=
  fun d v e he => h (d, v) e he

theorem Referential.sound {m : StakingModule} (h : Referential m) {key : Address × Address} {e : Delegation}
    (he : m.delegations[key]? = some e) : Sound m key e :=
  h key.1 key.2 e he

/-- Soundness of a record is kept as long as its validator stays. -/
theorem Sound.mono {m m' : StakingModule} {key : Address × Address} {e : Delegation} (h : Sound m key e)
    (hstays : (m'.validators[e.validator]?).isSome = true) : Sound m' key e :=
  ⟨h.own, h.amount, h.rewards, hstays⟩

theorem isSome_insert {validators : Map Address Validator} {a : Address} (h : (validators[a]?).isSome = true)
    (b : Address) (v : Validator) : ((validators.insert b v)[a]?).isSome = true := by
  by_cases e : b = a
  · subst e
    simp
  · rwa [Map.get_insert_ne _ _ e]

theorem Referential.addValidator {m : StakingModule} (h : Referential m) (v : Validator) :
    Referential (addValidator m v).2 := by
  rcases addValidator_cases m v with ⟨e, heq⟩ | ⟨-, heq⟩
  · rwa [heq]
  · rw [heq]
    refine referential_of fun key e he => ?_
    have hold := h.sound he
    exact hold.mono (isSome_insert hold.registered _ _)

theorem Referential.delegate {m : StakingModule} (h : Referential m) (d v : Address) (amount : Amount) :
    Referential (delegate m d v amount).2 := by
  rcases delegate_cases m d v amount with ⟨e, heq⟩ | ⟨target, newStake, newAmount, -, -, hpos, heq⟩
  · rwa [heq]
  · rw [heq]
    refine referential_of fun key e he => ?_
    by_cases ekey : (d, v) = key
    · subst ekey
      rw [Map.get_insert_self, Option.some.injEq] at he
      subst he
      have hentry : (entryOf m d v).delegator = d ∧ (entryOf m d v).validator = v ∧
          (entryOf m d v).rewards = 0#128 := by
        rw [entryOf]
        cases hget : m.delegations[(d, v)]? with
        | none => exact ⟨rfl, rfl, rfl⟩
        | some entry =>
          have hold := h.sound hget
          obtain ⟨hd, hv⟩ := Prod.mk.inj hold.own
          exact ⟨hd.symm, hv.symm, hold.rewards⟩
      refine ⟨by simp [hentry], Nat.pos_of_ne_zero hpos, hentry.2.2, ?_⟩
      simp [hentry]
    · rw [Map.get_insert_ne _ _ ekey] at he
      have hold := h.sound he
      exact hold.mono (isSome_insert hold.registered _ _)

/-- A withdrawal leaves every validator registered. -/
theorem isSome_settleStake {m : StakingModule} {a : Address} (h : (m.validators[a]?).isSome = true) (v : Address)
    (amount : Amount) : ((settleStake m v amount)[a]?).isSome = true := by
  unfold settleStake
  cases m.validators[v]? with
  | none => exact h
  | some target => exact isSome_insert h _ _

theorem Referential.undelegate {m : StakingModule} (h : Referential m) (d v : Address) (amount : Amount) :
    Referential (undelegate m d v amount).2 := by
  rcases undelegate_cases m d v amount with ⟨-, e, heq⟩ | ⟨-, entry, hentry, heq⟩
  · rwa [heq]
  · rw [heq]
    have hsound := h.sound hentry
    refine referential_of fun key e he => ?_
    dsimp only at he
    rw [settleDelegation, hsound.rewards] at he
    by_cases ekey : (d, v) = key
    · subst ekey
      split at he
      · simp at he
      · rename_i hleft
        rw [Map.get_insert_self, Option.some.injEq] at he
        subst he
        have hpos : (entry.amount - amount).toNat ≠ 0 := fun hzero => hleft ⟨BitVec.eq_of_toNat_eq hzero, rfl⟩
        exact ⟨hsound.own, Nat.pos_of_ne_zero hpos, rfl, isSome_settleStake hsound.registered _ _⟩
    · have hother : m.delegations[key]? = some e := by
        split at he
        · rwa [Map.get_erase_ne _ ekey] at he
        · rwa [Map.get_insert_ne _ _ ekey] at he
      have hold := h.sound hother
      exact hold.mono (isSome_settleStake hold.registered _ _)

theorem Referential.slash {m : StakingModule} (h : Referential m) (ev : SlashingEvidence) :
    Referential (slash m ev).2 := by
  rcases slash_cases m ev with ⟨e, heq⟩ | ⟨target, -, heq | ⟨-, heq⟩ | heq⟩
  · rwa [heq]
  · rw [heq]
    refine referential_of fun key e he => ?_
    have hold := h.sound he
    exact hold.mono hold.registered
  · -- the sweep leaves only delegations to other validators
    rw [heq]
    refine referential_of fun key e he => ?_
    rw [Std.ExtTreeMap.getElem?_filter', Option.filter_eq_some_iff, decide_eq_true_iff] at he
    have hold := h.sound he.1
    refine hold.mono ?_
    rw [Map.get_erase_ne _ (fun hsame => he.2 (by rw [hold.own, ← hsame]))]
    exact hold.registered
  · rw [heq]
    refine referential_of fun key e he => ?_
    have hold := h.sound he
    exact hold.mono (isSome_insert hold.registered _ _)

theorem Referential.step {m : StakingModule} (h : Referential m) (op : StakingOp) :
    Referential (StakingModule.step m op).2 := by
  cases op with
  | addValidator v => exact h.addValidator v
  | delegate d v amount => exact h.delegate d v amount
  | undelegate d v amount => exact h.undelegate d v amount
  | slash e => exact h.slash e

theorem referential_new : Referential new := referential_of fun key e he => by simp [new] at he

/-- The slashing log only grows. -/
theorem slashings_step (m : StakingModule) (op : StakingOp) : m.slashings <+: (step m op).2.slashings := by
  cases op with
  | addValidator v =>
    rcases addValidator_cases m v with ⟨e, heq⟩ | ⟨-, heq⟩
    all_goals simp [step, heq]
  | delegate d v amount =>
    rcases delegate_cases m d v amount with ⟨e, heq⟩ | ⟨_, _, _, -, -, -, heq⟩
    all_goals simp [step, heq]
  | undelegate d v amount =>
    rcases undelegate_cases m d v amount with ⟨-, e, heq⟩ | ⟨-, _, -, heq⟩
    all_goals simp [step, heq]
  | slash ev =>
    rcases slash_cases m ev with ⟨e, heq⟩ | ⟨_, -, heq | ⟨-, heq⟩ | heq⟩
    all_goals simp [step, heq]

theorem slashings_final (m : StakingModule) (ops : List StakingOp) : m.slashings <+: (final step m ops).slashings :=
  final_invariant step (fun m' => m.slashings <+: m'.slashings)
    (fun m' op h => h.trans (slashings_step m' op)) (List.prefix_refl _) ops

/-- **Referential integrity and atomicity.** In any run, every delegation is stored under its own pair, is
not empty and names a registered validator; whatever follows only appends to the slashing log; and a call
that fails leaves the module exactly as it was. -/
theorem staking_integrity (ops : List StakingOp) :
    (∀ (key : Address × Address) (e : Delegation), (final step new ops).delegations[key]? = some e →
      key = (e.delegator, e.validator) ∧ 0 < e.amount.toNat ∧
        ((final step new ops).validators[e.validator]?).isSome = true) ∧
    (∀ more, (final step new ops).slashings <+: (final step (final step new ops) more).slashings) ∧
    ∀ op e, (step (final step new ops) op).1 = .error e → (step (final step new ops) op).2 = final step new ops := by
  have hinv : Referential (final step new ops) :=
    final_invariant step Referential (fun _ op h => h.step op) referential_new ops
  refine ⟨?_, slashings_final _, fun op e => step_error⟩
  intro key e he
  have hsound := hinv.sound he
  exact ⟨hsound.own, hsound.amount, hsound.registered⟩

/-- Slashed twice, the validator still backs its record, and a delegation that would overflow the record
fails without a trace. -/
theorem staking_integrity_slashed :
    let v : Address := Vector.replicate 20 1
    let d : Address := Vector.replicate 20 9
    (step (final step new (slashedWithdrawal.take 4)) (.delegate d v (maxValue 128 - 100000000#128 + 1#128))).2 =
        final step new (slashedWithdrawal.take 4) ∧
      ∃ e, (final step new (slashedWithdrawal.take 4)).delegations[(d, v)]? = some e ∧ 0 < e.amount.toNat := by
  intro v d
  obtain ⟨hrecords, -, hatomic⟩ := staking_integrity (slashedWithdrawal.take 4)
  refine ⟨hatomic _ (.stakeOverflow v) (by decide +kernel), ⟨d, v, 100000000#128, 0#128⟩, ?_, ?_⟩
  · decide +kernel
  · exact (hrecords (d, v) ⟨d, v, 100000000#128, 0#128⟩ (by decide +kernel)).2.1

end StakingModule
end Subhost
