import Subhost.Core.Types
import Subhost.Lib.Run
/-!
# Staking, delegation and slashing (subhost-consensus/src/staking.rs)

A validator's `stake` is its self-stake plus everything delegated to it. Slashing cuts the stake and
leaves the delegation records as they are; `undelegate` pays out what the record says and takes it
from the stake with `saturating_sub` (staking.rs:199). A record can therefore be larger than the
stake behind it, and the part of a withdrawal that the stake does not cover comes from nowhere.

`minted` names that part. `step_account` is the account of one operation, `minted` included;
`conserves_iff_covered` says which runs conserve stake.
-/
namespace Subhost
open Uint Bincode Run

/-- `MIN_VALIDATOR_STAKE` (staking.rs:12). -/
def minValidatorStake : Amount := 10000000#128
/-- `MAX_COMMISSION_BPS` (staking.rs:14). -/
def maxCommissionBps : U64 := 10000#64

/-- An `f64`, as far as range checks tell two of them apart. -/
inductive F64 where
  | nan
  | infinite (negative : Bool)
  | finite (value : Rat)
deriving DecidableEq

namespace F64

def isFinite : F64 → Bool
  | finite _ => true
  | _ => false

/-- The `<` operator: false whenever one side is not a number. -/
def lt : F64 → F64 → Bool
  | finite a, finite b => a < b
  | finite _, infinite negative => !negative
  | infinite negative, finite _ => negative
  | infinite m, infinite n => m && !n
  | _, _ => false

end F64

/-- `Validator` (staking.rs:25). -/
structure Validator where
  address : Address
  publicKey : Bytes
  stake : Amount
  commissionBps : U64
  uptime : F64
deriving DecidableEq

/-- `Delegation` (staking.rs:59). -/
structure Delegation where
  delegator : Address
  validator : Address
  amount : Amount
  rewards : Amount
deriving DecidableEq

/-- `SlashingType` (staking.rs:75). -/
inductive SlashingType where
  | doubleSign
  | downtime
  | maliciousBehavior
deriving DecidableEq

/-- `SlashingType::penalty` (staking.rs:86). -/
def SlashingType.penalty : SlashingType → Amount → Amount
  | doubleSign, stake => stake
  | downtime, stake => stake / 100#128
  | maliciousBehavior, stake => stake / 2#128

/-- `SlashingEvidence` (staking.rs:67). -/
structure SlashingEvidence where
  validator : Address
  evidenceType : SlashingType
  height : BlockHeight
  proof : Bytes
deriving DecidableEq

/-- `StakingError` (staking.rs:268). -/
inductive StakingError where
  | stakeTooLow (provided minimum : Amount)
  | missingPublicKey (a : Address)
  | invalidCommission (bps : U64)
  | invalidUptime (uptime : F64)
  | duplicateValidator (a : Address)
  | unknownValidator (a : Address)
  | unknownDelegation (delegator validator : Address)
  | insufficientDelegation (have_ want : Amount)
  | zeroAmount
  | stakeOverflow (a : Address)
  | missingProof (a : Address)
deriving DecidableEq

/-- `impl Display for StakingError`; how an `f64` prints is a parameter. -/
def StakingError.display (showF64 : F64 → String) : StakingError → String
  | stakeTooLow p m => "stake " ++ toString p.toNat ++ " is below the minimum " ++ toString m.toNat
  | missingPublicKey a => "validator " ++ displayBytes a.toList ++ " has no public key"
  | invalidCommission bps => "commission " ++ toString bps.toNat ++ " basis points exceeds 10000"
  | invalidUptime u => "uptime " ++ showF64 u ++ " is outside 0.0..=1.0"
  | duplicateValidator a => "validator " ++ displayBytes a.toList ++ " is already registered"
  | unknownValidator a => "validator " ++ displayBytes a.toList ++ " is not registered"
  | unknownDelegation d v =>
    "no delegation from " ++ displayBytes d.toList ++ " to " ++ displayBytes v.toList
  | insufficientDelegation h w =>
    "insufficient delegation: have " ++ toString h.toNat ++ ", want " ++ toString w.toNat
  | zeroAmount => "amount must be greater than zero"
  | stakeOverflow a => "stake overflow for validator " ++ displayBytes a.toList
  | missingProof a => "slashing evidence for " ++ displayBytes a.toList ++ " carries no proof"

/-- `Validator::validate` (staking.rs:38). -/
def Validator.validate (v : Validator) : Except StakingError Unit :=
  if v.stake < minValidatorStake then .error (.stakeTooLow v.stake minValidatorStake)
  else if v.publicKey.isEmpty then .error (.missingPublicKey v.address)
  else if v.commissionBps > maxCommissionBps then .error (.invalidCommission v.commissionBps)
  else if !v.uptime.isFinite || v.uptime.lt (.finite 0) || (F64.finite 1).lt v.uptime then
    .error (.invalidUptime v.uptime)
  else .ok ()

/-- `StakingModule` (staking.rs:97). -/
structure StakingModule where
  validators : Map Address Validator
  delegations : Map (Address × Address) Delegation
  slashings : List SlashingEvidence
deriving DecidableEq

/-- `ValidatorSet` (staking.rs:18). -/
structure ValidatorSet where
  validators : List Validator
  totalStake : Amount
  quorumThreshold : Nat
deriving DecidableEq

/-- The comparison of `validator_set`: descending stake, then address. -/
def Validator.order (left right : Validator) : Ordering :=
  (compare right.stake.toNat left.stake.toNat).then (compare left.address right.address)

namespace StakingModule

/-- `StakingModule::new`. -/
def new : StakingModule := ⟨∅, ∅, []⟩

/-- `StakingModule::add_validator` (staking.rs:109). -/
def addValidator (m : StakingModule) (v : Validator) : Except StakingError Unit × StakingModule :=
  match v.validate with
  | .error e => (.error e, m)
  | .ok () =>
    if (m.validators[v.address]?).isSome then (.error (.duplicateValidator v.address), m)
    else (.ok (), { m with validators := m.validators.insert v.address v })

/-- `StakingModule::delegate` (staking.rs:146). -/
def delegate (m : StakingModule) (delegator validator : Address) (amount : Amount) :
    Except StakingError Amount × StakingModule :=
  if amount = 0#128 then (.error .zeroAmount, m)
  else match m.validators[validator]? with
  | none => (.error (.unknownValidator validator), m)
  | some target => match checkedAdd target.stake amount with
    | none => (.error (.stakeOverflow validator), m)
    | some newStake =>
      -- `entry(..).or_insert(..)` writes the empty record before the second check
      let entry := (m.delegations[(delegator, validator)]?).getD ⟨delegator, validator, 0#128, 0#128⟩
      match checkedAdd entry.amount amount with
      | none => (.error (.stakeOverflow validator),
          { m with delegations := m.delegations.insert (delegator, validator) entry })
      | some newAmount => (.ok newAmount,
          { m with
            delegations := m.delegations.insert (delegator, validator) { entry with amount := newAmount }
            validators := m.validators.insert validator { target with stake := newStake } })

/-- The delegation record after a withdrawal that leaves `remaining` (staking.rs:192). -/
def settleDelegation (m : StakingModule) (key : Address × Address) (entry : Delegation) (remaining : Amount) :
    Map (Address × Address) Delegation :=
  if remaining = 0#128 ∧ entry.rewards = 0#128 then m.delegations.erase key
  else m.delegations.insert key { entry with amount := remaining }

/-- `StakingModule::undelegate` (staking.rs:176). -/
def undelegate (m : StakingModule) (delegator validator : Address) (amount : Amount) :
    Except StakingError Amount × StakingModule :=
  if amount = 0#128 then (.error .zeroAmount, m)
  else match m.delegations[(delegator, validator)]? with
  | none => (.error (.unknownDelegation delegator validator), m)
  | some entry =>
    if entry.amount < amount then (.error (.insufficientDelegation entry.amount amount), m)
    else
      let remaining := entry.amount - amount
      let delegations := settleDelegation m (delegator, validator) entry remaining
      match m.validators[validator]? with
      | none => (.ok remaining, { m with delegations })
      | some target => (.ok remaining,
          { m with
            delegations
            validators := m.validators.insert validator
              { target with stake := saturatingSub target.stake amount } })

/-- `StakingModule::delegation` (staking.rs:204). -/
def delegation (m : StakingModule) (delegator validator : Address) : Option Delegation :=
  m.delegations[(delegator, validator)]?

/-- `StakingModule::slash` (staking.rs:221). -/
def slash (m : StakingModule) (evidence : SlashingEvidence) : Except StakingError Amount × StakingModule :=
  match m.validators[evidence.validator]? with
  | none => (.error (.unknownValidator evidence.validator), m)
  | some target =>
    if evidence.proof.isEmpty then (.error (.missingProof evidence.validator), m)
    else
      let penalty := evidence.evidenceType.penalty target.stake
      let m := { m with slashings := m.slashings ++ [evidence] }
      if penalty = 0#128 then (.ok 0#128, m)
      else if target.stake ≤ penalty then (.ok penalty,
        -- ejected, and the delegations to it are burned with it
        { m with
          validators := m.validators.erase evidence.validator
          delegations := m.delegations.filter fun key _ => key.2 ≠ evidence.validator })
      else (.ok penalty,
        { m with
          validators := m.validators.insert evidence.validator
            { target with stake := target.stake - penalty } })

/-- `StakingModule::total_stake` (staking.rs:128), over the validators in the order they are iterated. -/
def totalStakeOf (values : List Validator) : Amount := values.foldl (fun total v => saturatingAdd total v.stake) 0

/-- `StakingModule::validator_set` (staking.rs:134), over the validators in the order they are iterated. -/
def validatorSetOf (values : List Validator) : ValidatorSet :=
  let validators := sortBy Validator.order values
  let count := validators.length
  ⟨validators, totalStakeOf values, if count = 0 then 0 else 2 * ((count - 1) / 3) + 1⟩

def validatorSet (m : StakingModule) : ValidatorSet := validatorSetOf (m.validators.toList.map Prod.snd)

/-- The stake behind a validator, `0` when it is not registered. -/
def stakeOf (m : StakingModule) (a : Address) : Nat := ((m.validators[a]?).map (·.stake.toNat)).getD 0

/-- The sum of all validator stakes, in exact integers. -/
def staked (m : StakingModule) : Nat := Map.sumOf (·.stake.toNat) m.validators

end StakingModule

/-! ## Runs -/

/-- One call of the module. -/
inductive StakingOp where
  | addValidator (v : Validator)
  | delegate (delegator validator : Address) (amount : Amount)
  | undelegate (delegator validator : Address) (amount : Amount)
  | slash (evidence : SlashingEvidence)
deriving DecidableEq

namespace StakingModule

/-- One call; `()` is the reply `none`. -/
def step (m : StakingModule) : StakingOp → Except StakingError (Option Amount) × StakingModule
  | .addValidator v => ((addValidator m v).1.map fun _ => none, (addValidator m v).2)
  | .delegate d v a => ((delegate m d v a).1.map some, (delegate m d v a).2)
  | .undelegate d v a => ((undelegate m d v a).1.map some, (undelegate m d v a).2)
  | .slash e => ((slash m e).1.map some, (slash m e).2)

abbrev StakingCall := Call StakingModule StakingOp (Except StakingError (Option Amount))

/-- Stake a call brings in: a registered self-stake, a delegated amount. -/
def inflow (c : StakingCall) : Nat :=
  match c.input, c.result with
  | .addValidator v, .ok _ => v.stake.toNat
  | .delegate _ _ amount, .ok _ => amount.toNat
  | _, _ => 0

/-- Stake a call takes out: an undelegated amount, a penalty. -/
def outflow (c : StakingCall) : Nat :=
  match c.input, c.result with
  | .undelegate _ _ amount, .ok _ => amount.toNat
  | .slash _, .ok (some penalty) => penalty.toNat
  | _, _ => 0

/-- **Stake conservation** of a run: what came in is what is still staked and what went out. -/
def Conserves (ops : List StakingOp) : Prop :=
  ((trace step new ops).map inflow).sum = staked (final step new ops) + ((trace step new ops).map outflow).sum

instance (ops : List StakingOp) : Decidable (Conserves ops) := inferInstanceAs (Decidable (_ = _))

/-! ## What each operation does -/

theorem addValidator_cases (m : StakingModule) (v : Validator) :
    (∃ e, addValidator m v = (.error e, m)) ∨
    (m.validators[v.address]? = none ∧
      addValidator m v = (.ok (), { m with validators := m.validators.insert v.address v })) := by
  unfold addValidator
  cases v.validate with
  | error e => exact .inl ⟨e, rfl⟩
  | ok _ =>
    by_cases h : (m.validators[v.address]?).isSome
    · exact .inl ⟨.duplicateValidator v.address, by simp [h]⟩
    · exact .inr ⟨by simpa using h, by simp [h]⟩

/-- The record `delegate` adds to. -/
def entryOf (m : StakingModule) (d v : Address) : Delegation := (m.delegations[(d, v)]?).getD ⟨d, v, 0#128, 0#128⟩

/-- `delegate` fails and changes nothing, or adds the amount to a record and to the stake behind it.

It writes an empty record before a check that can still fail (staking.rs:163). An empty record takes any
amount: if the check fails the record was there before, and writing it back changed nothing. -/
theorem delegate_cases (m : StakingModule) (d v : Address) (amount : Amount) :
    (∃ e, delegate m d v amount = (.error e, m)) ∨
    ∃ target newStake newAmount, m.validators[v]? = some target ∧
      newStake.toNat = target.stake.toNat + amount.toNat ∧ newAmount.toNat ≠ 0 ∧
      delegate m d v amount = (.ok newAmount,
        { m with
          delegations := m.delegations.insert (d, v) { entryOf m d v with amount := newAmount }
          validators := m.validators.insert v { target with stake := newStake } }) := by
  unfold delegate
  by_cases hzero : amount = 0#128
  · exact .inl ⟨.zeroAmount, by simp [hzero]⟩
  have hpos : amount.toNat ≠ 0 := fun h => hzero (BitVec.eq_of_toNat_eq h)
  cases htarget : m.validators[v]? with
  | none => exact .inl ⟨.unknownValidator v, by simp [hzero]⟩
  | some target =>
    cases hstake : checkedAdd target.stake amount with
    | none => exact .inl ⟨.stakeOverflow v, by simp [hzero, hstake]⟩
    | some newStake =>
      rw [if_neg hzero]
      cases hadd : checkedAdd (entryOf m d v).amount amount with
      | some newAmount =>
        have hval := checkedAdd_eq_some.mp hadd
        refine .inr ⟨target, newStake, newAmount, rfl, checkedAdd_eq_some.mp hstake, by omega, ?_⟩
        rw [entryOf] at hadd
        simp only [hstake, hadd, entryOf]
      | none =>
        have hover := checkedAdd_eq_none.mp hadd
        rw [entryOf] at hadd hover
        cases hentry : m.delegations[(d, v)]? with
        | none =>
          have := amount.isLt
          simp [hentry] at hover
          omega
        | some entry =>
          simp only [hentry, Option.getD_some] at hadd
          refine .inl ⟨.stakeOverflow v, ?_⟩
          simp only [hstake, Option.getD_some, hadd, Map.insert_get hentry]

/-- The checks of `undelegate`: a positive amount that the delegation record covers. -/
def Withdraws (m : StakingModule) (d v : Address) (amount : Amount) : Prop :=
  amount ≠ 0#128 ∧ ∃ entry ∈ m.delegations[(d, v)]?, amount ≤ entry.amount

instance (m : StakingModule) (d v : Address) (amount : Amount) : Decidable (Withdraws m d v amount) :=
  inferInstanceAs (Decidable (_ ∧ _))

/-- The validators after a withdrawal; the stake gives as much of the amount as is there. -/
def settleStake (m : StakingModule) (v : Address) (amount : Amount) : Map Address Validator :=
  (m.validators[v]?).elim m.validators fun target =>
    m.validators.insert v { target with stake := saturatingSub target.stake amount }

/-- `undelegate` fails and changes nothing, or settles the record and takes from the stake behind it. -/
theorem undelegate_cases (m : StakingModule) (d v : Address) (amount : Amount) :
    (¬ Withdraws m d v amount ∧ ∃ e, undelegate m d v amount = (.error e, m)) ∨
    (Withdraws m d v amount ∧ ∃ entry, m.delegations[(d, v)]? = some entry ∧
      undelegate m d v amount = (.ok (entry.amount - amount),
        { m with
          delegations := settleDelegation m (d, v) entry (entry.amount - amount)
          validators := settleStake m v amount })) := by
  unfold undelegate Withdraws settleStake
  by_cases hz : amount = 0#128
  · exact .inl ⟨by simp [hz], _, by simp [hz]; rfl⟩
  cases he : m.delegations[(d, v)]? with
  | none => exact .inl ⟨by simp, .unknownDelegation d v, by simp [hz]⟩
  | some entry =>
    by_cases hlt : entry.amount < amount
    · exact .inl ⟨by simp [hz, BitVec.not_le.mpr hlt], _, by simp [hz, hlt]; rfl⟩
    refine .inr ⟨by simp [hz, BitVec.not_lt.mp hlt], entry, rfl, ?_⟩
    simp only [hz, hlt, if_false]
    cases m.validators[v]? with
    | none => rfl
    | some target => rfl

/-- What `slash` checks: a registered validator and a proof. -/
def Indicts (m : StakingModule) (e : SlashingEvidence) (target : Validator) : Prop :=
  m.validators[e.validator]? = some target ∧ e.proof ≠ []

theorem slash_error_or_indicts (m : StakingModule) (e : SlashingEvidence) :
    (∃ err, slash m e = (.error err, m)) ∧ (∀ target, ¬ Indicts m e target) ∨ ∃ target, Indicts m e target := by
  unfold Indicts slash
  cases ht : m.validators[e.validator]? with
  | none => exact .inl ⟨⟨_, rfl⟩, by simp⟩
  | some target =>
    by_cases hproof : e.proof = []
    · exact .inl ⟨⟨.missingProof e.validator, by simp [hproof]⟩, by simp [hproof]⟩
    · exact .inr ⟨target, rfl, hproof⟩

/-- What a call does that passes its checks: it finds nothing to take, ejects, or cuts the stake. -/
theorem slash_spec {m : StakingModule} {e : SlashingEvidence} {target : Validator} (h : Indicts m e target) :
    (e.evidenceType.penalty target.stake = 0#128 ∧
      slash m e = (.ok 0#128, { m with slashings := m.slashings ++ [e] })) ∨
    (e.evidenceType.penalty target.stake ≠ 0#128 ∧ target.stake ≤ e.evidenceType.penalty target.stake ∧
      slash m e = (.ok (e.evidenceType.penalty target.stake),
        { slashings := m.slashings ++ [e]
          validators := m.validators.erase e.validator
          delegations := m.delegations.filter fun key _ => key.2 ≠ e.validator })) ∨
    (e.evidenceType.penalty target.stake ≠ 0#128 ∧ e.evidenceType.penalty target.stake < target.stake ∧
      slash m e = (.ok (e.evidenceType.penalty target.stake),
        { m with
          slashings := m.slashings ++ [e]
          validators := m.validators.insert e.validator
            { target with stake := target.stake - e.evidenceType.penalty target.stake } })) := by
  obtain ⟨ht, hproof⟩ := h
  simp only [slash, ht, List.isEmpty_iff, hproof, if_false]
  by_cases hzero : e.evidenceType.penalty target.stake = 0#128
  · exact .inl ⟨hzero, by rw [if_pos hzero]⟩
  · rw [if_neg hzero]
    by_cases hall : target.stake ≤ e.evidenceType.penalty target.stake
    · exact .inr (.inl ⟨hzero, hall, by rw [if_pos hall]⟩)
    · exact .inr (.inr ⟨hzero, BitVec.not_le.mp hall, by rw [if_neg hall]⟩)

/-- `slash` fails and changes nothing, or records the evidence and takes no stake, ejects the validator with
all its delegations, or cuts the stake. -/
theorem slash_cases (m : StakingModule) (e : SlashingEvidence) :
    (∃ err, slash m e = (.error err, m)) ∨
    ∃ target, m.validators[e.validator]? = some target ∧
      (slash m e = (.ok 0#128, { m with slashings := m.slashings ++ [e] }) ∨
        (target.stake ≤ e.evidenceType.penalty target.stake ∧
          slash m e = (.ok (e.evidenceType.penalty target.stake),
            { slashings := m.slashings ++ [e]
              validators := m.validators.erase e.validator
              delegations := m.delegations.filter fun key _ => key.2 ≠ e.validator })) ∨
        slash m e = (.ok (e.evidenceType.penalty target.stake),
          { m with
            slashings := m.slashings ++ [e]
            validators := m.validators.insert e.validator
              { target with stake := target.stake - e.evidenceType.penalty target.stake } })) := by
  rcases slash_error_or_indicts m e with ⟨herror, -⟩ | ⟨target, h⟩
  · exact .inl herror
  · refine .inr ⟨target, h.1, ?_⟩
    rcases slash_spec h with ⟨-, heq⟩ | ⟨-, hall, heq⟩ | ⟨-, -, heq⟩
    · exact .inl heq
    · exact .inr (.inl ⟨hall, heq⟩)
    · exact .inr (.inr heq)

/-! ## What it does to the stakes -/

theorem staked_insert (m : StakingModule) {a : Address} {v w : Validator} (h : m.validators[a]? = some v) :
    Map.sumOf (·.stake.toNat) (m.validators.insert a w) + v.stake.toNat = staked m + w.stake.toNat := by
  simpa [h, staked] using Map.sumOf_insert (·.stake.toNat) m.validators a w

theorem staked_erase (m : StakingModule) {a : Address} {v : Validator} (h : m.validators[a]? = some v) :
    Map.sumOf (·.stake.toNat) (m.validators.erase a) + v.stake.toNat = staked m := by
  simpa [h, staked] using Map.sumOf_erase (·.stake.toNat) m.validators a

theorem stakeOf_some {m : StakingModule} {a : Address} {v : Validator} (h : m.validators[a]? = some v) :
    stakeOf m a = v.stake.toNat := by
  simp [stakeOf, h]

/-- A withdrawal takes from the stake as much of the amount as is there. -/
theorem staked_settleStake (m : StakingModule) (v : Address) (amount : Amount) :
    Map.sumOf (·.stake.toNat) (settleStake m v amount) + min amount.toNat (stakeOf m v) = staked m := by
  unfold settleStake
  cases ht : m.validators[v]? with
  | none => simp [stakeOf, ht, staked]
  | some target =>
    have hsum := staked_insert m (w := { target with stake := saturatingSub target.stake amount }) ht
    rw [toNat_saturatingSub] at hsum
    rw [stakeOf_some ht, Option.elim_some]
    omega

theorem penalty_le (t : SlashingType) (stake : Amount) : (t.penalty stake).toNat ≤ stake.toNat := by
  cases t with
  | doubleSign => exact Nat.le_refl _
  | downtime => simpa [SlashingType.penalty] using Nat.div_le_self _ _
  | maliciousBehavior => simpa [SlashingType.penalty] using Nat.div_le_self _ _

/-- A slashing that succeeds takes exactly the penalty it returns. -/
theorem staked_slash (m : StakingModule) (e : SlashingEvidence) :
    (∃ err, slash m e = (.error err, m)) ∨
    ∃ penalty, (slash m e).1 = .ok penalty ∧ staked (slash m e).2 + penalty.toNat = staked m := by
  rcases slash_cases m e with herror | ⟨target, ht, h⟩
  · exact .inl herror
  · right
    have hle := penalty_le e.evidenceType target.stake
    rcases h with h | ⟨hall, h⟩ | h
    · rw [h]
      exact ⟨_, rfl, rfl⟩
    · have hsum := staked_erase m ht
      have heq := BitVec.le_def.mp hall
      rw [h]
      refine ⟨_, rfl, ?_⟩
      dsimp only [staked] at hsum ⊢
      omega
    · have hsum := staked_insert m
        (w := { target with stake := target.stake - e.evidenceType.penalty target.stake }) ht
      rw [toNat_sub_of_le hle] at hsum
      rw [h]
      refine ⟨_, rfl, ?_⟩
      dsimp only [staked] at hsum ⊢
      omega

/-! ## The account -/

/-- The part of a withdrawal that no stake covers. -/
def minted (m : StakingModule) : StakingOp → Nat
  | .undelegate d v amount => if Withdraws m d v amount then amount.toNat - stakeOf m v else 0
  | _ => 0

/-- A withdrawal that passes its checks is covered by the validator's stake. -/
def Covered (m : StakingModule) : StakingOp → Prop
  | .undelegate d v amount => Withdraws m d v amount → amount.toNat ≤ stakeOf m v
  | _ => True

theorem minted_eq_zero_iff (m : StakingModule) (op : StakingOp) : minted m op = 0 ↔ Covered m op := by
  cases op with
  | undelegate d v amount =>
    by_cases h : Withdraws m d v amount <;> simp [minted, Covered, h, Nat.sub_eq_zero_iff_le]
  | _ => simp [minted, Covered]

/-- The account of one call. -/
theorem step_account (m : StakingModule) (op : StakingOp) :
    staked m + inflow ⟨m, op, (step m op).1, (step m op).2⟩ + minted m op =
      staked (step m op).2 + outflow ⟨m, op, (step m op).1, (step m op).2⟩ := by
  cases op with
  | addValidator v =>
    rcases addValidator_cases m v with ⟨e, h⟩ | ⟨hnone, h⟩
    · simp [step, h, inflow, outflow, minted, Except.map]
    · have hsum := Map.sumOf_insert (·.stake.toNat) m.validators v.address v
      simpa [step, h, hnone, inflow, outflow, minted, staked, Except.map] using hsum.symm
  | delegate d v amount =>
    rcases delegate_cases m d v amount with ⟨e, h⟩ | ⟨target, newStake, newAmount, ht, hs, -, h⟩
    · simp [step, h, inflow, outflow, minted, Except.map]
    · have hsum := staked_insert m (w := { target with stake := newStake }) ht
      simp only [staked] at hsum
      simp only [step, h, inflow, outflow, minted, staked, Except.map]
      omega
  | undelegate d v amount =>
    rcases undelegate_cases m d v amount with ⟨hno, e, h⟩ | ⟨hyes, entry, -, h⟩
    · simp [step, h, hno, inflow, outflow, minted, Except.map]
    · have hsum := staked_settleStake m v amount
      simp only [staked] at hsum
      simp only [step, h, hyes, inflow, outflow, minted, staked, Except.map, if_true]
      omega
  | slash e =>
    rcases staked_slash m e with ⟨err, h⟩ | ⟨penalty, hr, hsum⟩
    · simp [step, h, inflow, outflow, minted, Except.map]
    · simp only [step, hr, inflow, outflow, minted, Except.map]
      omega

/-- The account of a run, from any module. -/
theorem run_account (m : StakingModule) (ops : List StakingOp) :
    staked m + ((trace step m ops).map inflow).sum + ((trace step m ops).map fun c => minted c.before c.input).sum =
      staked (final step m ops) + ((trace step m ops).map outflow).sum := by
  have hrun := account_trace step staked (fun c => inflow c + minted c.before c.input) outflow
    (fun m op => by rw [← step_account m op, Nat.add_assoc]) m ops
  rwa [List.sum_map_add, ← Nat.add_assoc] at hrun

/-- A run conserves stake exactly when the validator's stake covers every withdrawal that the
delegation record allows. -/
theorem conserves_iff_covered (ops : List StakingOp) :
    Conserves ops ↔ ∀ c ∈ trace step new ops, Covered c.before c.input := by
  have hnew : staked new = 0 := by decide
  have hrun := run_account new ops
  have hminted : Conserves ops ↔ ((trace step new ops).map fun c => minted c.before c.input).sum = 0 := by
    unfold Conserves
    omega
  rw [hminted, List.sum_eq_zero_iff]
  simp [minted_eq_zero_iff]

/-- One delegator, one validator, two slashings between the delegation and the withdrawal. -/
def slashedWithdrawal : List StakingOp :=
  let v : Address := Vector.replicate 20 1
  let d : Address := Vector.replicate 20 9
  [.addValidator ⟨v, [1, 1, 1], 10000000#128, 1000#64, .finite (999 / 1000)⟩,
    .delegate d v 100000000#128,
    .slash ⟨v, .maliciousBehavior, 1#64, [1]⟩,
    .slash ⟨v, .maliciousBehavior, 2#64, [1]⟩,
    .undelegate d v 100000000#128]

/-- 110 million came in; 82.5 million were slashed and 100 million paid out. -/
theorem slashedWithdrawal_mints :
    ¬ Conserves slashedWithdrawal ∧
    ((trace step new slashedWithdrawal).map inflow).sum = 110000000 ∧
    ((trace step new slashedWithdrawal).map outflow).sum = 182500000 ∧
    staked (final step new slashedWithdrawal) = 0 := by
  decide +kernel

end StakingModule

end Subhost
