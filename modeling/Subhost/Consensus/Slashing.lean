import Subhost.Consensus.Delegations
/-!
# Slashing (subhost-consensus/src/staking.rs:74-93, 216-265)

`slash` looks at the validator's stake of the moment and at nothing else: `slashings` is written and never
read. Two things follow over whole runs.

* A penalty of zero returns before the ejection (staking.rs:235). A validator whose stake a withdrawal has
  drained therefore survives a double signing (`doubleSign_ejects_iff`).
* One evidence value takes stake each time it is presented. What bounds it is the log, which counts the calls,
  and for double signing the registrations, since each such call ends one (`slash_forgets`).
-/
namespace Subhost
open Uint Run

namespace StakingModule

/-! ## One call -/

section Indicted
variable {m : StakingModule} {e : SlashingEvidence} {target : Validator} (h : Indicts m e target)
include h

theorem slash_ok : (slash m e).1 = .ok (e.evidenceType.penalty target.stake) := by
  rcases slash_spec h with ⟨hzero, heq⟩ | ⟨-, -, heq⟩ | ⟨-, -, heq⟩
  · rw [heq, hzero]
  · rw [heq]
  · rw [heq]

theorem slashings_slash : (slash m e).2.slashings = m.slashings ++ [e] := by
  rcases slash_spec h with ⟨-, heq⟩ | ⟨-, -, heq⟩ | ⟨-, -, heq⟩
  all_goals rw [heq]

/-- A call that passes its checks takes the penalty off the stake. -/
theorem stakeOf_slash :
    stakeOf (slash m e).2 e.validator = target.stake.toNat - (e.evidenceType.penalty target.stake).toNat := by
  rcases slash_spec h with ⟨hzero, heq⟩ | ⟨-, hall, heq⟩ | ⟨-, hsome, heq⟩
  · simp [heq, stakeOf, h.1, hzero]
  · simp [heq, stakeOf, Nat.sub_eq_zero_of_le (BitVec.le_def.mp hall)]
  · simp [heq, stakeOf, toNat_sub_of_le (Nat.le_of_lt (BitVec.lt_def.mp hsome))]

end Indicted

/-! ## Ejection -/

/-- Neither the validator nor a delegation to it is left. -/
def Gone (m : StakingModule) (a : Address) : Prop :=
  m.validators[a]? = none ∧ ∀ d v entry, m.delegation d v = some entry → v ≠ a ∧ entry.validator ≠ a

/-- A double signing that passes its checks ejects exactly where there is stake to burn. -/
theorem gone_slash_iff {m : StakingModule} {e : SlashingEvidence} {target : Validator} (hm : Referential m)
    (htype : e.evidenceType = .doubleSign) (h : Indicts m e target) :
    Gone (slash m e).2 e.validator ↔ stakeOf m e.validator ≠ 0 := by
  have hall : e.evidenceType.penalty target.stake = target.stake := by rw [htype, SlashingType.penalty]
  rw [stakeOf_some h.1]
  rcases slash_spec h with ⟨hzero, heq⟩ | ⟨hpos, -, heq⟩ | ⟨-, hsome, -⟩
  · -- nothing to burn: the call returns before it touches the validator
    have hstake : target.stake.toNat = 0 := by rw [← hall, hzero]; rfl
    simp [Gone, heq, h.1, hstake]
  · have hstake : target.stake.toNat ≠ 0 := fun hzero => hpos (by rw [hall]; exact BitVec.eq_of_toNat_eq hzero)
    refine iff_of_true ⟨by rw [heq, Map.get_erase_self], fun d v entry hentry => ?_⟩ hstake
    rw [delegation, heq, Std.ExtTreeMap.getElem?_filter', Option.filter_eq_some_iff, decide_eq_true_iff] at hentry
    obtain ⟨-, hown⟩ := Prod.mk.inj (hm.sound hentry.1).own
    exact ⟨hentry.2, hown ▸ hentry.2⟩
  · rw [hall] at hsome
    exact absurd hsome (BitVec.lt_irrefl _)

/-- A withdrawal that leaves the validator without stake. -/
def Drains (m : StakingModule) : StakingOp → Prop
  | .undelegate d v amount => Withdraws m d v amount ∧ stakeOf m v ≤ amount.toNat
  | _ => False

instance (m : StakingModule) (op : StakingOp) : Decidable (Drains m op) := by
  cases op <;> unfold Drains <;> infer_instance

/-- Every registered validator has stake. -/
def Backed (validators : Map Address Validator) : Prop :=
  ∀ (a : Address) (v : Validator), validators[a]? = some v → v.stake.toNat ≠ 0

theorem Backed.insert {validators : Map Address Validator} (h : Backed validators) {v : Validator}
    (hv : v.stake.toNat ≠ 0) (a : Address) : Backed (validators.insert a v) := by
  intro b w hw
  by_cases e : a = b
  · subst e
    rw [Map.get_insert_self, Option.some.injEq] at hw
    exact hw ▸ hv
  · rw [Map.get_insert_ne _ _ e] at hw
    exact h b w hw

theorem Backed.erase {validators : Map Address Validator} (h : Backed validators) (a : Address) :
    Backed (validators.erase a) := by
  intro b w hw
  by_cases e : a = b
  · subst e
    rw [Map.get_erase_self] at hw
    cases hw
  · rw [Map.get_erase_ne _ e] at hw
    exact h b w hw

theorem stake_of_addValidator {m : StakingModule} {v : Validator} {u : Unit} (h : (addValidator m v).1 = .ok u) :
    v.stake.toNat ≠ 0 := by
  have hmin : ¬ v.stake < minValidatorStake := by
    intro hlow
    simp [addValidator, Validator.validate, hlow] at h
  rw [BitVec.not_lt, BitVec.le_def] at hmin
  have hpos : 0 < minValidatorStake.toNat := by decide
  omega

theorem Backed.slash {m : StakingModule} (h : Backed m.validators) (e : SlashingEvidence) :
    Backed (slash m e).2.validators := by
  rcases slash_error_or_indicts m e with ⟨⟨err, heq⟩, -⟩ | ⟨target, htarget⟩
  · rwa [heq]
  · rcases slash_spec htarget with ⟨-, heq⟩ | ⟨-, -, heq⟩ | ⟨-, hsome, heq⟩
    · rwa [heq]
    · rw [heq]
      exact h.erase _
    · rw [heq]
      refine h.insert ?_ _
      have hlt := BitVec.lt_def.mp hsome
      rw [toNat_sub_of_le (Nat.le_of_lt hlt)]
      omega

/-- Only a draining withdrawal leaves a validator registered without stake. -/
theorem Backed.step {m : StakingModule} (h : Backed m.validators) {op : StakingOp} (hdrain : ¬ Drains m op) :
    Backed (StakingModule.step m op).2.validators := by
  cases op with
  | addValidator v =>
    rcases addValidator_cases m v with ⟨e, heq⟩ | ⟨-, heq⟩
    · simpa [StakingModule.step, heq] using h
    · have hstake : v.stake.toNat ≠ 0 := stake_of_addValidator (m := m) (by rw [heq])
      simpa [StakingModule.step, heq] using h.insert hstake v.address
  | delegate d v amount =>
    rcases delegate_cases m d v amount with ⟨e, heq⟩ | ⟨target, newStake, newAmount, ht, hs, -, heq⟩
    · simpa [StakingModule.step, heq] using h
    · have hold := h v target ht
      simp only [StakingModule.step, heq]
      exact h.insert (by dsimp only; omega) v
  | undelegate d v amount =>
    rcases undelegate_cases m d v amount with ⟨-, e, heq⟩ | ⟨hyes, entry, -, heq⟩
    · simpa [StakingModule.step, heq] using h
    · have hleft : amount.toNat < stakeOf m v := Nat.lt_of_not_le fun hle => hdrain ⟨hyes, hle⟩
      simp only [StakingModule.step, heq, settleStake]
      cases ht : m.validators[v]? with
      | none => exact h
      | some target =>
        rw [stakeOf_some ht] at hleft
        refine h.insert ?_ v
        rw [toNat_saturatingSub]
        omega
  | slash e => exact h.slash e

/-- A slashing among the calls of a run. -/
theorem slash_of_mem_trace {m : StakingModule} {ops : List StakingOp} {c : StakingCall} (hc : c ∈ trace step m ops)
    {e : SlashingEvidence} (hinput : c.input = .slash e) :
    c.result = (slash c.before e).1.map some ∧ c.after = (slash c.before e).2 := by
  have hcall := trace_step step m ops c hc
  rw [hinput, step, Prod.mk.injEq] at hcall
  exact ⟨hcall.1.symm, hcall.2.symm⟩

/-- If it is accepted, it has passed the checks. -/
theorem indicts_of_mem_trace {m : StakingModule} {ops : List StakingOp} {c : StakingCall} (hc : c ∈ trace step m ops)
    {e : SlashingEvidence} {penalty : Amount} (hinput : c.input = .slash e) (hok : c.result = .ok (some penalty)) :
    ∃ target, Indicts c.before e target := by
  rcases slash_error_or_indicts c.before e with ⟨⟨err, heq⟩, -⟩ | htarget
  · rw [(slash_of_mem_trace hc hinput).1, heq] at hok
    simp [Except.map] at hok
  · exact htarget

/-- **Double signing ejects where there is stake.** In any run, after a double signing that is accepted the
validator and all delegations to it are gone exactly when its stake was not zero. That is always so in a run
without a draining withdrawal. -/
theorem doubleSign_ejects_iff (ops : List StakingOp) :
    (∀ c ∈ trace step new ops, ∀ e penalty, c.input = .slash e → e.evidenceType = .doubleSign →
      c.result = .ok (some penalty) → (Gone c.after e.validator ↔ stakeOf c.before e.validator ≠ 0)) ∧
    ((∀ c ∈ trace step new ops, ¬ Drains c.before c.input) →
      ∀ c ∈ trace step new ops, ∀ e penalty, c.input = .slash e → e.evidenceType = .doubleSign →
        c.result = .ok (some penalty) → Gone c.after e.validator) := by
  have hiff : ∀ c ∈ trace step new ops, ∀ e penalty, c.input = .slash e → e.evidenceType = .doubleSign →
      c.result = .ok (some penalty) → (Gone c.after e.validator ↔ stakeOf c.before e.validator ≠ 0) := by
    intro c hc e penalty hinput htype hok
    obtain ⟨target, htarget⟩ := indicts_of_mem_trace hc hinput hok
    rw [(slash_of_mem_trace hc hinput).2]
    exact gone_slash_iff (trace_invariant step Referential (fun _ op h => h.step op) referential_new ops c hc)
      htype htarget
  refine ⟨hiff, fun hdrain c hc e penalty hinput htype hok => ?_⟩
  have hbacked := trace_invariant_of step (fun m => Backed m.validators) (fun c => ¬ Drains c.before c.input)
    (fun m op hm hno => hm.step hno) (fun a v hv => by simp [new] at hv) ops hdrain c hc
  obtain ⟨target, htarget⟩ := indicts_of_mem_trace hc hinput hok
  rw [hiff c hc e penalty hinput htype hok, stakeOf_some htarget.1]
  exact hbacked _ _ htarget.1

/-- Evidence of a double signing by the validator of `slashedWithdrawal`. -/
def equivocation : SlashingEvidence := ⟨Vector.replicate 20 1, .doubleSign, 3#64, [1]⟩

/-- Before the withdrawal the double signing ejects. -/
theorem doubleSign_ejects_undrained :
    ∃ c ∈ trace step new (slashedWithdrawal.take 4 ++ [.slash equivocation]),
      c.input = .slash equivocation ∧ c.result = .ok (some 27500000#128) ∧ Gone c.after equivocation.validator := by
  have hmem := last_mem_trace step new (slashedWithdrawal.take 4) (.slash equivocation)
  have hok : (step (final step new (slashedWithdrawal.take 4)) (.slash equivocation)).1 = .ok (some 27500000#128) := by
    decide +kernel
  refine ⟨_, hmem, rfl, hok, ?_⟩
  exact (doubleSign_ejects_iff _).2 (by decide +kernel) _ hmem _ _ rfl rfl hok

/-- After it the stake is zero, and the double signing is accepted without effect. -/
theorem drained_validator_stays :
    let m := final step new slashedWithdrawal
    (slash m equivocation).1 = .ok 0#128 ∧
      ((slash m equivocation).2.validators[equivocation.validator]?).isSome = true ∧
      stakeOf m equivocation.validator = 0 := by
  decide +kernel

/-! ## Repeated evidence -/

/-- A call that presents the evidence and takes stake from its validator. -/
def Deducts (e : SlashingEvidence) (c : StakingCall) : Bool :=
  decide (c.input = .slash e ∧ stakeOf c.after e.validator < stakeOf c.before e.validator)

/-- A call that presents the evidence and is accepted. -/
def Presents (e : SlashingEvidence) (c : StakingCall) : Bool :=
  decide (c.input = .slash e) && c.result.isOk

/-- A call that registers the validator. -/
def Registers (a : Address) (c : StakingCall) : Bool :=
  match c.input, c.result with
  | .addValidator v, .ok _ => decide (v.address = a)
  | _, _ => false

def isRegistered (m : StakingModule) (a : Address) : Bool := (m.validators[a]?).isSome

/-- One call, whatever came before it. -/
theorem deducts_slash_iff (m : StakingModule) (e : SlashingEvidence) :
    stakeOf (slash m e).2 e.validator < stakeOf m e.validator ↔
      ∃ target, Indicts m e target ∧ e.evidenceType.penalty target.stake ≠ 0#128 := by
  rcases slash_error_or_indicts m e with ⟨⟨err, heq⟩, hno⟩ | ⟨target, htarget⟩
  · rw [heq]
    simp [hno]
  · have hunique : (∃ other, Indicts m e other ∧ e.evidenceType.penalty other.stake ≠ 0#128) ↔
        e.evidenceType.penalty target.stake ≠ 0#128 := by
      constructor
      · rintro ⟨other, hother, hpos⟩
        rwa [Option.some.inj (htarget.1.symm.trans hother.1)]
      · exact fun hpos => ⟨target, htarget, hpos⟩
    have hle := penalty_le e.evidenceType target.stake
    have hzero : e.evidenceType.penalty target.stake = 0#128 ↔ (e.evidenceType.penalty target.stake).toNat = 0 :=
      BitVec.toNat_inj.symm
    rw [hunique, stakeOf_slash htarget, stakeOf_some htarget.1, ne_eq, hzero]
    omega

/-- Writing the entry of a registered validator registers no other. -/
theorem isSome_insert_of_some {validators : Map Address Validator} {b : Address} {w : Validator}
    (h : validators[b]? = some w) (v : Validator) (a : Address) :
    ((validators.insert b v)[a]?).isSome = (validators[a]?).isSome := by
  by_cases e : b = a
  · subst e
    simp [h]
  · rw [Map.get_insert_ne _ _ e]

theorem isSome_of_erase {validators : Map Address Validator} {a b : Address}
    (h : ((validators.erase b)[a]?).isSome = true) : (validators[a]?).isSome = true := by
  by_cases e : b = a
  · subst e
    simp at h
  · rwa [Map.get_erase_ne _ e] at h

/-- A validator that is registered after a call was so before, or the call registers it. -/
theorem isRegistered_step {m : StakingModule} {op : StakingOp} {a : Address}
    (h : (step m op).2.isRegistered a = true) :
    m.isRegistered a = true ∨ Registers a ⟨m, op, (step m op).1, (step m op).2⟩ = true := by
  unfold isRegistered at h ⊢
  cases op with
  | addValidator v =>
    rcases addValidator_cases m v with ⟨e, heq⟩ | ⟨-, heq⟩
    · simp only [step, heq] at h
      exact .inl h
    · by_cases ha : v.address = a
      · exact .inr (by simp [Registers, step, heq, Except.map, ha])
      · simp only [step, heq, Map.get_insert_ne _ _ ha] at h
        exact .inl h
  | delegate d v amount =>
    left
    rcases delegate_cases m d v amount with ⟨e, heq⟩ | ⟨target, _, _, ht, -, -, heq⟩
    · simpa only [step, heq] using h
    · simpa only [step, heq, isSome_insert_of_some ht] using h
  | undelegate d v amount =>
    left
    rcases undelegate_cases m d v amount with ⟨-, e, heq⟩ | ⟨-, _, -, heq⟩
    · simpa only [step, heq] using h
    · simp only [step, heq, settleStake] at h
      cases ht : m.validators[v]? with
      | none => simpa only [ht, Option.elim_none] using h
      | some target => simpa only [ht, Option.elim_some, isSome_insert_of_some ht] using h
  | slash e =>
    left
    rcases slash_cases m e with ⟨err, heq⟩ | ⟨target, ht, heq | ⟨-, heq⟩ | heq⟩
    · simpa only [step, heq] using h
    · simpa only [step, heq] using h
    · simp only [step, heq] at h
      exact isSome_of_erase h
    · simpa only [step, heq, isSome_insert_of_some ht] using h

/-- A double signing that takes stake ends the registration. -/
theorem deregisters_of_deducts {m : StakingModule} {e : SlashingEvidence} (htype : e.evidenceType = .doubleSign)
    (h : stakeOf (slash m e).2 e.validator < stakeOf m e.validator) :
    m.isRegistered e.validator = true ∧ (slash m e).2.isRegistered e.validator = false := by
  obtain ⟨target, htarget, hpos⟩ := (deducts_slash_iff m e).mp h
  have hall : e.evidenceType.penalty target.stake = target.stake := by rw [htype, SlashingType.penalty]
  refine ⟨by simp [isRegistered, htarget.1], ?_⟩
  rcases slash_spec htarget with ⟨hzero, -⟩ | ⟨-, -, heq⟩ | ⟨-, hsome, -⟩
  · exact absurd hzero hpos
  · simp [isRegistered, heq]
  · rw [hall] at hsome
    exact absurd hsome (BitVec.lt_irrefl _)

/-- The log has one entry for each accepted call. -/
theorem count_slashings_step (m : StakingModule) (op : StakingOp) (e : SlashingEvidence) :
    (step m op).2.slashings.count e =
      m.slashings.count e + if Presents e ⟨m, op, (step m op).1, (step m op).2⟩ then 1 else 0 := by
  cases op with
  | addValidator v =>
    rcases addValidator_cases m v with ⟨_, heq⟩ | ⟨-, heq⟩
    all_goals simp [Presents, step, heq]
  | delegate d v amount =>
    rcases delegate_cases m d v amount with ⟨_, heq⟩ | ⟨_, _, _, -, -, -, heq⟩
    all_goals simp [Presents, step, heq]
  | undelegate d v amount =>
    rcases undelegate_cases m d v amount with ⟨-, _, heq⟩ | ⟨-, _, -, heq⟩
    all_goals simp [Presents, step, heq]
  | slash f =>
    rcases slash_error_or_indicts m f with ⟨⟨err, heq⟩, -⟩ | ⟨target, htarget⟩
    · simp [Presents, step, heq, Except.map, Except.isOk, Except.toBool]
    · have hok := slash_ok htarget
      by_cases hf : f = e
      · subst hf
        simp [Presents, step, hok, slashings_slash htarget, Except.map, Except.isOk, Except.toBool]
      · simp [Presents, step, slashings_slash htarget, hf]

/-! ### Over a run -/

section Trace
variable {m : StakingModule} {ops : List StakingOp} {e : SlashingEvidence}

theorem deducts_iff {c : StakingCall} (hc : c ∈ trace step m ops) (hinput : c.input = .slash e) :
    Deducts e c = true ↔ stakeOf (slash c.before e).2 e.validator < stakeOf c.before e.validator := by
  rw [Deducts, decide_eq_true_iff, (slash_of_mem_trace hc hinput).2]
  exact and_iff_right hinput

theorem presents_of_deducts {c : StakingCall} (hc : c ∈ trace step m ops) (h : Deducts e c = true) :
    Presents e c = true := by
  have hinput : c.input = .slash e := (of_decide_eq_true h).1
  obtain ⟨target, htarget, -⟩ := (deducts_slash_iff _ _).mp ((deducts_iff hc hinput).mp h)
  rw [Presents, (slash_of_mem_trace hc hinput).1, slash_ok htarget, decide_eq_true hinput]
  rfl

/-- Double signings that take stake switch the registration off, and only registering switches it on. -/
theorem countP_deducts_le (htype : e.evidenceType = .doubleSign) :
    (trace step m ops).countP (Deducts e) ≤
      (trace step m ops).countP (Registers e.validator) + (m.isRegistered e.validator).toNat := by
  have hoff : (trace step m ops).countP (Deducts e) ≤
      (trace step m ops).countP
        (fun c => c.before.isRegistered e.validator && !c.after.isRegistered e.validator) := by
    refine List.countP_mono_left fun c hc hded => ?_
    have hinput : c.input = .slash e := (of_decide_eq_true hded).1
    obtain ⟨hbefore, hafter⟩ := deregisters_of_deducts htype ((deducts_iff hc hinput).mp hded)
    rw [(slash_of_mem_trace hc hinput).2, hbefore, hafter]
    rfl
  have hon : (trace step m ops).countP
        (fun c => !c.before.isRegistered e.validator && c.after.isRegistered e.validator) ≤
      (trace step m ops).countP (Registers e.validator) := by
    refine List.countP_mono_left fun c hc hswitch => ?_
    rw [Bool.and_eq_true, Bool.not_eq_true'] at hswitch
    have hcall := trace_step step m ops c hc
    have hregistered : (step c.before c.input).2.isRegistered e.validator = true := by
      rw [hcall]
      exact hswitch.2
    rcases isRegistered_step hregistered with hold | hnew
    · rw [hswitch.1] at hold
      cases hold
    · rwa [hcall] at hnew
  have hturns := countP_turns step (fun m => m.isRegistered e.validator) m ops
  omega

end Trace

/-- **No evidence is remembered.** In any run a call with the evidence takes stake exactly when the validator is
registered, the proof is not empty and the penalty on its stake of the moment is not zero, however often the
evidence was presented before. The log has one entry for each accepted presentation, so it bounds the calls that
take stake. A double signing takes stake at most once per registration of its validator, in any part of a run. -/
theorem slash_forgets (ops : List StakingOp) (e : SlashingEvidence) :
    (∀ c ∈ trace step new ops, c.input = .slash e →
      (Deducts e c = true ↔ ∃ target, c.before.validators[e.validator]? = some target ∧ e.proof ≠ [] ∧
        e.evidenceType.penalty target.stake ≠ 0#128)) ∧
    (final step new ops).slashings.count e = (trace step new ops).countP (Presents e) ∧
    (trace step new ops).countP (Deducts e) ≤ (final step new ops).slashings.count e ∧
    (e.evidenceType = .doubleSign → ∀ more,
      (trace step (final step new ops) more).countP (Deducts e) ≤
        (trace step (final step new ops) more).countP (Registers e.validator) +
          ((final step new ops).isRegistered e.validator).toNat) := by
  have hlog : (final step new ops).slashings.count e = (trace step new ops).countP (Presents e) := by
    rw [level_trace step (Presents e) (fun m => m.slashings.count e) (fun m op => count_slashings_step m op e)]
    exact Nat.zero_add _
  refine ⟨fun c hc hinput => ?_, hlog, ?_, fun htype more => countP_deducts_le htype⟩
  · rw [deducts_iff hc hinput, deducts_slash_iff]
    simp only [Indicts, and_assoc]
  · rw [hlog]
    exact List.countP_mono_left fun c hc => presents_of_deducts hc

/-- A validator that is registered, ejected, and registered again. -/
def reregistered : List StakingOp :=
  let v : Validator := ⟨Vector.replicate 20 1, [1, 1, 1], 10000000#128, 1000#64, .finite (999 / 1000)⟩
  [.addValidator v, .slash equivocation, .slash equivocation, .addValidator v, .slash equivocation]

/-- One double signing, presented three times, takes the stake of both registrations. -/
theorem slash_forgets_reregistered :
    (trace step new reregistered).countP (Deducts equivocation) = 2 ∧
      (trace step new reregistered).countP (Registers equivocation.validator) = 2 ∧
      (final step new reregistered).slashings.count equivocation = 2 ∧
      (trace step (final step new []) reregistered).countP (Deducts equivocation) ≤
        (trace step (final step new []) reregistered).countP (Registers equivocation.validator) +
          ((final step new []).isRegistered equivocation.validator).toNat := by
  refine ⟨by decide +kernel, by decide +kernel, by decide +kernel, ?_⟩
  exact (slash_forgets [] equivocation).2.2.2 rfl reregistered

/-- One and the same report of downtime. -/
def outage : SlashingEvidence := ⟨Vector.replicate 20 1, .downtime, 7#64, [1]⟩

/-- Presented twice, it is punished twice. -/
theorem outage_punished_twice :
    let v : Validator := ⟨Vector.replicate 20 1, [1, 1, 1], 10000000#128, 1000#64, .finite (999 / 1000)⟩
    let ops := [.addValidator v, .slash outage, .slash outage]
    (trace step new ops).countP (Deducts outage) = 2 ∧ stakeOf (final step new ops) outage.validator = 9801000 := by
  decide +kernel

end StakingModule
end Subhost
