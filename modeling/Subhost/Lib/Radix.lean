import Subhost.Lib.Uint
import Mathlib.Data.Nat.Digits.Defs
/-!
# Reading numerals into machine integers

The digit loop of an integer parser multiplies by the radix and adds a digit, with checked arithmetic, and ends
at the first symbol that is no digit or where the value no longer fits. `loop_eq_ok_iff` says what it computes:
the number its symbols stand for, if all are digits and the number fits. `parse` is the loop behind the rules for
signs of an unsigned type, where one leading plus is skipped. Printed numbers are read back
(`value_toDigits`).

The symbols are of any type; `digit` gives their values.
-/
namespace Radix
open Uint

/-- Why a text is no number of the type. -/
inductive IntErrorKind where
  | empty
  | invalidDigit
  | posOverflow
deriving DecidableEq, Repr

section
variable {σ : Type} (radix : Nat) (digit : σ → Option Nat)

/-- The number `digits` stand for when they follow a numeral of the value `acc`. -/
def valueFrom (acc : Nat) (digits : List σ) : Nat :=
  digits.foldl (fun acc c => radix * acc + (digit c).getD 0) acc

/-- The number a numeral stands for. -/
def value (digits : List σ) : Nat := valueFrom radix digit 0 digits

/-- The digit loop. A symbol that is no digit is noticed before an overflow at the same place. -/
def loop (w : Nat) : BitVec w → List σ → Except IntErrorKind (BitVec w)
  | result, [] => .ok result
  | result, c :: rest =>
    let shifted := checkedMul result (BitVec.ofNat w radix)
    match digit c with
    | none => .error .invalidDigit
    | some d =>
      match shifted.bind fun shifted => checkedAdd shifted (BitVec.ofNat w d) with
      | none => .error .posOverflow
      | some next => loop w next rest

/-- The parser of an unsigned type: no empty text, no lone sign, and one leading plus is skipped. -/
def parse [DecidableEq σ] (plus minus : σ) (w : Nat) (src : List σ) : Except IntErrorKind (BitVec w) :=
  match src with
  | [] => .error .empty
  | c :: rest =>
    if rest.isEmpty ∧ (c = plus ∨ c = minus) then .error .invalidDigit
    else if c = plus then loop radix digit w 0#w rest
    else loop radix digit w 0#w src

/-- A numeral of the language: digits, at least one of them. -/
def Numeral (digits : List σ) : Prop := digits ≠ [] ∧ ∀ c ∈ digits, (digit c).isSome

end

section
variable {σ : Type} {radix : Nat} {digit : σ → Option Nat} {w : Nat}

theorem le_valueFrom (digit : σ → Option Nat) (hradix : 0 < radix) (acc : Nat) (digits : List σ) :
    acc ≤ valueFrom radix digit acc digits := by
  induction digits generalizing acc with
  | nil => exact Nat.le_refl _
  | cons c rest ih =>
    have hone : acc ≤ radix * acc := Nat.le_mul_of_pos_left acc hradix
    exact (hone.trans (Nat.le_add_right _ _)).trans (ih _)

/-- One round of the loop. -/
theorem loop_cons (hradix : radix < 2 ^ w) {c : σ} {d : Nat} (hd : digit c = some d) (hsmall : d < radix)
    (result : BitVec w) (rest : List σ) :
    loop radix digit w result (c :: rest) =
      if radix * result.toNat + d < 2 ^ w then loop radix digit w (BitVec.ofNat w (radix * result.toNat + d)) rest
      else .error .posOverflow := by
  have hbase : (BitVec.ofNat w radix).toNat = radix := by rw [BitVec.toNat_ofNat, Nat.mod_eq_of_lt hradix]
  have hdigit : (BitVec.ofNat w d).toNat = d := by
    rw [BitVec.toNat_ofNat, Nat.mod_eq_of_lt (hsmall.trans hradix)]
  rw [loop, hd]
  cases hmul : checkedMul result (BitVec.ofNat w radix) with
  | none =>
    have hover := checkedMul_eq_none.mp hmul
    rw [hbase, Nat.mul_comm] at hover
    rw [if_neg (by omega)]
    rfl
  | some shifted =>
    have hshifted := checkedMul_eq_some.mp hmul
    rw [hbase, Nat.mul_comm] at hshifted
    dsimp only [Option.bind_some]
    cases hadd : checkedAdd shifted (BitVec.ofNat w d) with
    | none =>
      have hover := checkedAdd_eq_none.mp hadd
      rw [hdigit] at hover
      rw [if_neg (by omega)]
    | some next =>
      have hnext := checkedAdd_eq_some.mp hadd
      rw [hdigit, hshifted] at hnext
      have hfit := next.isLt
      rw [if_pos (by omega), ← hnext, BitVec.ofNat_toNat, BitVec.setWidth_eq]

theorem loop_cons_none {c : σ} (hc : digit c = none) (result : BitVec w) (rest : List σ) :
    loop radix digit w result (c :: rest) = .error .invalidDigit := by
  rw [loop, hc]

/-- **The loop reads numerals that fit**, and nothing else. -/
theorem loop_eq_ok_iff (hradix : radix < 2 ^ w) (hdigit : ∀ c d, digit c = some d → d < radix)
    (result n : BitVec w) (src : List σ) :
    loop radix digit w result src = .ok n ↔
      (∀ c ∈ src, (digit c).isSome) ∧ valueFrom radix digit result.toNat src < 2 ^ w ∧
        n = BitVec.ofNat w (valueFrom radix digit result.toNat src) := by
  induction src generalizing result with
  | nil =>
    have hsame : BitVec.ofNat w result.toNat = result := by rw [BitVec.ofNat_toNat, BitVec.setWidth_eq]
    rw [loop, valueFrom, List.foldl_nil, hsame, Except.ok.injEq, eq_comm (a := n)]
    simp [result.isLt]
  | cons c rest ih =>
    cases hc : digit c with
    | none => simp [loop_cons_none hc, hc]
    | some d =>
      have hsmall := hdigit c d hc
      have hvalue : valueFrom radix digit result.toNat (c :: rest) =
          valueFrom radix digit (radix * result.toNat + d) rest := by
        simp [valueFrom, hc]
      rw [loop_cons hradix hc hsmall, hvalue]
      split
      · rename_i hfit
        rw [ih, BitVec.toNat_ofNat, Nat.mod_eq_of_lt hfit, List.forall_mem_cons, hc]
        simp
      · -- what does not fit now does not fit with more digits
        rename_i hover
        have hmono := le_valueFrom digit (Nat.zero_lt_of_lt hsmall)
          (radix * result.toNat + d) rest
        simp only [reduceCtorEq, false_iff, not_and]
        intro _ hfit
        omega

/-- **What the parser accepts**: a numeral that fits, with or without a plus. -/
theorem parse_eq_ok_iff [DecidableEq σ] (digit : σ → Option Nat) (plus minus : σ) (hradix : radix < 2 ^ w)
    (hdigit : ∀ c d, digit c = some d → d < radix) (hplus : digit plus = none) (hminus : digit minus = none)
    (src : List σ) (n : BitVec w) :
    parse radix digit plus minus w src = .ok n ↔
      ∃ digits, (src = digits ∨ src = plus :: digits) ∧ Numeral digit digits ∧
        value radix digit digits < 2 ^ w ∧ n = BitVec.ofNat w (value radix digit digits) := by
  have hloop : ∀ digits : List σ, loop radix digit w 0#w digits = .ok n ↔
      (∀ c ∈ digits, (digit c).isSome) ∧ value radix digit digits < 2 ^ w ∧
        n = BitVec.ofNat w (value radix digit digits) :=
    fun digits => loop_eq_ok_iff hradix hdigit 0#w n digits
  cases src with
  | nil =>
    simp only [parse, reduceCtorEq, false_iff]
    rintro ⟨digits, rfl | hcons, hnumeral, -⟩
    · exact hnumeral.1 rfl
    · cases hcons
  | cons c rest =>
    -- a sign is no digit, so a text that starts with one is no numeral itself
    have hsign : ∀ s, digit s = none → ∀ tail : List σ, ¬ Numeral digit (s :: tail) := by
      intro s hs tail hnumeral
      have := hnumeral.2 s (List.mem_cons_self ..)
      simp [hs] at this
    rw [parse]
    split
    · rename_i hlone
      obtain ⟨hempty, hc⟩ := hlone
      rw [List.isEmpty_iff] at hempty
      subst hempty
      simp only [reduceCtorEq, false_iff]
      rintro ⟨digits, rfl | hcons, hnumeral, -⟩
      · rcases hc with rfl | rfl
        · exact hsign _ hplus _ hnumeral
        · exact hsign _ hminus _ hnumeral
      · exact hnumeral.1 (List.cons.inj hcons).2.symm
    · rename_i hlone
      split
      · rename_i hc
        subst hc
        rw [hloop]
        constructor
        · rintro ⟨hall, hfit, hn⟩
          refine ⟨rest, .inr rfl, ⟨?_, hall⟩, hfit, hn⟩
          rintro rfl
          exact hlone ⟨rfl, .inl rfl⟩
        · rintro ⟨digits, rfl | hcons, hnumeral, hfit, hn⟩
          · exact absurd hnumeral (hsign _ hplus _)
          · cases hcons
            exact ⟨hnumeral.2, hfit, hn⟩
      · rename_i hc
        rw [hloop]
        constructor
        · rintro ⟨hall, hfit, hn⟩
          exact ⟨c :: rest, .inl rfl, ⟨by simp, hall⟩, hfit, hn⟩
        · rintro ⟨digits, rfl | hcons, hnumeral, hfit, hn⟩
          · exact ⟨hnumeral.2, hfit, hn⟩
          · exact absurd (List.cons.inj hcons).1 hc

/-! Printed numbers -/

theorem value_concat (digits : List σ) (c : σ) :
    value radix digit (digits ++ [c]) = radix * value radix digit digits + (digit c).getD 0 := by
  rw [value, valueFrom, List.foldl_append]
  rfl

theorem value_toDigits {digit : Char → Option Nat} (hradix : 1 < radix)
    (hdigit : ∀ d < radix, digit (Nat.digitChar d) = some d) (n : Nat) :
    value radix digit (Nat.toDigits radix n) = n := by
  induction n using Nat.strongRecOn with
  | ind n ih =>
    rw [Nat.toDigits_eq_if hradix]
    split
    · rename_i hlt
      simp [value, valueFrom, hdigit n hlt]
    · rename_i hge
      have hsmaller : n / radix < n := Nat.div_lt_self (by omega) hradix
      rw [value_concat, ih (n / radix) hsmaller, hdigit (n % radix) (Nat.mod_lt n (by omega)), Option.getD_some]
      exact Nat.div_add_mod n radix

theorem numeral_toDigits {digit : Char → Option Nat} (hradix : 1 < radix)
    (hdigit : ∀ d < radix, digit (Nat.digitChar d) = some d) (n : Nat) : Numeral digit (Nat.toDigits radix n) := by
  induction n using Nat.strongRecOn with
  | ind n ih =>
    rw [Nat.toDigits_eq_if hradix]
    split
    · rename_i hlt
      exact ⟨by simp, by simp [hdigit n hlt]⟩
    · rename_i hge
      obtain ⟨-, hall⟩ := ih (n / radix) (Nat.div_lt_self (by omega) hradix)
      refine ⟨by simp, ?_⟩
      intro c hc
      rcases List.mem_append.mp hc with hc | hc
      · exact hall c hc
      · rw [List.mem_singleton.mp hc, hdigit (n % radix) (Nat.mod_lt n (by omega))]
        rfl

end

/-! ## Decimal digits -/

def decimalValue (c : Char) : Option Nat := if '0' ≤ c ∧ c ≤ '9' then some (c.toNat - 48) else none

/-- The number that decimal digits stand for. -/
def decimal (digits : List Char) : Nat := value 10 decimalValue digits

theorem isSome_decimalValue_iff {c : Char} : (decimalValue c).isSome = true ↔ '0' ≤ c ∧ c ≤ '9' := by
  unfold decimalValue
  split
  · rename_i h
    simpa using h
  · rename_i h
    simpa using h

theorem decimalValue_bounds {c : Char} {d : Nat} (h : decimalValue c = some d) : c.toNat < 128 ∧ d < 10 := by
  unfold decimalValue at h
  split at h
  · rename_i hdigit
    have hlo : 48 ≤ c.toNat := hdigit.1
    have hhi : c.toNat ≤ 57 := hdigit.2
    cases h
    omega
  · cases h

theorem decimalValue_digitChar : ∀ d < 10, decimalValue (Nat.digitChar d) = some d := by decide

theorem decimal_toDigits (n : Nat) : decimal (Nat.toDigits 10 n) = n :=
  value_toDigits (by decide) decimalValue_digitChar n

end Radix
