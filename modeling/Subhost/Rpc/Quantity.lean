import Subhost.Lib.Radix
import Subhost.Rpc.Request
import Mathlib.Data.Nat.Digits.Defs
/-!
# Quantities (subhost-rpc/src/lib.rs:408-431)

| here | there |
| --- | --- |
| `hexDigits`, `hexQuantity`, `hexAmount` | `hex_digits`, `hex_quantity`, `hex_amount`, by characters |
| `hexDigitsUtf8`, `hexNumberUtf8`        | the same, by the bytes of the text |
| `fromAsciiRadix`                        | `from_str_radix(_, 16)` of `u64` and `u128`: signs, digits, checked arithmetic |

The code checks the bytes of the digits and hands them to an integer parser with rules of its own: it takes a
leading `+`, and it refuses what overflows. After the checks neither signs nor characters outside ASCII are left,
and the parser only measures the value (`hexNumberUtf8_eq`).

What is read is a canonical numeral (`Canonical`): every number has one, which is what `0x{:x}` prints, up to the
case of its letters (`quantities_strict`).
-/
namespace Subhost
open Uint Bincode

/-! ## Digits -/

theorem hexValue_bounds {c : Char} {n : Nat} (h : hexValue c = some n) : c.toNat < 128 ∧ n < 16 := by
  unfold hexValue at h
  split at h
  · rename_i hdigit
    have hlo : 48 ≤ c.toNat := hdigit.1
    have hhi : c.toNat ≤ 57 := hdigit.2
    cases h
    omega
  · split at h
    · rename_i hlower
      have hlo : 97 ≤ c.toNat := hlower.1
      have hhi : c.toNat ≤ 102 := hlower.2
      cases h
      omega
    · split at h
      · rename_i hupper
        have hlo : 65 ≤ c.toNat := hupper.1
        have hhi : c.toNat ≤ 70 := hupper.2
        cases h
        omega
      · cases h

/-- What holds of the digits among the ASCII codes holds of all digits. -/
theorem of_hexValue {P : Char → Nat → Prop}
    (h : ∀ code < 128, ∀ n < 16, hexValue (Char.ofNat code) = some n → P (Char.ofNat code) n) {c : Char} {n : Nat}
    (hc : hexValue c = some n) : P c n := by
  obtain ⟨hcode, hn⟩ := hexValue_bounds hc
  have hascii := h c.toNat hcode n hn
  rw [Char.ofNat_toNat] at hascii
  exact hascii hc

theorem toLower_of_hexValue {c : Char} {n : Nat} (h : hexValue c = some n) : c.toLower = hexDigit n :=
  of_hexValue (P := fun c n => c.toLower = hexDigit n) (by decide) h

/-- Only `0` has the value zero. -/
theorem hexValue_ne_zero {c : Char} {n : Nat} (h : hexValue c = some n) : c ≠ '0' → n ≠ 0 :=
  of_hexValue (P := fun c n => c ≠ '0' → n ≠ 0) (by decide) h

theorem digitChar_eq_hexDigit : ∀ n < 16, Nat.digitChar n = hexDigit n := by decide

theorem hexValue_digitChar : ∀ d < 16, hexValue (Nat.digitChar d) = some d := by decide

/-- A hexadecimal digit of either case. -/
def IsHexDigit (c : Char) : Prop := '0' ≤ c ∧ c ≤ '9' ∨ 'a' ≤ c ∧ c ≤ 'f' ∨ 'A' ≤ c ∧ c ≤ 'F'

theorem isSome_hexValue_iff {c : Char} : (hexValue c).isSome = true ↔ IsHexDigit c := by
  unfold hexValue IsHexDigit
  grind

theorem IsHexDigit.hexValue {c : Char} (h : IsHexDigit c) : ∃ n < 16, Subhost.hexValue c = some n := by
  obtain ⟨n, hn⟩ := Option.isSome_iff_exists.mp (isSome_hexValue_iff.mpr h)
  exact ⟨n, (hexValue_bounds hn).2, hn⟩

/-! ## Numerals -/

/-- `0` alone, or digits that do not start with `0`. -/
def Canonical (digits : List Char) : Prop :=
  digits = ['0'] ∨ ∃ d ds, digits = d :: ds ∧ d ≠ '0' ∧ IsHexDigit d ∧ ∀ c ∈ ds, IsHexDigit c

/-- The number a numeral stands for in base 16. -/
def positional (digits : List Char) : Nat := Nat.ofDigits 16 (digits.reverse.map fun c => (hexValue c).getD 0)

theorem positional_concat (digits : List Char) (c : Char) :
    positional (digits ++ [c]) = 16 * positional digits + (hexValue c).getD 0 := by
  rw [positional, List.reverse_append, List.reverse_singleton, List.singleton_append, List.map_cons, Nat.ofDigits_cons,
    Nat.add_comm]
  rfl

/-- The fold of `fromStrRadix` computes it. -/
theorem foldl_eq_positional (digits : List Char) :
    digits.foldl (fun acc c => 16 * acc + (hexValue c).getD 0) 0 = positional digits := by
  induction digits using List.reverseRecOn with
  | nil => rfl
  | append_singleton digits c ih => rw [List.foldl_append, ih, positional_concat]; rfl

/-- A canonical numeral that does not stand for zero is printed back in lower case. -/
theorem toDigits_positional_cons {d : Char} {ds : List Char} (hd : d ≠ '0') (hhex : ∀ c ∈ d :: ds, IsHexDigit c) :
    0 < positional (d :: ds) ∧ Nat.toDigits 16 (positional (d :: ds)) = (d :: ds).map Char.toLower := by
  -- the last digit is split off, so that the first one stays in place
  induction ds using List.reverseRecOn with
  | nil =>
    obtain ⟨n, hn, hvalue⟩ := (hhex d (by simp)).hexValue
    have hone : positional [d] = n := by simp [positional, hvalue]
    rw [hone, Nat.toDigits_of_lt_base hn, digitChar_eq_hexDigit n hn, List.map_singleton, toLower_of_hexValue hvalue]
    exact ⟨Nat.pos_of_ne_zero (hexValue_ne_zero hvalue hd), rfl⟩
  | append_singleton ds c ih =>
    obtain ⟨hpos, hdigits⟩ := ih fun x hx => hhex x (by simp at hx ⊢; tauto)
    obtain ⟨n, hn, hvalue⟩ := (hhex c (by simp)).hexValue
    have hlast : positional (d :: (ds ++ [c])) = 16 * positional (d :: ds) + n := by
      rw [← List.cons_append, positional_concat, hvalue, Option.getD_some]
    refine ⟨by omega, ?_⟩
    rw [hlast, ← Nat.toDigits_append_toDigits (by decide) hpos hn, hdigits, Nat.toDigits_of_lt_base hn,
      digitChar_eq_hexDigit n hn, ← toLower_of_hexValue hvalue]
    simp

theorem toDigits_positional {digits : List Char} (h : Canonical digits) :
    Nat.toDigits 16 (positional digits) = digits.map Char.toLower := by
  rcases h with rfl | ⟨d, ds, rfl, hd, hhex, hrest⟩
  · decide
  · exact (toDigits_positional_cons hd (List.forall_mem_cons.mpr ⟨hhex, hrest⟩)).2

theorem positional_toDigits (n : Nat) : positional (Nat.toDigits 16 n) = n := by
  rw [← foldl_eq_positional]
  exact Radix.value_toDigits (by decide) hexValue_digitChar n

theorem isHexDigit_digitChar {n : Nat} (h : n < 16) : IsHexDigit (Nat.digitChar n) :=
  isSome_hexValue_iff.mp (by rw [hexValue_digitChar n h]; rfl)

theorem canonical_toDigits (n : Nat) : Canonical (Nat.toDigits 16 n) := by
  induction n using Nat.strongRecOn with
  | ind n ih =>
    by_cases hlt : n < 16
    · rw [Nat.toDigits_of_lt_base hlt]
      by_cases hzero : n = 0
      · exact .inl (by rw [hzero]; rfl)
      · exact .inr ⟨_, [], rfl, by simpa using hzero, isHexDigit_digitChar hlt, by simp⟩
    · rw [Nat.toDigits_of_base_le (by decide) (Nat.le_of_not_lt hlt)]
      have hlast : IsHexDigit (Nat.digitChar (n % 16)) := isHexDigit_digitChar (Nat.mod_lt n (by decide))
      rcases ih (n / 16) (by omega) with hzero | ⟨d, ds, heq, hd, hhex, hrest⟩
      · -- only zero is printed as `0`
        have hvalue := positional_toDigits (n / 16)
        rw [hzero] at hvalue
        have hnone : positional ['0'] = 0 := by decide
        omega
      · refine .inr ⟨d, ds ++ [Nat.digitChar (n % 16)], by rw [heq]; rfl, hd, hhex, ?_⟩
        intro c hc
        rcases List.mem_append.mp hc with hc | hc
        · exact hrest c hc
        · rwa [List.mem_singleton.mp hc]

/-! ## By characters -/

theorem strip0x_eq_some_iff {text : String} {digits : List Char} :
    strip0x text = some digits ↔ text = "0x" ++ String.ofList digits := by
  unfold strip0x
  constructor
  · intro h
    split at h
    · rename_i rest heq
      cases h
      apply String.toList_injective
      simpa using heq
    · cases h
  · rintro rfl
    simp

theorem all_hexValue_iff {digits : List Char} :
    digits.all (fun c => (hexValue c).isSome) = true ↔ ∀ c ∈ digits, IsHexDigit c := by
  simp only [List.all_eq_true, isSome_hexValue_iff]

/-- The three checks of `hex_digits` together. -/
theorem canonical_iff {digits : List Char} :
    Canonical digits ↔ ¬ (digits.isEmpty ∨ (1 < digits.length ∧ digits.head? = some '0') ∨
      ¬ digits.all (fun c => (hexValue c).isSome)) := by
  rw [all_hexValue_iff]
  cases digits with
  | nil => simp [Canonical]
  | cons d ds =>
    have hzero : IsHexDigit '0' := .inl (by decide)
    simp only [Canonical, List.cons.injEq, List.isEmpty_cons, Bool.false_eq_true, false_or, List.length_cons,
      List.head?_cons, Option.some.injEq, not_or, not_not, List.forall_mem_cons]
    constructor
    · rintro (⟨rfl, rfl⟩ | ⟨_, _, ⟨rfl, rfl⟩, hd, hhex, hrest⟩)
      · exact ⟨by simp, hzero, by simp⟩
      · exact ⟨fun h => hd h.2, hhex, hrest⟩
    · rintro ⟨hlead, hhex, hrest⟩
      by_cases hd : d = '0'
      · have hshort : ¬ 1 < ds.length + 1 := fun hlong => hlead ⟨hlong, hd⟩
        exact .inl ⟨hd, List.eq_nil_of_length_eq_zero (by omega)⟩
      · exact .inr ⟨d, ds, ⟨rfl, rfl⟩, hd, hhex, hrest⟩

theorem hexDigits_ok_iff {value : Json} {digits : List Char} :
    hexDigits value = .ok digits ↔ value = .string ("0x" ++ String.ofList digits) ∧ Canonical digits := by
  cases value with
  | string text =>
    rw [Json.string.injEq, ← strip0x_eq_some_iff]
    simp only [hexDigits]
    cases strip0x text with
    | none => simp
    | some found =>
      rw [Option.some.injEq]
      by_cases hfound : Canonical found
      · simp only [if_neg (canonical_iff.mp hfound), Except.ok.injEq]
        constructor
        · rintro rfl
          exact ⟨rfl, hfound⟩
        · exact And.left
      · have hrefused := not_not.mp (mt canonical_iff.mpr hfound)
        simp only [if_pos hrefused, reduceCtorEq, false_iff]
        rintro ⟨rfl, h⟩
        exact hfound h
  | _ => simp [hexDigits]

theorem fromStrRadix_eq_some_iff {w : Nat} {digits : List Char} {n : BitVec w} :
    fromStrRadix w digits = some n ↔ positional digits < 2 ^ w ∧ n = BitVec.ofNat w (positional digits) := by
  rw [fromStrRadix, foldl_eq_positional, Option.ite_none_right_eq_some, Option.some.injEq, eq_comm (a := n)]

theorem hexNumber_ok_iff {w : Nat} {value : Json} {default n : BitVec w} :
    hexNumber w (some value) default = .ok n ↔
      ∃ digits, value = .string ("0x" ++ String.ofList digits) ∧ Canonical digits ∧ positional digits < 2 ^ w ∧
        n = BitVec.ofNat w (positional digits) := by
  have hunfold : hexNumber w (some value) default = .ok n ↔
      ∃ digits, hexDigits value = .ok digits ∧ fromStrRadix w digits = some n := by
    cases hdigits : hexDigits value with
    | error e => simp [hexNumber, hdigits, bind, Except.bind]
    | ok digits =>
      cases hread : fromStrRadix w digits with
      | none => simp [hexNumber, hdigits, hread, bind, Except.bind]
      | some m => simp [hexNumber, hdigits, hread, bind, Except.bind]
  rw [hunfold]
  simp only [hexDigits_ok_iff, fromStrRadix_eq_some_iff, and_assoc]

/-- **A printed quantity is read back**, at every width. -/
theorem hexNumber_hexText {w : Nat} (n default : BitVec w) :
    hexNumber w (some (.string (hexText n.toNat))) default = .ok n := by
  refine hexNumber_ok_iff.mpr ⟨_, rfl, canonical_toDigits _, ?_, ?_⟩
  · rw [positional_toDigits]
    exact n.isLt
  · rw [positional_toDigits, BitVec.ofNat_toNat, BitVec.setWidth_eq]

/-- What was read is printed in lower case. -/
theorem hexText_of_hexNumber {w : Nat} {text : String} {default n : BitVec w}
    (h : hexNumber w (some (.string text)) default = .ok n) : hexText n.toNat = text.toLower := by
  obtain ⟨digits, htext, hcanonical, hfit, rfl⟩ := hexNumber_ok_iff.mp h
  rw [Json.string.injEq] at htext
  apply String.toList_injective
  have hlower : text.toLower = text.map Char.toLower := rfl
  rw [hlower, htext, BitVec.toNat_ofNat, Nat.mod_eq_of_lt hfit, hexText, toDigits_positional hcanonical]
  simp

/-! ## By bytes -/

/-- The bytes of a text. -/
def utf8 (text : List Char) : Bytes := text.flatMap String.utf8EncodeChar

/-- `u8::is_ascii_hexdigit`. -/
def isAsciiHexdigit (byte : UInt8) : Bool :=
  (48 ≤ byte && byte ≤ 57) || (65 ≤ byte && byte ≤ 70) || (97 ≤ byte && byte ≤ 102)

/-- The digit loop of `from_str_radix`; a character outside the digits and an overflow both end it. -/
def radixLoop (w : Nat) : BitVec w → Bytes → Option (BitVec w)
  | result, [] => some result
  | result, byte :: rest => do
    let shifted ← checkedMul result (BitVec.ofNat w 16)
    -- `(byte as char).to_digit(16)`
    let digit ← hexValue (Char.ofNat byte.toNat)
    let next ← checkedAdd shifted (BitVec.ofNat w digit)
    radixLoop w next rest

/-- `from_str_radix(src, 16)` of an unsigned integer of `w` bits: no empty text, no lone sign, and a leading `+`
is skipped. -/
def fromAsciiRadix (w : Nat) (src : Bytes) : Option (BitVec w) :=
  match src with
  | [] => none
  | byte :: rest =>
    if rest.isEmpty ∧ (byte = 43 ∨ byte = 45) then none
    else if byte = 43 then radixLoop w 0#w rest
    else radixLoop w 0#w src

/-- `hex_digits` (lib.rs:409). -/
def hexDigitsUtf8 : Json → Except RpcError (List Char)
  | .string text =>
    match strip0x text with
    | none => .error .invalidParams
    | some digits =>
      if digits.isEmpty ∨ (1 < (utf8 digits).length ∧ digits.head? = some '0') ∨
          ¬ (utf8 digits).all isAsciiHexdigit then .error .invalidParams
      else .ok digits
  | _ => .error .invalidParams

/-- `hex_quantity` and `hex_amount` (lib.rs:423, :428) at their widths. -/
def hexNumberUtf8 (w : Nat) (value : Option Json) (default : BitVec w) : Except RpcError (BitVec w) :=
  match value with
  | none => .ok default
  | some value => do
    let digits ← hexDigitsUtf8 value
    (fromAsciiRadix w (utf8 digits)).elim (.error .invalidParams) .ok

/-- A character passes the check of its bytes exactly when it is a digit. -/
theorem all_utf8EncodeChar (c : Char) : (String.utf8EncodeChar c).all isAsciiHexdigit = (hexValue c).isSome := by
  by_cases hascii : c.toNat < 128
  · have hall : ∀ code < 128, (String.utf8EncodeChar (Char.ofNat code)).all isAsciiHexdigit =
        (hexValue (Char.ofNat code)).isSome := by decide
    have hc := hall c.toNat hascii
    rwa [Char.ofNat_toNat] at hc
  · -- beyond ASCII the last byte is a continuation byte
    have hlast : isAsciiHexdigit (UInt8.ofNat (c.val.toNat % 64 + 128)) = false := by
      have hall : ∀ low < 64, isAsciiHexdigit (UInt8.ofNat (low + 128)) = false := by decide
      exact hall _ (Nat.mod_lt _ (by decide))
    have hnone : hexValue c = none := by
      cases hvalue : hexValue c with
      | none => rfl
      | some n => exact absurd (hexValue_bounds hvalue).1 hascii
    have hbeyond : ¬ c.val.toNat ≤ 0x7f := fun h => hascii (Nat.lt_succ_of_le h)
    rw [hnone]
    simp only [String.utf8EncodeChar, if_neg hbeyond]
    split
    · simp only [List.all_cons, hlast, Bool.false_and, Bool.and_false, Option.isSome_none]
    · split
      · simp only [List.all_cons, hlast, Bool.false_and, Bool.and_false, Option.isSome_none]
      · simp only [List.all_cons, hlast, Bool.false_and, Bool.and_false, Option.isSome_none]

theorem all_utf8 (digits : List Char) :
    (utf8 digits).all isAsciiHexdigit = digits.all (fun c => (hexValue c).isSome) := by
  rw [utf8, List.all_flatMap]
  simp only [all_utf8EncodeChar]

/-- Characters of ASCII are encoded by one byte each. -/
theorem utf8_eq_map {text : List Char} (h : ∀ c ∈ text, c.toNat < 128) :
    utf8 text = text.map fun c => UInt8.ofNat c.toNat := by
  induction text with
  | nil => rfl
  | cons c rest ih =>
    rw [List.forall_mem_cons] at h
    have hone : String.utf8EncodeChar c = [UInt8.ofNat c.toNat] := if_pos (Nat.le_of_lt_succ h.1)
    rw [utf8, List.flatMap_cons, hone, List.map_cons, ← ih h.2]
    rfl

theorem IsHexDigit.ascii {c : Char} (h : IsHexDigit c) : c.toNat < 128 := by
  obtain ⟨n, -, hvalue⟩ := h.hexValue
  exact (hexValue_bounds hvalue).1

theorem hexDigitsUtf8_eq (value : Json) : hexDigitsUtf8 value = hexDigits value := by
  cases value with
  | string text =>
    simp only [hexDigitsUtf8, hexDigits]
    cases strip0x text with
    | none => rfl
    | some digits =>
      simp only [all_utf8]
      by_cases hall : digits.all (fun c => (hexValue c).isSome) = true
      · -- the lengths are compared only where both count the digits
        have hlen : (utf8 digits).length = digits.length := by
          rw [utf8_eq_map fun c hc => (all_hexValue_iff.mp hall c hc).ascii, List.length_map]
        rw [hlen]
      · simp [hall]
  | _ => rfl

theorem toNat_ofNat_byte (byte : UInt8) : (Char.ofNat byte.toNat).toNat = byte.toNat := by
  have hvalid : byte.toNat.isValidChar := .inl (Nat.lt_trans byte.toNat_lt (by decide))
  rw [Char.ofNat, dif_pos hvalid]
  rfl

theorem utf8EncodeChar_ascii {c : Char} {byte : UInt8} {rest : Bytes} (h : String.utf8EncodeChar c = byte :: rest)
    (hbyte : byte.toNat < 128) : c = Char.ofNat byte.toNat ∧ rest = [] := by
  by_cases hascii : c.val.toNat ≤ 0x7f
  · have hone : String.utf8EncodeChar c = [UInt8.ofNat c.toNat] := if_pos hascii
    have hcode : (UInt8.ofNat c.toNat).toNat = c.toNat := by
      rw [UInt8.toNat_ofNat']
      exact Nat.mod_eq_of_lt (Nat.lt_of_le_of_lt hascii (by decide))
    rw [hone, List.cons.injEq] at h
    exact ⟨by rw [← h.1, hcode, Char.ofNat_toNat], h.2.symm⟩
  · -- the first byte of a longer encoding is marked
    simp only [String.utf8EncodeChar, if_neg hascii] at h
    split at h
    · rw [← (List.cons.inj h).1, UInt8.toNat_ofNat'] at hbyte
      omega
    · split at h
      · rw [← (List.cons.inj h).1, UInt8.toNat_ofNat'] at hbyte
        omega
      · rw [← (List.cons.inj h).1, UInt8.toNat_ofNat'] at hbyte
        omega

/-- A text whose bytes are ASCII is read off its bytes. -/
theorem eq_map_of_utf8 {text : List Char} {bytes : Bytes} (h : utf8 text = bytes) (hascii : ∀ b ∈ bytes, b.toNat < 128) :
    text = bytes.map fun b => Char.ofNat b.toNat := by
  induction text generalizing bytes with
  | nil => rw [← h]; rfl
  | cons c rest ih =>
    cases hc : String.utf8EncodeChar c with
    | nil =>
      have hpos := congrArg List.length hc
      rw [String.length_utf8EncodeChar] at hpos
      exact absurd hpos (Nat.ne_of_gt c.utf8Size_pos)
    | cons byte tail =>
      rw [utf8, List.flatMap_cons, hc] at h
      subst h
      obtain ⟨hsame, rfl⟩ := utf8EncodeChar_ascii hc (hascii byte (by simp))
      have hrest := ih rfl fun b hb => hascii b (List.mem_append_right _ hb)
      rw [List.cons_append, List.map_cons, ← hsame, List.nil_append]
      exact congrArg (c :: ·) hrest

/-- **The integer parsers read ASCII digits**, with or without a plus, at every radix. -/
theorem parse_utf8_eq_ok_iff {radix w : Nat} {value : Char → Option Nat} (hradix : radix < 2 ^ w)
    (hvalue : ∀ c d, value c = some d → c.toNat < 128 ∧ d < radix) (hplus : value '+' = none)
    (hminus : value '-' = none) (text : List Char) (n : BitVec w) :
    Radix.parse radix (fun byte => value (Char.ofNat byte.toNat)) 43 45 w (utf8 text) = .ok n ↔
      ∃ digits, (text = digits ∨ text = '+' :: digits) ∧ Radix.Numeral value digits ∧
        Radix.value radix value digits < 2 ^ w ∧ n = BitVec.ofNat w (Radix.value radix value digits) := by
  rw [Radix.parse_eq_ok_iff (fun byte : UInt8 => value (Char.ofNat byte.toNat)) 43 45 hradix
    (fun c d h => (hvalue _ d h).2) hplus hminus]
  constructor
  · rintro ⟨bytes, hsrc, ⟨hne, hall⟩, hfit, hn⟩
    have hascii : ∀ b ∈ bytes, b.toNat < 128 := by
      intro b hb
      obtain ⟨d, hd⟩ := Option.isSome_iff_exists.mp (hall b hb)
      have hcode := (hvalue _ d hd).1
      rwa [toNat_ofNat_byte] at hcode
    have hnumber : Radix.value radix value (bytes.map fun b => Char.ofNat b.toNat) =
        Radix.value radix (fun byte => value (Char.ofNat byte.toNat)) bytes := List.foldl_map
    refine ⟨bytes.map fun b => Char.ofNat b.toNat, ?_, ⟨by simpa using hne, ?_⟩, by rwa [hnumber], by rwa [hnumber]⟩
    · rcases hsrc with hsrc | hsrc
      · exact .inl (eq_map_of_utf8 hsrc hascii)
      · exact .inr (eq_map_of_utf8 hsrc (List.forall_mem_cons.mpr ⟨by decide, hascii⟩))
    · intro c hc
      obtain ⟨b, hb, rfl⟩ := List.mem_map.mp hc
      exact hall b hb
  · rintro ⟨digits, htext, ⟨hne, hall⟩, hfit, hn⟩
    have hascii : ∀ c ∈ digits, c.toNat < 128 := by
      intro c hc
      obtain ⟨d, hd⟩ := Option.isSome_iff_exists.mp (hall c hc)
      exact (hvalue c d hd).1
    have hchar : ∀ c ∈ digits, Char.ofNat (UInt8.ofNat c.toNat).toNat = c := by
      intro c hc
      have hcode := hascii c hc
      rw [UInt8.toNat_ofNat', Nat.mod_eq_of_lt (by omega), Char.ofNat_toNat]
    have hnumber : Radix.value radix (fun byte => value (Char.ofNat byte.toNat)) (utf8 digits) =
        Radix.value radix value digits := by
      rw [utf8_eq_map hascii]
      refine List.foldl_map.trans (List.foldl_ext _ _ _ fun acc c hc => ?_)
      dsimp only
      rw [hchar c hc]
    refine ⟨utf8 digits, ?_, ⟨?_, ?_⟩, by rwa [hnumber], by rwa [hnumber]⟩
    · rcases htext with rfl | rfl
      · exact .inl rfl
      · exact .inr rfl
    · rw [utf8_eq_map hascii]
      simpa using hne
    · rw [utf8_eq_map hascii]
      intro b hb
      obtain ⟨c, hc, rfl⟩ := List.mem_map.mp hb
      dsimp only
      rw [hchar c hc]
      exact hall c hc

theorem fromAsciiRadix_eq_parse (w : Nat) (src : Bytes) :
    fromAsciiRadix w src = (Radix.parse 16 (fun byte => hexValue (Char.ofNat byte.toNat)) 43 45 w src).toOption := by
  have hloop : ∀ (result : BitVec w) (src : Bytes), radixLoop w result src =
      (Radix.loop 16 (fun byte => hexValue (Char.ofNat byte.toNat)) w result src).toOption := by
    intro result src
    induction src generalizing result with
    | nil => rfl
    | cons byte rest ih =>
      rw [radixLoop, Radix.loop]
      cases hexValue (Char.ofNat byte.toNat) with
      | none =>
        cases checkedMul result (BitVec.ofNat w 16) with
        | none => rfl
        | some shifted => rfl
      | some digit =>
        cases checkedMul result (BitVec.ofNat w 16) with
        | none => rfl
        | some shifted =>
          cases hadd : checkedAdd shifted (BitVec.ofNat w digit) with
          | none => simp [hadd, Except.toOption]
          | some next => simp [hadd, ih]
  cases src with
  | nil => rfl
  | cons byte rest =>
    simp only [fromAsciiRadix, Radix.parse, hloop]
    split
    · rfl
    · split
      · rfl
      · rfl

theorem toOption_eq_some_iff {ε α : Type} {r : Except ε α} {a : α} : r.toOption = some a ↔ r = .ok a := by
  cases r with
  | error e => simp [Except.toOption]
  | ok b => simp [Except.toOption]

/-- `u64::from_str_radix(_, 16)` and its siblings: hexadecimal digits, with or without a plus. -/
theorem fromAsciiRadix_eq_some_iff {w : Nat} (hw : 16 < 2 ^ w) {text : List Char} {n : BitVec w} :
    fromAsciiRadix w (utf8 text) = some n ↔
      ∃ digits, (text = digits ∨ text = '+' :: digits) ∧ digits ≠ [] ∧ (∀ c ∈ digits, IsHexDigit c) ∧
        positional digits < 2 ^ w ∧ n = BitVec.ofNat w (positional digits) := by
  have hvalue : ∀ digits, Radix.value 16 hexValue digits = positional digits := foldl_eq_positional
  rw [fromAsciiRadix_eq_parse, toOption_eq_some_iff, parse_utf8_eq_ok_iff hw (fun c d => hexValue_bounds) (by decide) (by decide)]
  simp only [Radix.Numeral, isSome_hexValue_iff, hvalue, and_assoc]

theorem Canonical.ne_nil {digits : List Char} (h : Canonical digits) : digits ≠ [] := by
  rcases h with rfl | ⟨d, ds, rfl, -⟩
  · simp
  · simp

theorem Canonical.isHexDigit {digits : List Char} (h : Canonical digits) : ∀ c ∈ digits, IsHexDigit c := by
  rcases h with rfl | ⟨d, ds, rfl, -, hhex, hrest⟩
  · simp [IsHexDigit]
  · exact List.forall_mem_cons.mpr ⟨hhex, hrest⟩

/-- On the digits that passed the checks the integer parser is `fromStrRadix`: no sign is left to skip. -/
theorem fromAsciiRadix_eq {w : Nat} (hw : 16 < 2 ^ w) {digits : List Char} (h : Canonical digits) :
    fromAsciiRadix w (utf8 digits) = fromStrRadix w digits := by
  ext n
  rw [fromAsciiRadix_eq_some_iff hw, fromStrRadix_eq_some_iff]
  constructor
  · rintro ⟨found, rfl | hplus, -, -, hread⟩
    · exact hread
    · have hsign := h.isHexDigit '+' (by simp [hplus])
      exact absurd hsign (by simp [IsHexDigit])
  · rintro hread
    exact ⟨digits, .inl rfl, h.ne_nil, h.isHexDigit, hread⟩

-- the parser alone is not strict
example : fromAsciiRadix 64 (utf8 ['+', '0', 'f']) = some 15 := by decide +kernel

/-- **The checks by bytes and the integer parser are the parser by characters.** -/
theorem hexNumberUtf8_eq {w : Nat} (hw : 16 < 2 ^ w) : hexNumberUtf8 w = hexNumber w := by
  funext value default
  cases value with
  | none => rfl
  | some value =>
    simp only [hexNumberUtf8, hexNumber, hexDigitsUtf8_eq]
    cases hdigits : hexDigits value with
    | error e => rfl
    | ok digits =>
      simp only [bind, Except.bind]
      rw [fromAsciiRadix_eq hw (hexDigits_ok_iff.mp hdigits).2]

/-! ## Strictness -/

/-- A parser of optional quantities that reads canonical numerals of its width and nothing else, reads back what
is printed, and loses nothing but the case of letters. -/
structure ReadsQuantities (w : Nat) (parse : Option Json → BitVec w → Except RpcError (BitVec w)) : Prop where
  accepts : ∀ value default n, parse (some value) default = .ok n ↔
    ∃ digits, value = .string ("0x" ++ String.ofList digits) ∧ Canonical digits ∧ positional digits < 2 ^ w ∧
      n = BitVec.ofNat w (positional digits)
  readsBack : ∀ n default, parse (some (.string (hexText n.toNat))) default = .ok n
  lowerCase : ∀ text default n, parse (some (.string text)) default = .ok n → hexText n.toNat = text.toLower

theorem readsQuantities_hexNumber (w : Nat) : ReadsQuantities w (hexNumber w) where
  accepts _ _ _ := hexNumber_ok_iff
  readsBack := hexNumber_hexText
  lowerCase _ _ _ := hexText_of_hexNumber

/-- **Quantities are read strictly**, by `hex_quantity` at 64 bits and by `hex_amount` at 128, and both are what
the byte checks and the integer parser compute. -/
theorem quantities_strict :
    ReadsQuantities 64 hexQuantity ∧ ReadsQuantities 128 hexAmount ∧
      hexNumberUtf8 64 = hexQuantity ∧ hexNumberUtf8 128 = hexAmount :=
  ⟨readsQuantities_hexNumber 64, readsQuantities_hexNumber 128, hexNumberUtf8_eq (by decide),
    hexNumberUtf8_eq (by decide)⟩

end Subhost
