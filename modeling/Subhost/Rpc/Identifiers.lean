import Subhost.Rpc.Quantity
import Subhost.Rpc.Lookup
/-!
# Addresses and hashes as text (subhost-rpc/src/lib.rs:394-406, subhost-core/src/lib.rs:39-59, 88-110)

| here | there |
| --- | --- |
| `parseAddress`, `parseTxHash`            | `parse_address`, `parse_tx_hash`, by characters |
| `hexDecodeUtf8`                          | `hex::decode`, by bytes: its length check, its pairs, its errors |
| `fromHexUtf8`                            | `Address::from_hex`, `Hash::from_hex` with the kind of their error |
| `parseAddressUtf8`, `parseTxHashUtf8`    | the two parsers over these |

The length is checked in bytes, the prefix is optional in `from_hex`, the decoder takes bytes in pairs, and the
result must have the size of the type. What passes all four is `0x` and the digits of the type (`Spells`), nothing
else: without the prefix a text of that many bytes has one byte too many, and a character outside ASCII has no byte
that is a digit. The decoder indexes the second byte of every pair, which would panic on a pair cut short; the
length check excludes it (`hexDecodeUtf8_eq`).
-/
namespace Subhost
open Uint Bincode

/-! ## Digits two by two -/

/-- The bytes that digits stand for, two digits a byte. -/
def bytesDenoted : List Char → List Nat
  | high :: low :: rest => positional [high, low] :: bytesDenoted rest
  | _ => []

/-- The digits of either case are those of the bytes. -/
def Spells (digits : List Char) (bytes : Bytes) : Prop :=
  digits.length = 2 * bytes.length ∧ (∀ c ∈ digits, IsHexDigit c) ∧ bytes.map UInt8.toNat = bytesDenoted digits

theorem positional_pair {high low : Char} {h l : Nat} (hhigh : hexValue high = some h) (hlow : hexValue low = some l) :
    positional [high, low] = 16 * h + l := by
  rw [← foldl_eq_positional]
  simp [hhigh, hlow]

theorem toNat_pair {h l : Nat} (hh : h < 16) (hl : l < 16) : (UInt8.ofNat (16 * h + l)).toNat = 16 * h + l := by
  rw [UInt8.toNat_ofNat']
  omega

/-- **What the decoder accepts**, and what it makes of it. -/
theorem hexDecode_eq_some_iff {digits : List Char} {bytes : Bytes} :
    hexDecode digits = some bytes ↔ Spells digits bytes := by
  induction digits using hexDecode.induct generalizing bytes with
  | case1 =>
    constructor
    · rintro ⟨⟩
      exact ⟨rfl, by simp, rfl⟩
    · rintro ⟨hlen, -⟩
      have hnil : bytes = [] := List.eq_nil_of_length_eq_zero (by simpa using hlen.symm)
      rw [hnil]
      rfl
  | case2 c =>
    refine iff_of_false (by simp [hexDecode]) ?_
    rintro ⟨hlen, -⟩
    rw [List.length_singleton] at hlen
    omega
  | case3 high low rest h l tail hrest hlow hhigh ih =>
    have hpair := positional_pair hhigh hlow
    have hbyte := toNat_pair (hexValue_bounds hhigh).2 (hexValue_bounds hlow).2
    have hdecode : hexDecode (high :: low :: rest) = some (UInt8.ofNat (16 * h + l) :: tail) := by
      rw [hexDecode, hhigh, hlow, hrest]
    rw [hdecode, Option.some.injEq]
    obtain ⟨hlen, hhex, hmap⟩ := ih.mp hrest
    have hall : ∀ c ∈ high :: low :: rest, IsHexDigit c := by
      simp only [List.forall_mem_cons, ← isSome_hexValue_iff, hhigh, hlow, Option.isSome_some, true_and]
      exact fun c hc => isSome_hexValue_iff.mpr (hhex c hc)
    constructor
    · rintro rfl
      refine ⟨by simp only [List.length_cons]; omega, hall, ?_⟩
      rw [List.map_cons, hbyte, bytesDenoted, hpair, hmap]
    · rintro ⟨-, -, hmap'⟩
      refine List.map_injective_iff.mpr (fun a b => UInt8.toNat.inj) ?_
      rw [hmap', bytesDenoted, hpair, List.map_cons, hbyte, hmap]
  | case4 high low rest hbad ih =>
    have hdecode : hexDecode (high :: low :: rest) = none := by
      rw [hexDecode]
      split
      · exact (hbad _ _ _ ‹_› ‹_› ‹_›).elim
      · rfl
    refine iff_of_false (by simp [hdecode]) ?_
    rintro ⟨hlen, hhex, hmap⟩
    simp only [List.forall_mem_cons] at hhex
    obtain ⟨h, -, hhigh⟩ := hhex.1.hexValue
    obtain ⟨l, -, hlow⟩ := hhex.2.1.hexValue
    cases bytes with
    | nil => simp at hlen
    | cons b tail =>
      have hrest : hexDecode rest = some tail := by
        refine ih.mpr ⟨by simp only [List.length_cons] at hlen; omega, hhex.2.2, ?_⟩
        rw [bytesDenoted, List.map_cons, List.cons.injEq] at hmap
        exact hmap.2
      exact hbad h l tail hhigh hlow hrest

/-- The lower-case digits are the printed ones. -/
theorem Spells.map_toLower {digits : List Char} {bytes : Bytes} (h : Spells digits bytes) :
    digits.map Char.toLower = (hexEncode bytes).toList := by
  rw [hexEncode, String.toList_ofList]
  have hdecode := hexDecode_eq_some_iff.mpr h
  clear h
  induction digits using hexDecode.induct generalizing bytes with
  | case1 =>
    cases hdecode
    rfl
  | case2 c => cases hdecode
  | case3 high low rest a b tail hrest hlow hhigh ih =>
    rw [hexDecode, hhigh, hlow, hrest] at hdecode
    have ha := (hexValue_bounds hhigh).2
    have hb := (hexValue_bounds hlow).2
    have hdiv : (16 * a + b) / 16 = a := by omega
    have hmod : (16 * a + b) % 16 = b := by omega
    rw [← Option.some.inj hdecode, List.map_cons, List.map_cons, List.flatMap_cons, toNat_pair ha hb, hdiv, hmod,
      ih hrest, toLower_of_hexValue hhigh, toLower_of_hexValue hlow]
    rfl
  | case4 high low rest hbad ih =>
    rw [hexDecode] at hdecode
    split at hdecode
    · exact (hbad _ _ _ ‹_› ‹_› ‹_›).elim
    · cases hdecode

/-- One byte sequence for all spellings. -/
theorem Spells.unique {digits : List Char} {bytes bytes' : Bytes} (h : Spells digits bytes) (h' : Spells digits bytes') :
    bytes = bytes' :=
  Option.some.inj ((hexDecode_eq_some_iff.mpr h).symm.trans (hexDecode_eq_some_iff.mpr h'))

theorem toArray?_eq_some_iff {n : Nat} {bytes : Bytes} {v : Vector UInt8 n} :
    toArray? n bytes = some v ↔ bytes = v.toList := by
  constructor
  · intro h
    unfold toArray? at h
    split at h
    · cases h
      rfl
    · cases h
  · rintro rfl
    exact toArray?_toList v

/-- `from_hex` at any size, of a text behind `0x`. -/
theorem fromHex_eq_some_iff {n : Nat} {text : String} {digits : List Char} (h : strip0x text = some digits)
    {v : Vector UInt8 n} :
    (hexDecode ((strip0x text).getD text.toList)).bind (toArray? n) = some v ↔ Spells digits v.toList := by
  rw [h, Option.getD_some, Option.bind_eq_some_iff]
  simp only [toArray?_eq_some_iff, exists_eq_right, hexDecode_eq_some_iff]

/-! ## Sizes -/

theorem utf8Size_of_ascii {c : Char} (h : c.toNat < 128) : c.utf8Size = 1 := by
  have hone : String.utf8EncodeChar c = [UInt8.ofNat c.toNat] := if_pos (Nat.le_of_lt_succ h)
  rw [← String.length_utf8EncodeChar, hone]
  rfl

theorem sum_utf8Size_of_ascii {text : List Char} (h : ∀ c ∈ text, c.toNat < 128) :
    (text.map Char.utf8Size).sum = text.length := by
  induction text with
  | nil => rfl
  | cons c rest ih =>
    rw [List.forall_mem_cons] at h
    rw [List.map_cons, List.sum_cons, utf8Size_of_ascii h.1, ih h.2, List.length_cons, Nat.add_comm]

theorem byteLen_digits {digits : List Char} (h : ∀ c ∈ digits, IsHexDigit c) :
    byteLen ("0x" ++ String.ofList digits) = 2 + digits.length := by
  have hmark : '0'.utf8Size = 1 ∧ 'x'.utf8Size = 1 := by decide
  have hsum := sum_utf8Size_of_ascii fun c hc => (h c hc).ascii
  simp [byteLen, hsum, hmark]
  omega

/-- **The checks together**, at any size: a length in bytes, an optional prefix, a decoder and a fixed size leave
`0x` and the digits. -/
theorem sized_fromHex_iff {n : Nat} {text : String} {v : Vector UInt8 n} :
    (byteLen text = 2 + 2 * n ∧ (hexDecode ((strip0x text).getD text.toList)).bind (toArray? n) = some v) ↔
      ∃ digits, text = "0x" ++ String.ofList digits ∧ Spells digits v.toList := by
  cases hstrip : strip0x text with
  | some digits =>
    have htext := strip0x_eq_some_iff.mp hstrip
    have hread := fromHex_eq_some_iff hstrip (v := v)
    rw [hstrip] at hread
    rw [hread]
    constructor
    · rintro ⟨-, hspells⟩
      exact ⟨digits, htext, hspells⟩
    · rintro ⟨found, hfound, hspells⟩
      have hsame : found = digits := by
        rw [strip0x_eq_some_iff.mpr hfound] at hstrip
        exact Option.some.inj hstrip
      subst hsame
      refine ⟨?_, hspells⟩
      rw [htext, byteLen_digits hspells.2.1, hspells.1, Vector.length_toList]
  | none =>
    refine iff_of_false ?_ ?_
    · -- without the prefix the digits alone have the length, one byte too many
      rintro ⟨hlen, hread⟩
      rw [Option.getD_none, Option.bind_eq_some_iff] at hread
      obtain ⟨bytes, hdecode, harray⟩ := hread
      obtain ⟨hdigits, hhex, -⟩ := hexDecode_eq_some_iff.mp hdecode
      have hsum : byteLen text = text.toList.length := sum_utf8Size_of_ascii fun c hc => (hhex c hc).ascii
      rw [toArray?_eq_some_iff.mp harray, Vector.length_toList] at hdigits
      omega
    · rintro ⟨digits, htext, -⟩
      rw [strip0x_eq_some_iff.mpr htext] at hstrip
      cases hstrip

theorem parse_sized_ok_iff {n : Nat} {e : RpcError} {text : String} {v : Vector UInt8 n} :
    (if byteLen text ≠ 2 + 2 * n then .error e
      else ((hexDecode ((strip0x text).getD text.toList)).bind (toArray? n)).elim (.error e) .ok) = Except.ok v ↔
      ∃ digits, text = "0x" ++ String.ofList digits ∧ Spells digits v.toList := by
  rw [← sized_fromHex_iff]
  by_cases hlen : byteLen text = 2 + 2 * n
  · rw [if_neg (not_not.mpr hlen)]
    cases (hexDecode ((strip0x text).getD text.toList)).bind (toArray? n) with
    | none => simp
    | some found => simp [hlen]
  · rw [if_pos hlen]
    exact iff_of_false (by simp) fun h => hlen h.1

theorem parseAddress_ok_iff {text : String} {a : Address} :
    parseAddress text = .ok a ↔ ∃ digits, text = "0x" ++ String.ofList digits ∧ Spells digits a.toList :=
  parse_sized_ok_iff (n := addressSize)

theorem parseTxHash_ok_iff {text : String} {hash : Hash} :
    parseTxHash text = .ok hash ↔ ∃ digits, text = "0x" ++ String.ofList digits ∧ Spells digits hash.toList :=
  parse_sized_ok_iff (n := hashSize)

/-! ## By bytes -/

/-- `FromHexError` of the hex crate, the variants `decode` returns. -/
inductive FromHexError where
  | invalidHexCharacter (c : Char) (index : Nat)
  | oddLength
deriving DecidableEq, Repr

/-- `val` of the hex crate: the value of a digit. -/
def hexVal (c : UInt8) (index : Nat) : Except FromHexError UInt8 :=
  if 65 ≤ c ∧ c ≤ 70 then .ok (c - 65 + 10)
  else if 97 ≤ c ∧ c ≤ 102 then .ok (c - 97 + 10)
  else if 48 ≤ c ∧ c ≤ 57 then .ok (c - 48)
  else .error (.invalidHexCharacter (Char.ofNat c.toNat) index)

/-- The pairs of `hex::decode`, from the `i`-th on. `none` is a panic: a pair cut short has no second byte. -/
def decodePairs : Nat → Bytes → Option (Except FromHexError Bytes)
  | _, [] => some (.ok [])
  | i, [high] =>
    match hexVal high (2 * i) with
    | .error e => some (.error e)
    | .ok _ => none
  | i, high :: low :: rest =>
    match hexVal high (2 * i) with
    | .error e => some (.error e)
    | .ok h =>
      match hexVal low (2 * i + 1) with
      | .error e => some (.error e)
      | .ok l =>
        match decodePairs (i + 1) rest with
        | none => none
        | some (.error e) => some (.error e)
        | some (.ok bytes) => some (.ok ((h <<< 4 ||| l) :: bytes))

/-- `hex::decode`. -/
def hexDecodeUtf8 (data : Bytes) : Option (Except FromHexError Bytes) :=
  if data.length % 2 ≠ 0 then some (.error .oddLength) else decodePairs 0 data

/-- The errors of `Address::from_hex` and `Hash::from_hex`: `InvalidHex`, and `InvalidAddressLength` or
`InvalidHashLength`. -/
inductive FixedHexError where
  | invalidHex (e : FromHexError)
  | invalidLength (length : Nat)
deriving DecidableEq, Repr

/-- `Address::from_hex` (subhost-core/src/lib.rs:89) and `Hash::from_hex` (:40) at their sizes. -/
def fromHexUtf8 (n : Nat) (value : String) : Option (Except FixedHexError (Vector UInt8 n)) :=
  match hexDecodeUtf8 (utf8 ((strip0x value).getD value.toList)) with
  | none => none
  | some (.error e) => some (.error (.invalidHex e))
  | some (.ok bytes) => some ((toArray? n bytes).elim (.error (.invalidLength bytes.length)) .ok)

/-- The two parsers at their sizes, lengths and errors. -/
def parseFixedUtf8 (n length : Nat) (e : RpcError) (value : String) : Option (Except RpcError (Vector UInt8 n)) :=
  if (utf8 value.toList).length ≠ length then some (.error e)
  else (fromHexUtf8 n value).map fun r => r.toOption.elim (.error e) .ok

/-- `parse_address` (lib.rs:394). -/
def parseAddressUtf8 : String → Option (Except RpcError Address) := parseFixedUtf8 addressSize 42 .invalidAddress

/-- `parse_tx_hash` (lib.rs:401). -/
def parseTxHashUtf8 : String → Option (Except RpcError Hash) := parseFixedUtf8 hashSize 66 .invalidTxHash

theorem hexVal_eq (c : UInt8) (index : Nat) :
    (hexVal c index).toOption.map UInt8.toNat = hexValue (Char.ofNat c.toNat) := by
  have hall : ∀ n < 256, ((hexVal (UInt8.ofNat n) 0).toOption.map UInt8.toNat) = hexValue (Char.ofNat n) := by
    decide +kernel
  have hindex : (hexVal c index).toOption = (hexVal c 0).toOption := by
    unfold hexVal
    split
    · rfl
    · split
      · rfl
      · split
        · rfl
        · rfl
  rw [hindex, ← hall c.toNat c.toNat_lt, UInt8.ofNat_toNat]

theorem shift_or : ∀ h < 16, ∀ l < 16, UInt8.ofNat h <<< 4 ||| UInt8.ofNat l = UInt8.ofNat (16 * h + l) := by
  decide +kernel

/-- Bytes of an even number are decoded without a panic, to what their characters are decoded to. -/
theorem decodePairs_eq (i : Nat) : ∀ data : Bytes, data.length % 2 = 0 →
    ∃ r, decodePairs i data = some r ∧ r.toOption = hexDecode (data.map fun b => Char.ofNat b.toNat)
  | [], _ => ⟨_, rfl, rfl⟩
  | [_], heven => by simp at heven
  | high :: low :: rest, heven => by
    have heven' : rest.length % 2 = 0 := by
      simp only [List.length_cons] at heven
      omega
    obtain ⟨r, hr, hrest⟩ := decodePairs_eq (i + 1) rest heven'
    have hhigh := hexVal_eq high (2 * i)
    have hlow := hexVal_eq low (2 * i + 1)
    rw [decodePairs, List.map_cons, List.map_cons, hexDecode, ← hhigh, ← hlow, ← hrest, hr]
    cases hh : hexVal high (2 * i) with
    | error e => exact ⟨_, rfl, rfl⟩
    | ok h =>
      cases hl : hexVal low (2 * i + 1) with
      | error e => exact ⟨_, rfl, rfl⟩
      | ok l =>
        cases r with
        | error e => exact ⟨_, rfl, rfl⟩
        | ok bytes =>
          refine ⟨_, rfl, ?_⟩
          rw [hh] at hhigh
          rw [hl] at hlow
          have hbyte := shift_or h.toNat (hexValue_bounds hhigh.symm).2 l.toNat (hexValue_bounds hlow.symm).2
          rw [UInt8.ofNat_toNat, UInt8.ofNat_toNat] at hbyte
          simp only [Except.toOption, Option.map_some, hbyte]

/-- **The decoder by bytes is the decoder by characters**, and does not panic. -/
theorem hexDecodeUtf8_eq (text : List Char) :
    ∃ r, hexDecodeUtf8 (utf8 text) = some r ∧ r.toOption = hexDecode text := by
  by_cases hascii : ∀ c ∈ text, c.toNat < 128
  · have hchars : (utf8 text).map (fun b => Char.ofNat b.toNat) = text := by
      refine (eq_map_of_utf8 rfl ?_).symm
      intro b hb
      rw [utf8_eq_map hascii] at hb
      obtain ⟨c, hc, rfl⟩ := List.mem_map.mp hb
      have hcode := hascii c hc
      rw [UInt8.toNat_ofNat']
      omega
    unfold hexDecodeUtf8
    split
    · rename_i hodd
      refine ⟨_, rfl, ?_⟩
      cases hdecode : hexDecode text with
      | none => rfl
      | some bytes =>
        have hlen := (hexDecode_eq_some_iff.mp hdecode).1
        rw [utf8_eq_map hascii, List.length_map, hlen] at hodd
        omega
    · rename_i heven
      obtain ⟨r, hr, hsame⟩ := decodePairs_eq 0 (utf8 text) (not_not.mp heven)
      exact ⟨r, hr, by rw [hsame, hchars]⟩
  · -- a character beyond ASCII is no digit, and neither are its bytes
    have hnone : hexDecode text = none := by
      cases hdecode : hexDecode text with
      | none => rfl
      | some bytes => exact absurd (fun c hc => ((hexDecode_eq_some_iff.mp hdecode).2.1 c hc).ascii) hascii
    rw [hnone]
    unfold hexDecodeUtf8
    split
    · exact ⟨_, rfl, rfl⟩
    · rename_i heven
      obtain ⟨r, hr, hsame⟩ := decodePairs_eq 0 (utf8 text) (not_not.mp heven)
      refine ⟨r, hr, ?_⟩
      rw [hsame]
      cases hdecode : hexDecode ((utf8 text).map fun b => Char.ofNat b.toNat) with
      | none => rfl
      | some bytes =>
        have hbytes : ∀ b ∈ utf8 text, b.toNat < 128 := by
          intro b hb
          have hdigit := (hexDecode_eq_some_iff.mp hdecode).2.1 _ (List.mem_map.mpr ⟨b, hb, rfl⟩)
          have hcode := hdigit.ascii
          rwa [toNat_ofNat_byte] at hcode
        refine absurd ?_ hascii
        intro c hc
        rw [eq_map_of_utf8 rfl hbytes] at hc
        obtain ⟨b, hb, rfl⟩ := List.mem_map.mp hc
        rw [toNat_ofNat_byte]
        exact hbytes b hb

theorem length_utf8 (text : List Char) : (utf8 text).length = (text.map Char.utf8Size).sum := by
  rw [utf8, List.length_flatMap]
  simp only [String.length_utf8EncodeChar]

theorem fromHexUtf8_eq (n : Nat) (value : String) :
    ∃ r, fromHexUtf8 n value = some r ∧
      r.toOption = (hexDecode ((strip0x value).getD value.toList)).bind (toArray? n) := by
  obtain ⟨r, hr, hsame⟩ := hexDecodeUtf8_eq ((strip0x value).getD value.toList)
  rw [fromHexUtf8, hr, ← hsame]
  cases r with
  | error e => exact ⟨_, rfl, rfl⟩
  | ok bytes =>
    refine ⟨_, rfl, ?_⟩
    cases harray : toArray? n bytes with
    | none => simp [Except.toOption, harray]
    | some v => simp [Except.toOption, harray]

theorem parseFixedUtf8_eq (n length : Nat) (e : RpcError) (value : String) :
    parseFixedUtf8 n length e value =
      some (if byteLen value ≠ length then .error e
        else ((hexDecode ((strip0x value).getD value.toList)).bind (toArray? n)).elim (.error e) .ok) := by
  obtain ⟨r, hr, hsame⟩ := fromHexUtf8_eq n value
  rw [parseFixedUtf8, length_utf8, hr, ← hsame]
  change (if byteLen value ≠ length then _ else _) = _
  split
  · rfl
  · rfl

/-! ## The grammar -/

/-- A parser of byte arrays that reads `0x` and the digits of all bytes and nothing else, reads back what is
printed, and loses nothing but the case of letters. -/
structure ReadsBytes (n : Nat) (parse : String → Except RpcError (Vector UInt8 n)) : Prop where
  accepts : ∀ text v, parse text = .ok v ↔
    ∃ digits : List Char, text = "0x" ++ String.ofList digits ∧ digits.length = 2 * n ∧ (∀ c ∈ digits, IsHexDigit c) ∧
      v.toList.map UInt8.toNat = bytesDenoted digits
  succeeds : ∀ text, (∃ v, parse text = .ok v) ↔
    ∃ digits : List Char, text = "0x" ++ String.ofList digits ∧ digits.length = 2 * n ∧ ∀ c ∈ digits, IsHexDigit c
  readsBack : ∀ v, parse (displayBytes v.toList) = .ok v
  lowerCase : ∀ text v, parse text = .ok v → displayBytes v.toList = text.toLower

/-- Digits in even number are decoded. -/
theorem exists_hexDecode : ∀ digits : List Char, digits.length % 2 = 0 → (∀ c ∈ digits, IsHexDigit c) →
    ∃ bytes, hexDecode digits = some bytes
  | [], _, _ => ⟨[], rfl⟩
  | [_], heven, _ => by simp at heven
  | high :: low :: rest, heven, hhex => by
    simp only [List.forall_mem_cons] at hhex
    obtain ⟨h, -, hhigh⟩ := hhex.1.hexValue
    obtain ⟨l, -, hlow⟩ := hhex.2.1.hexValue
    obtain ⟨tail, hrest⟩ := exists_hexDecode rest (by simp only [List.length_cons] at heven; omega) hhex.2.2
    exact ⟨_, by rw [hexDecode, hhigh, hlow, hrest]⟩

theorem exists_spells {digits : List Char} {n : Nat} (hlen : digits.length = 2 * n) (hhex : ∀ c ∈ digits, IsHexDigit c) :
    ∃ v : Vector UInt8 n, Spells digits v.toList := by
  obtain ⟨bytes, hdecode⟩ := exists_hexDecode digits (by omega) hhex
  have hspells := hexDecode_eq_some_iff.mp hdecode
  have hsize : bytes.length = n := by
    have hdouble := hspells.1
    omega
  have harray : toArray? n bytes = some ⟨bytes.toArray, hsize⟩ := dif_pos hsize
  exact ⟨_, toArray?_eq_some_iff.mp harray ▸ hspells⟩

/-- The lower-case text is the printed one. -/
theorem Spells.display {digits : List Char} {bytes : Bytes} (h : Spells digits bytes) :
    displayBytes bytes = ("0x" ++ String.ofList digits).toLower := by
  have hlower : ∀ text : String, text.toLower = text.map Char.toLower := fun _ => rfl
  apply String.toList_injective
  rw [hlower, displayBytes, String.toList_append, ← h.map_toLower]
  simp

theorem readsBytes_of_ok_iff {n : Nat} {parse : String → Except RpcError (Vector UInt8 n)}
    (h : ∀ {text v}, parse text = .ok v ↔ ∃ digits, text = "0x" ++ String.ofList digits ∧ Spells digits v.toList) :
    ReadsBytes n parse where
  accepts text v := by
    rw [h]
    simp only [Spells, Vector.length_toList]
  succeeds text := by
    simp only [h]
    constructor
    · rintro ⟨v, digits, htext, hlen, hhex, -⟩
      exact ⟨digits, htext, by rw [hlen, Vector.length_toList], hhex⟩
    · rintro ⟨digits, htext, hlen, hhex⟩
      obtain ⟨v, hspells⟩ := exists_spells hlen hhex
      exact ⟨v, digits, htext, hspells⟩
  readsBack v := by
    refine h.mpr ⟨(hexEncode v.toList).toList, by rw [displayBytes, String.ofList_toList], ?_⟩
    exact hexDecode_eq_some_iff.mp (hexDecode_hexEncode _)
  lowerCase text v hv := by
    obtain ⟨digits, rfl, hspells⟩ := h.mp hv
    exact hspells.display

/-- **Addresses and hashes are read by their grammar**, at 20 and 32 bytes, and the byte parsers, which could
panic, return what these return on every text. -/
theorem identifiers_strict :
    ReadsBytes addressSize parseAddress ∧ ReadsBytes hashSize parseTxHash ∧
      (∀ text, parseAddressUtf8 text = some (parseAddress text)) ∧
      ∀ text, parseTxHashUtf8 text = some (parseTxHash text) :=
  ⟨readsBytes_of_ok_iff parseAddress_ok_iff, readsBytes_of_ok_iff parseTxHash_ok_iff,
    parseFixedUtf8_eq addressSize 42 .invalidAddress, parseFixedUtf8_eq hashSize 66 .invalidTxHash⟩

end Subhost
