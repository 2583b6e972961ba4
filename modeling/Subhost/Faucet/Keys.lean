import Subhost.Faucet.Drip
/-!
# Cooldown keys (subhost-faucet/src/lib.rs:96-117, 240-265, 483-492)

`drip` reads the recipient with `parse_address`, which trims the text and takes digits of either case, and gives
the text as it came to `try_claim` and `release`, whose key is that text in lower case. The two forms agree on the
case of letters. They do not agree on whitespace: it is no part of the address, but part of the key
(`toAsciiLowercase_eq`). So two texts for one account share a key exactly if the same whitespace surrounds them
(`one_key_iff`). Requests over HTTP always do, since `handle_drip` trims them first; callers of `drip` need not.
-/
namespace Subhost
open Uint Bincode

/-! ## Whitespace around a text -/

/-- What `str::trim` cuts off at the front. -/
def leadingWhitespace (text : String) : List Char := text.toList.takeWhile isWhitespace

/-- What `str::trim` cuts off at the back. -/
def trailingWhitespace (text : String) : List Char := (text.toList.dropWhile isWhitespace).rtakeWhile isWhitespace

theorem toList_eq_trim (text : String) :
    text.toList = leadingWhitespace text ++ (trim text).toList ++ trailingWhitespace text := by
  have htrim : (trim text).toList = (text.toList.dropWhile isWhitespace).rdropWhile isWhitespace := by
    rw [trim, String.toList_ofList]
    rfl
  rw [htrim, leadingWhitespace, trailingWhitespace, List.append_assoc, List.rdropWhile_append_rtakeWhile,
    List.takeWhile_append_dropWhile]

theorem isWhitespace_of_mem_leading {text : String} {c : Char} (h : c ∈ leadingWhitespace text) : isWhitespace c = true :=
  List.mem_takeWhile_imp h

theorem isWhitespace_of_mem_trailing {text : String} {c : Char} (h : c ∈ trailingWhitespace text) :
    isWhitespace c = true :=
  List.mem_rtakeWhile_imp h

theorem not_isWhitespace_of_range {c : Char} (hlo : 33 ≤ c.toNat) (hhi : c.toNat ≤ 126) : isWhitespace c = false := by
  simp only [isWhitespace, Bool.or_eq_false_iff, Bool.and_eq_false_iff, decide_eq_false_iff_not, beq_eq_false_iff_ne]
  omega

/-- No letter is whitespace. -/
theorem toLower_of_isWhitespace {c : Char} (h : isWhitespace c = true) : c.toLower = c := by
  refine dif_neg ?_
  rintro ⟨hlo, hhi⟩
  have hlo' : 65 ≤ c.toNat := hlo
  have hhi' : c.toNat ≤ 90 := hhi
  rw [not_isWhitespace_of_range (by omega) (by omega)] at h
  cases h

theorem map_toLower_of_isWhitespace {cs : List Char} (h : ∀ c ∈ cs, isWhitespace c = true) :
    cs.map Char.toLower = cs := by
  refine (List.map_congr_left fun c hc => ?_).trans (List.map_id cs)
  exact toLower_of_isWhitespace (h c hc)

/-! ## The key of a text for an account -/

/-- **The key**: the printed address, between the whitespace of the text. -/
theorem toAsciiLowercase_eq {value : String} {a : Address} (h : Faucet.parseAddress value = .ok a) :
    (toAsciiLowercase value).toList =
      leadingWhitespace value ++ (displayBytes a.toList).toList ++ trailingWhitespace value := by
  have hmiddle : (trim value).toList.map Char.toLower = (displayBytes a.toList).toList := by
    rw [← Faucet.lowercase_of_parseAddress h, toAsciiLowercase, String.toList_ofList]
  rw [toAsciiLowercase, String.toList_ofList, toList_eq_trim value, List.map_append, List.map_append, hmiddle,
    map_toLower_of_isWhitespace fun c hc => isWhitespace_of_mem_leading hc,
    map_toLower_of_isWhitespace fun c hc => isWhitespace_of_mem_trailing hc]

/-- A printed address starts with `0`, so the whitespace before it is all there is before it. -/
theorem takeWhile_lead {lead rest : List Char} {bytes : Bytes} (h : ∀ c ∈ lead, isWhitespace c = true) :
    (lead ++ ((displayBytes bytes).toList ++ rest)).takeWhile isWhitespace = lead := by
  have hstart : (displayBytes bytes).toList = '0' :: ('x' :: (hexEncode bytes).toList) := by
    rw [displayBytes, String.toList_append]
    rfl
  rw [List.takeWhile_append_of_pos h, hstart, List.cons_append, List.takeWhile_cons_of_neg (by decide), List.append_nil]

/-- Two texts for one account have one key exactly if the same whitespace surrounds them. -/
theorem toAsciiLowercase_eq_iff {value value' : String} {a : Address} (h : Faucet.parseAddress value = .ok a)
    (h' : Faucet.parseAddress value' = .ok a) :
    toAsciiLowercase value = toAsciiLowercase value' ↔
      leadingWhitespace value = leadingWhitespace value' ∧ trailingWhitespace value = trailingWhitespace value' := by
  rw [← String.toList_inj, toAsciiLowercase_eq h, toAsciiLowercase_eq h', List.append_assoc, List.append_assoc]
  constructor
  · intro heq
    have hlead : leadingWhitespace value = leadingWhitespace value' := by
      have htaken := congrArg (List.takeWhile isWhitespace) heq
      rwa [takeWhile_lead fun c hc => isWhitespace_of_mem_leading hc,
        takeWhile_lead fun c hc => isWhitespace_of_mem_leading hc] at htaken
    rw [hlead] at heq
    exact ⟨hlead, List.append_cancel_left (List.append_cancel_left heq)⟩
  · rintro ⟨hlead, htrail⟩
    rw [hlead, htrail]

/-! ## Slots -/

/-- While the slot that `value` obtained is cooling down, `value'` obtains none. -/
def NoSecondSlot (value value' : String) : Prop :=
  ∀ (l : CooldownLedger) (now later now' later' : Nat), (l.tryClaim now later value).1 = .ok () →
    later' - now < l.cooldown → ∃ remaining, ((l.tryClaim now later value).2.tryClaim now' later' value').1 = .error remaining

/-- A claim of a free key is granted and stored. -/
theorem tryClaim_of_none (l : CooldownLedger) (address : String) (h : l.entries[toAsciiLowercase address]? = none)
    (now later : Nat) :
    l.tryClaim now later address =
      (.ok (), { l with entries := l.entries.insert (toAsciiLowercase address) now }) := by
  rw [CooldownLedger.tryClaim, h]

/-- One slot for two texts is one key for them. -/
theorem noSecondSlot_iff (value value' : String) :
    NoSecondSlot value value' ↔ toAsciiLowercase value = toAsciiLowercase value' := by
  constructor
  · intro h
    by_contra hne
    -- on a new ledger the other key is still free
    have hfirst := tryClaim_of_none (.new 1) value (by simp [CooldownLedger.new]) 0 0
    obtain ⟨remaining, hrefused⟩ := h (.new 1) 0 0 0 0 (by rw [hfirst]) (by decide)
    rw [hfirst, tryClaim_of_none] at hrefused
    · cases hrefused
    · dsimp only
      rw [Map.get_insert_ne _ _ hne]
      simp [CooldownLedger.new]
  · intro hkey l now later now' later' hgranted helapsed
    rcases l.tryClaim_cases now later value with ⟨claimed, -, -, heq⟩ | ⟨-, heq⟩
    · rw [heq] at hgranted
      cases hgranted
    · refine ⟨l.cooldown - (later' - now), ?_⟩
      rw [heq, CooldownLedger.tryClaim, ← hkey, Map.get_insert_self]
      exact congrArg Prod.fst (if_pos helapsed)

/-- **One key for an account.** For two texts that `drip` takes for one account, `try_claim` and `release` use one
key exactly if the same whitespace surrounds the two, and exactly then the second text obtains no slot while that
of the first is cooling down, on any ledger and at any times. -/
theorem one_key_iff {value value' : String} {a : Address} (h : Faucet.parseAddress value = .ok a)
    (h' : Faucet.parseAddress value' = .ok a) :
    (toAsciiLowercase value = toAsciiLowercase value' ∧ NoSecondSlot value value') ↔
      leadingWhitespace value = leadingWhitespace value' ∧ trailingWhitespace value = trailingWhitespace value' := by
  rw [noSecondSlot_iff, and_self, toAsciiLowercase_eq_iff h h']

/-! One account in three spellings. -/

def sampleAccount : Address := Vector.replicate 20 0xab

def lowerText : String := "0xabababababababababababababababababababab"
def mixedText : String := "0xABABABababababababababababababababababab"
def spacedText : String := " 0xabababababababababababababababababababab"

/-- A ledger with a cooldown of one minute. -/
def minuteLedger : CooldownLedger := .new (fromSecs 60)

theorem parse_sampleAccount :
    ∀ text ∈ [lowerText, mixedText, spacedText], Faucet.parseAddress text = .ok sampleAccount := by
  decide +kernel

/-- Letter case does not matter. -/
theorem one_key_iff_case : toAsciiLowercase lowerText = toAsciiLowercase mixedText ∧ NoSecondSlot lowerText mixedText := by
  refine (one_key_iff (parse_sampleAccount _ (by simp)) (parse_sampleAccount _ (by simp))).mpr ?_
  decide +kernel

/-- With a blank before it the address is funded again, a second after the first time and a minute too early. -/
theorem second_slot_for_blank :
    Faucet.parseAddress lowerText = .ok sampleAccount ∧ Faucet.parseAddress spacedText = .ok sampleAccount ∧
      toAsciiLowercase lowerText ≠ toAsciiLowercase spacedText ∧
      (minuteLedger.tryClaim 0 0 lowerText).1 = .ok () ∧
      ((minuteLedger.tryClaim 0 0 lowerText).2.tryClaim 1000000000 1000000000 mixedText).1 = .error 59000000000 ∧
      ((minuteLedger.tryClaim 0 0 lowerText).2.tryClaim 1000000000 1000000000 spacedText).1 = .ok () := by
  refine ⟨parse_sampleAccount _ (by simp), parse_sampleAccount _ (by simp), ?_⟩
  decide +kernel

end Subhost
