import Subhost.Node.Enumeration
import Subhost.Rpc.Identifiers
/-!
# The allocations of a genesis file (subhost-core/src/lib.rs:461-508)

| here | there |
| --- | --- |
| `GenesisConfig.serializeAllocations`    | `genesis_allocations::serialize` (lib.rs:472) |
| `GenesisConfig.deserializeAllocations`  | `genesis_allocations::deserialize` (lib.rs:491) |
| `parseAmount`                           | `str::parse::<u128>` |

A file lists addresses and balances as text. Writing prints the entries of the map in the order of the printed
addresses. Reading takes any list and refuses it at its first entry that is wrong, or that has an address which
came before in any spelling; `deserializeFrom_ok_iff` says what the entries of an accepted list stand for.
-/
namespace Subhost
open Uint Bincode

/-- `balance.parse::<Amount>()`. -/
def parseAmount (text : String) : Except Radix.IntErrorKind Amount :=
  Radix.parse 10 (fun byte => Radix.decimalValue (Char.ofNat byte.toNat)) 43 45 128 (utf8 text.toList)

/-- The errors of `deserialize`: its own texts, and those of the two parsers. -/
inductive AllocationError where
  | custom (message : String)
  | address (e : FixedHexError)
  | balance (kind : Radix.IntErrorKind)
deriving DecidableEq, Repr

namespace GenesisConfig

/-- The loop of `deserialize` (lib.rs:497-506) with the allocations so far; `none` is a panic. -/
def deserializeFrom : Map Address Amount → List (String × String) → Option (Except AllocationError (Map Address Amount))
  | allocations, [] => some (.ok allocations)
  | allocations, (address, balance) :: rest =>
    if (strip0x address).isNone then some (.error (.custom "allocation address must start with 0x"))
    else
      match fromHexUtf8 addressSize address with
      | none => none
      | some (.error e) => some (.error (.address e))
      | some (.ok a) =>
        match parseAmount balance with
        | .error kind => some (.error (.balance kind))
        | .ok b =>
          match allocations[a]? with
          | some _ => some (.error (.custom "duplicate genesis allocation"))
          | none => deserializeFrom (allocations.insert a b) rest

/-- `genesis_allocations::deserialize` (lib.rs:491), over the list of entries. -/
def deserializeAllocations (entries : List (String × String)) : Option (Except AllocationError (Map Address Amount)) :=
  deserializeFrom ∅ entries

end GenesisConfig

/-! ## What texts stand for -/

/-- The address that `0x` and 40 digits of either case stand for. -/
def DenotesAddress (text : String) (a : Address) : Prop :=
  ∃ digits, text = "0x" ++ String.ofList digits ∧ Spells digits a.toList

/-- The amount that decimal digits stand for. A plus and leading zeros are allowed. -/
def DenotesAmount (text : String) (b : Amount) : Prop :=
  ∃ digits, (text = String.ofList digits ∨ text = String.ofList ('+' :: digits)) ∧ digits ≠ [] ∧
    (∀ c ∈ digits, '0' ≤ c ∧ c ≤ '9') ∧ Radix.decimal digits < 2 ^ 128 ∧ b = BitVec.ofNat 128 (Radix.decimal digits)

theorem DenotesAddress.unique {text : String} {a b : Address} (ha : DenotesAddress text a) (hb : DenotesAddress text b) :
    a = b := by
  obtain ⟨digits, htext, hspells⟩ := ha
  obtain ⟨digits', htext', hspells'⟩ := hb
  have hsame : digits = digits' := by
    have hstrip := (strip0x_eq_some_iff.mpr htext).symm.trans (strip0x_eq_some_iff.mpr htext')
    exact Option.some.inj hstrip
  subst hsame
  exact Vector.toList_inj.mp (hspells.unique hspells')

theorem denotesAddress_display (a : Address) : DenotesAddress (displayBytes a.toList) a :=
  parseAddress_ok_iff.mp (parseAddress_display a)

theorem exists_denotesAddress_iff {text : String} :
    (∃ a, DenotesAddress text a) ↔
      ∃ digits : List Char, text = "0x" ++ String.ofList digits ∧ digits.length = 40 ∧ ∀ c ∈ digits, IsHexDigit c := by
  constructor
  · rintro ⟨a, digits, htext, hlen, hhex, -⟩
    exact ⟨digits, htext, by rw [hlen, Vector.length_toList]; rfl, hhex⟩
  · rintro ⟨digits, htext, hlen, hhex⟩
    obtain ⟨a, hspells⟩ := exists_spells (n := addressSize) hlen hhex
    exact ⟨a, digits, htext, hspells⟩

theorem parseAmount_ok_iff {text : String} {b : Amount} : parseAmount text = .ok b ↔ DenotesAmount text b := by
  rw [parseAmount, parse_utf8_eq_ok_iff (by decide) (fun c d => Radix.decimalValue_bounds) (by decide) (by decide)]
  have htext : ∀ cs : List Char, text.toList = cs ↔ text = String.ofList cs := by
    intro cs
    rw [← String.toList_inj, String.toList_ofList]
  simp only [Radix.Numeral, Radix.isSome_decimalValue_iff, htext, and_assoc, DenotesAmount, Radix.decimal]

/-- A printed amount is read back. -/
theorem denotesAmount_toString (b : Amount) : DenotesAmount (toString b.toNat) b := by
  obtain ⟨hne, hall⟩ := Radix.numeral_toDigits (by decide) Radix.decimalValue_digitChar b.toNat
  have hvalue := Radix.decimal_toDigits b.toNat
  refine ⟨Nat.toDigits 10 b.toNat, .inl rfl, hne, fun c hc => Radix.isSome_decimalValue_iff.mp (hall c hc), ?_, ?_⟩
  · rw [hvalue]
    exact b.isLt
  · rw [hvalue, BitVec.ofNat_toNat, BitVec.setWidth_eq]

/-! ## Reading -/

/-- The allocation an entry of the file stands for. -/
def Reads (entry : String × String) (p : Address × Amount) : Prop := DenotesAddress entry.1 p.1 ∧ DenotesAmount entry.2 p.2

namespace GenesisConfig

/-- The address check and `Address::from_hex` together. -/
theorem fromHexUtf8_cases (text : String) :
    ((strip0x text).isNone ∧ ∀ a, ¬ DenotesAddress text a) ∨
      ((strip0x text).isNone = false ∧ ∃ r, fromHexUtf8 addressSize text = some r ∧ ∀ a, r = .ok a ↔ DenotesAddress text a) := by
  cases hstrip : strip0x text with
  | none =>
    refine .inl ⟨rfl, ?_⟩
    rintro a ⟨digits, htext, -⟩
    rw [strip0x_eq_some_iff.mpr htext] at hstrip
    cases hstrip
  | some digits =>
    obtain ⟨r, hr, hsame⟩ := fromHexUtf8_eq addressSize text
    refine .inr ⟨rfl, r, hr, ?_⟩
    intro a
    rw [← toOption_eq_some_iff, hsame, fromHex_eq_some_iff hstrip]
    constructor
    · intro hspells
      exact ⟨digits, strip0x_eq_some_iff.mp hstrip, hspells⟩
    · rintro ⟨found, htext, hspells⟩
      rw [strip0x_eq_some_iff.mpr htext, Option.some.injEq] at hstrip
      exact hstrip ▸ hspells

/-- **One entry**: it is read, and its address is new. -/
theorem deserializeFrom_cons_ok_iff {m out : Map Address Amount} {entry : String × String}
    {rest : List (String × String)} :
    deserializeFrom m (entry :: rest) = some (.ok out) ↔
      ∃ p, Reads entry p ∧ m[p.1]? = none ∧ deserializeFrom (m.insert p.1 p.2) rest = some (.ok out) := by
  obtain ⟨address, balance⟩ := entry
  rw [deserializeFrom]
  rcases fromHexUtf8_cases address with ⟨hnone, hdenotes⟩ | ⟨hsome, r, hr, hdenotes⟩
  · rw [if_pos hnone]
    refine iff_of_false (by simp) ?_
    rintro ⟨p, hreads, -⟩
    exact hdenotes p.1 hreads.1
  · rw [if_neg (by simp [hsome]), hr]
    cases r with
    | error e =>
      refine iff_of_false (by simp) ?_
      rintro ⟨p, hreads, -⟩
      cases (hdenotes p.1).mpr hreads.1
    | ok a =>
      have haddress := (hdenotes a).mp rfl
      dsimp only
      cases hamount : parseAmount balance with
      | error kind =>
        refine iff_of_false (by simp) ?_
        rintro ⟨p, hreads, -⟩
        rw [parseAmount_ok_iff.mpr hreads.2] at hamount
        cases hamount
      | ok b =>
        have hsame : ∀ p, Reads (address, balance) p → p = (a, b) := by
          rintro ⟨a', b'⟩ ⟨ha, hb⟩
          have hb' := (parseAmount_ok_iff.mpr hb).symm.trans hamount
          exact Prod.ext (ha.unique haddress) (Except.ok.inj hb')
        dsimp only
        cases hold : m[a]? with
        | some old =>
          refine iff_of_false (by simp) ?_
          rintro ⟨p, hreads, hnew, -⟩
          rw [hsame p hreads, hold] at hnew
          cases hnew
        | none =>
          constructor
          · intro hrest
            exact ⟨(a, b), ⟨haddress, parseAmount_ok_iff.mp hamount⟩, hold, hrest⟩
          · rintro ⟨p, hreads, -, hrest⟩
            rwa [hsame p hreads] at hrest

/-- **The whole list**: every entry is read, the addresses are all different and new, and all are inserted. -/
theorem deserializeFrom_ok_iff {m out : Map Address Amount} {entries : List (String × String)} :
    deserializeFrom m entries = some (.ok out) ↔
      ∃ ps, List.Forall₂ Reads entries ps ∧ (ps.map Prod.fst).Nodup ∧ (∀ p ∈ ps, m[p.1]? = none) ∧
        out = ps.foldl (fun m p => m.insert p.1 p.2) m := by
  induction entries generalizing m with
  | nil =>
    constructor
    · rintro ⟨⟩
      exact ⟨[], .nil, by simp, by simp, rfl⟩
    · rintro ⟨ps, hreads, -, -, rfl⟩
      cases hreads
      rfl
  | cons entry rest ih =>
    rw [deserializeFrom_cons_ok_iff]
    simp only [ih]
    constructor
    · rintro ⟨p, hreads, hnew, ps, hrest, hnodup, hfresh, rfl⟩
      -- what is new after the insertion differs from what was inserted
      have hne : ∀ q ∈ ps, p.1 ≠ q.1 := by
        intro q hq heq
        have hnone := hfresh q hq
        rw [← heq, Map.get_insert_self] at hnone
        cases hnone
      refine ⟨p :: ps, .cons hreads hrest, ?_, ?_, rfl⟩
      · rw [List.map_cons, List.nodup_cons]
        refine ⟨?_, hnodup⟩
        intro hmem
        obtain ⟨q, hq, heq⟩ := List.mem_map.mp hmem
        exact hne q hq heq.symm
      · refine List.forall_mem_cons.mpr ⟨hnew, ?_⟩
        intro q hq
        have hnone := hfresh q hq
        rwa [Map.get_insert_ne _ _ (hne q hq)] at hnone
    · rintro ⟨ps, hreads, hnodup, hfresh, rfl⟩
      cases hreads with
      | cons hhead hrest =>
        rename_i p ps
        rw [List.map_cons, List.nodup_cons] at hnodup
        rw [List.forall_mem_cons] at hfresh
        refine ⟨p, hhead, hfresh.1, ps, hrest, hnodup.2, ?_, rfl⟩
        intro q hq
        have hne : p.1 ≠ q.1 := fun heq => hnodup.1 (heq ▸ List.mem_map_of_mem hq)
        rw [Map.get_insert_ne _ _ hne]
        exact hfresh.2 q hq

/-- No list of entries makes the loop panic. -/
theorem deserializeFrom_isSome (m : Map Address Amount) (entries : List (String × String)) :
    (deserializeFrom m entries).isSome := by
  induction entries generalizing m with
  | nil => rfl
  | cons entry rest ih =>
    obtain ⟨address, balance⟩ := entry
    rw [deserializeFrom]
    split
    · rfl
    · obtain ⟨r, hr, -⟩ := fromHexUtf8_eq addressSize address
      rw [hr]
      cases r with
      | error e => rfl
      | ok a =>
        dsimp only
        cases parseAmount balance with
        | error kind => rfl
        | ok b =>
          dsimp only
          cases m[a]? with
          | some old => rfl
          | none => exact ih _

theorem exists_forall₂ {α β : Type} {R : α → β → Prop} {l : List α} (h : ∀ a ∈ l, ∃ b, R a b) :
    ∃ l', List.Forall₂ R l l' := by
  induction l with
  | nil => exact ⟨[], .nil⟩
  | cons a rest ih =>
    rw [List.forall_mem_cons] at h
    obtain ⟨b, hb⟩ := h.1
    obtain ⟨l', hl'⟩ := ih h.2
    exact ⟨b :: l', .cons hb hl'⟩

theorem forall₂_mem {α β : Type} {R : α → β → Prop} {l : List α} {l' : List β} (h : List.Forall₂ R l l') :
    (∀ a ∈ l, ∃ b ∈ l', R a b) ∧ ∀ b ∈ l', ∃ a ∈ l, R a b := by
  induction h with
  | nil => simp
  | cons hhead _ ih =>
    simp only [List.mem_cons, forall_eq_or_imp, exists_eq_or_imp]
    exact ⟨⟨.inl hhead, fun a ha => .inr (ih.1 a ha)⟩, .inl hhead, fun b hb => .inr (ih.2 b hb)⟩

/-- Entries that are read denote different addresses exactly if the addresses read are different. -/
theorem pairwise_iff_nodup {entries : List (String × String)} {ps : List (Address × Amount)}
    (h : List.Forall₂ Reads entries ps) :
    (entries.Pairwise fun e e' => ¬ ∃ a, DenotesAddress e.1 a ∧ DenotesAddress e'.1 a) ↔ (ps.map Prod.fst).Nodup := by
  induction h with
  | nil => simp
  | @cons e p entries ps hread hrest ih =>
    rw [List.pairwise_cons, List.map_cons, List.nodup_cons, ih]
    refine and_congr_left fun _ => ?_
    constructor
    · intro hne hmem
      obtain ⟨q, hq, heq⟩ := List.mem_map.mp hmem
      obtain ⟨e', he', hread'⟩ := (forall₂_mem hrest).2 q hq
      exact hne e' he' ⟨p.1, hread.1, heq ▸ hread'.1⟩
    · rintro hnotMem e' he' ⟨a, ha, ha'⟩
      obtain ⟨q, hq, hread'⟩ := (forall₂_mem hrest).1 e' he'
      have hp : p.1 = a := hread.1.unique ha
      have hq' : q.1 = a := hread'.1.unique ha'
      exact hnotMem (List.mem_map.mpr ⟨q, hq, hq'.trans hp.symm⟩)

/-- **Which lists are accepted.** -/
theorem exists_deserializeAllocations_iff (entries : List (String × String)) :
    (∃ m, deserializeAllocations entries = some (.ok m)) ↔
      (∀ e ∈ entries, ∃ p, Reads e p) ∧
        entries.Pairwise fun e e' => ¬ ∃ a, DenotesAddress e.1 a ∧ DenotesAddress e'.1 a := by
  simp only [deserializeAllocations, deserializeFrom_ok_iff]
  constructor
  · rintro ⟨m, ps, hreads, hnodup, -⟩
    refine ⟨?_, (pairwise_iff_nodup hreads).mpr hnodup⟩
    intro e he
    obtain ⟨p, -, hread⟩ := (forall₂_mem hreads).1 e he
    exact ⟨p, hread⟩
  · rintro ⟨hall, hpairwise⟩
    obtain ⟨ps, hreads⟩ := exists_forall₂ hall
    exact ⟨_, ps, hreads, (pairwise_iff_nodup hreads).mp hpairwise, by simp, rfl⟩

/-! ## Writing and reading back -/

/-- The entry that is written for an allocation. -/
def printed (p : Address × Amount) : String × String := (displayBytes p.1.toList, toString p.2.toNat)

theorem reads_printed (p : Address × Amount) : Reads (printed p) p := ⟨denotesAddress_display p.1, denotesAmount_toString p.2⟩

theorem compare_lt_iff (a b : String) : compare a b = .lt ↔ a < b := by
  change compareOfLessAndEq a b = .lt ↔ a < b
  unfold compareOfLessAndEq
  split
  · rename_i hlt
    simp [hlt]
  · rename_i hlt
    split
    · simp [hlt]
    · simp [hlt]

/-- What is written are the allocations in the order of their printed addresses. -/
theorem serializeAllocations_eq {m : Map Address Amount} {entries : List (Address × Amount)}
    (h : Enumerates entries m) :
    ∃ ps : List (Address × Amount), ps.Perm m.toList ∧ serializeAllocations entries = ps.map printed ∧
      (serializeAllocations entries).Pairwise fun p q => p.1 < q.1 := by
  have hkeys : (m.toList.map fun p => displayBytes p.1.toList).Nodup := by
    refine (Map.nodup_toList m).map_on fun p hp q hq heq => ?_
    exact List.inj_on_of_nodup_map (Map.nodup_keys_toList m) hp hq (Vector.toList_inj.mp (displayBytes_inj heq))
  let ps := sortByKey (fun p : Address × Amount => displayBytes p.1.toList) m.toList
  obtain ⟨hperm, hsorted⟩ := (uniqueListing_sortByKey (fun p : Address × Amount => displayBytes p.1.toList)
    (List.Perm.refl m.toList) hkeys ps).mpr rfl
  have hprinted : (ps.map printed).Pairwise fun p q => compare p.1 q.1 = .lt := List.pairwise_map.mpr hsorted
  have hsame : serializeAllocations entries = ps.map printed :=
    sortByKey_eq_of_perm Prod.fst ((h.trans hperm.symm).map printed) hprinted
  refine ⟨ps, hperm, hsame, ?_⟩
  rw [hsame]
  exact hprinted.imp fun hlt => (compare_lt_iff _ _).mp hlt

/-- **What is written is read back.** -/
theorem deserialize_serialize {m : Map Address Amount} {entries : List (Address × Amount)} (h : Enumerates entries m) :
    deserializeAllocations (serializeAllocations entries) = some (.ok m) := by
  obtain ⟨ps, hperm, hsame, -⟩ := serializeAllocations_eq h
  have hnodup : (ps.map Prod.fst).Nodup := (hperm.map Prod.fst).nodup_iff.mpr (Map.nodup_keys_toList m)
  have hreads : List.Forall₂ Reads (ps.map printed) ps := by
    rw [List.forall₂_map_left_iff]
    exact List.forall₂_same.mpr fun p _ => reads_printed p
  rw [hsame, deserializeAllocations, deserializeFrom_ok_iff]
  exact ⟨ps, hreads, hnodup, by simp, (Map.foldl_insert_of_perm hperm).symm⟩

/-- **The allocations of a genesis file round-trip.** In whatever order the map is iterated, what is written is read
back as the map, and its addresses are in strictly increasing order. And a list of entries is accepted exactly if
every address is `0x` and 40 hexadecimal digits, every balance is a decimal number of 128 bits, and no two entries
stand for one address, in whatever case they write it. -/
theorem allocations_round_trip :
    (∀ (m : Map Address Amount) (entries : List (Address × Amount)), Enumerates entries m →
      deserializeAllocations (serializeAllocations entries) = some (.ok m) ∧
      (serializeAllocations entries).Pairwise fun p q => p.1 < q.1) ∧
    ∀ entries : List (String × String), (∃ m, deserializeAllocations entries = some (.ok m)) ↔
      (∀ e ∈ entries, ∃ digits : List Char,
        e.1 = "0x" ++ String.ofList digits ∧ digits.length = 40 ∧ ∀ c ∈ digits, IsHexDigit c) ∧
      (∀ e ∈ entries, ∃ b, DenotesAmount e.2 b) ∧
      entries.Pairwise fun e e' => ¬ ∃ a, DenotesAddress e.1 a ∧ DenotesAddress e'.1 a := by
  refine ⟨?_, ?_⟩
  · intro m entries h
    obtain ⟨-, -, -, hsorted⟩ := serializeAllocations_eq h
    exact ⟨deserialize_serialize h, hsorted⟩
  · intro entries
    rw [exists_deserializeAllocations_iff]
    simp only [← exists_denotesAddress_iff]
    constructor
    · rintro ⟨hreads, hpairwise⟩
      refine ⟨?_, ?_, hpairwise⟩
      · intro e he
        obtain ⟨p, ha, -⟩ := hreads e he
        exact ⟨p.1, ha⟩
      · intro e he
        obtain ⟨p, -, hb⟩ := hreads e he
        exact ⟨p.2, hb⟩
    · rintro ⟨haddress, hamount, hpairwise⟩
      refine ⟨?_, hpairwise⟩
      intro e he
      obtain ⟨a, ha⟩ := haddress e he
      obtain ⟨b, hb⟩ := hamount e he
      exact ⟨(a, b), ha, hb⟩

def twoAccounts : Map Address Amount :=
  ((∅ : Map Address Amount).insert (Vector.replicate 20 1) 5).insert (Vector.replicate 20 2) 9

theorem allocations_round_trip_two :
    ∃ entries, Enumerates entries twoAccounts ∧
      deserializeAllocations (serializeAllocations entries) = some (.ok twoAccounts) :=
  ⟨twoAccounts.toList, .refl _, (allocations_round_trip.1 twoAccounts twoAccounts.toList (.refl _)).1⟩

end GenesisConfig
end Subhost
