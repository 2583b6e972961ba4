import Subhost.Lib.Serde
/-!
# JSON texts that were cut short

A reader that has found the end of a value does not look at what follows, so it finds the same value in every longer
text (`value_append`). Brackets mark their own end; a number ends only where something follows it. The fuel of the
reader grows with the text, so each lemma allows for more of it on the longer one.

`Tree.Valid.parse_cut`: a written array or object that was cut short, at whatever place, is not a text. Were it one, the
whole text would have the same value at its front and something left behind it. `ofText_cut` is the same of a
structure.
-/
namespace JsonText

/-- What `read` finds in front of something, `read'` finds in every longer text. -/
def Extends {α : Type} (read read' : Reader α) : Prop :=
  ∀ {cs a c rest}, read cs = some (a, c :: rest) → ∀ more, read' (cs ++ more) = some (a, c :: (rest ++ more))

/-- What was made of a value is made of it in the longer text. -/
theorem map_longer {α β : Type} {r r' : Option (α × List Char)} {b : β} {rest rest' : List Char} (make : α → β)
    (h : r.map (fun p => (make p.1, p.2)) = some (b, rest)) (hr : ∀ a, r = some (a, rest) → r' = some (a, rest')) :
    r'.map (fun p => (make p.1, p.2)) = some (b, rest') := by
  obtain ⟨⟨a, tail⟩, hp, heq⟩ := Option.map_eq_some_iff.mp h
  obtain ⟨rfl, rfl⟩ := Prod.mk.inj heq
  rw [hr a hp, Option.map_some]

/-! ## Tokens -/

theorem skipSpace_longer {cs rest : List Char} {c : Char} (h : skipSpace cs = c :: rest) (more : List Char) :
    skipSpace (cs ++ more) = c :: (rest ++ more) := by
  rw [skipSpace] at h ⊢
  rw [List.dropWhile_append, h]
  rfl

theorem digits_longer {cs ds rest : List Char} {c : Char} (h : digits cs = (ds, c :: rest)) (more : List Char) :
    digits (cs ++ more) = (ds, c :: (rest ++ more)) := by
  obtain ⟨hds, hrest⟩ := Prod.mk.inj h
  have hstop : (cs.takeWhile Char.isDigit).length ≠ cs.length := by
    have hlength := congrArg List.length (@List.takeWhile_append_dropWhile _ Char.isDigit cs)
    rw [List.length_append, hrest, List.length_cons] at hlength
    omega
  rw [digits, List.takeWhile_append, if_neg hstop, List.dropWhile_append, hrest, hds]
  rfl

theorem extends_someDigits : Extends someDigits someDigits := by
  intro cs ds c rest h more
  rw [someDigits] at h
  split at h
  · cases h
  · rename_i hne
    have hdigits := digits_longer (Option.some.inj h) more
    rw [Option.some.inj h] at hne
    rw [someDigits, hdigits, if_neg hne]

theorem extends_integerPart : Extends integerPart integerPart := by
  intro cs ds c rest h more
  unfold integerPart at h
  split at h
  · cases h
    rfl
  · rename_i hne
    have hsome := extends_someDigits h more
    cases cs with
    | nil => cases h
    | cons d cs =>
      rw [← hsome, List.cons_append, integerPart]
      intro tail heq
      exact hne cs (by rw [(List.cons.inj heq).1])

theorem extends_fraction : Extends fraction fraction := by
  intro cs ds c rest h more
  unfold fraction at h
  split at h
  · rw [List.cons_append, fraction]
    exact map_longer ('.' :: ·) h fun _ hsome => extends_someDigits hsome more
  · rename_i hne
    cases h
    rw [List.cons_append, fraction]
    intro tail heq
    exact hne rest (by rw [(List.cons.inj heq).1])

theorem extends_exponent : Extends exponent exponent := by
  intro cs ds c rest h more
  cases cs with
  | nil => cases h
  | cons e tail =>
    rw [exponent.eq_def] at h
    rw [List.cons_append, exponent.eq_def]
    dsimp only at h ⊢
    by_cases he : e = 'e' ∨ e = 'E'
    · rw [if_pos he] at h ⊢
      cases tail with
      | nil => cases h
      | cons sign tail =>
        rw [List.cons_append]
        dsimp only at h ⊢
        by_cases hsign : sign = '+' ∨ sign = '-'
        · rw [if_pos hsign] at h ⊢
          exact map_longer (e :: sign :: ·) h fun _ hsome => extends_someDigits hsome more
        · rw [if_neg hsign] at h ⊢
          exact map_longer (e :: ·) h fun _ hsome => extends_someDigits hsome more
    · rw [if_neg he] at h ⊢
      cases h
      rfl

/-- A number behind its sign. -/
def numberParts (sign cs : List Char) : Option (List Char × List Char) :=
  (integerPart cs).bind fun whole => (fraction whole.2).bind fun part => (exponent part.2).bind fun power =>
    some (sign ++ whole.1 ++ part.1 ++ power.1, power.2)

theorem number_minus (cs : List Char) : number ('-' :: cs) = numberParts ['-'] cs := rfl

theorem number_plain {c : Char} (hc : c ≠ '-') (cs : List Char) : number (c :: cs) = numberParts [] (c :: cs) := by
  unfold number
  split
  rename_i sign tail heq
  split at heq
  · rename_i hcons
    exact absurd (List.cons.inj hcons).1 hc
  · cases heq
    rfl

theorem extends_numberParts (sign : List Char) : Extends (numberParts sign) (numberParts sign) := by
  intro cs ds c rest h more
  simp only [numberParts, Option.bind_eq_some_iff, Option.some.injEq, Prod.mk.injEq] at h
  obtain ⟨⟨whole, cs₁⟩, hwhole, ⟨part, cs₂⟩, hpart, ⟨power, cs₃⟩, hpower, rfl, rfl⟩ := h
  -- behind each part something is left, since it is behind the last
  cases cs₂ with
  | nil => cases hpower
  | cons c₂ cs₂ =>
    cases cs₁ with
    | nil => cases hpart
    | cons c₁ cs₁ =>
      have hpart' := extends_fraction hpart more
      have hpower' := extends_exponent hpower more
      dsimp only [List.cons_append] at hpart' hpower'
      rw [numberParts, extends_integerPart hwhole more, Option.bind_some, hpart', Option.bind_some, hpower',
        Option.bind_some]

theorem extends_number : Extends number number := by
  intro cs ds c rest h more
  cases cs with
  | nil => cases h
  | cons d cs =>
    rw [List.cons_append]
    by_cases hd : d = '-'
    · subst hd
      rw [number_minus] at h ⊢
      exact extends_numberParts _ h more
    · rw [number_plain hd] at h ⊢
      exact extends_numberParts _ h more

section
variable {hex : Char → Option Nat}

theorem pieces_longer {cs rest : List Char} {ps : List Piece} (h : pieces hex cs = some (ps, rest)) (more : List Char) :
    pieces hex (cs ++ more) = some (ps, rest ++ more) := by
  fun_induction pieces hex cs generalizing ps rest with
  | case2 tail =>
    cases h
    rw [List.cons_append, pieces.eq_def]
    rfl
  | case3 a b c d tail _ ih =>
    obtain ⟨n, hunit, h⟩ := Option.bind_eq_some_iff.mp h
    simp only [List.cons_append]
    rw [pieces_unit hunit]
    exact map_longer (.unit n :: ·) h fun _ => ih
  | case4 e tail hnot _ ih =>
    obtain ⟨ch, hch, h⟩ := Option.bind_eq_some_iff.mp h
    have hu : e ≠ 'u' := by
      rintro rfl
      cases hch
    rw [List.cons_append, List.cons_append, pieces_short hch hu]
    exact map_longer (.char ch :: ·) h fun _ => ih
  | case7 c tail hquote hescape hcontrol ih =>
    rw [List.cons_append, pieces.eq_def]
    dsimp only
    rw [if_neg hquote, if_neg hescape, if_neg hcontrol]
    exact map_longer (.char c :: ·) h fun _ => ih
  | _ => cases h

/-- A string ends with its quote. -/
def EndsStrings (strings : Reader (Option (List Char))) : Prop :=
  ∀ {cs text rest}, strings cs = some (text, rest) → ∀ more, strings (cs ++ more) = some (text, rest ++ more)

theorem endsStrings_looseText (decode : List Piece → Option (List Char)) : EndsStrings (looseText hex decode) :=
  fun h more => map_longer decode h fun _ hps => pieces_longer hps more

end

theorem word_longer {w cs rest : List Char} (h : word w cs = some rest) (more : List Char) :
    word w (cs ++ more) = some (rest ++ more) := by
  unfold word at h ⊢
  split at h
  · rename_i hprefix
    have hw : w <+: cs := List.isPrefixOf_iff_prefix.mp hprefix
    cases h
    rw [if_pos (List.isPrefixOf_iff_prefix.mpr (hw.trans (List.prefix_append cs more))),
      List.drop_append_of_le_length hw.length_le]
  · cases h

/-! ## Values -/

section
variable {α : Type} {read read' : Reader α} {close : Char}

theorem items_longer (hread : Extends read read') {fuel fuel' : Nat} (hfuel : fuel ≤ fuel') {cs rest : List Char}
    {as : List α} (h : items read close fuel cs = some (as, rest)) (more : List Char) :
    items read' close fuel' (cs ++ more) = some (as, rest ++ more) := by
  induction fuel generalizing fuel' cs as with
  | zero => cases h
  | succ fuel ih =>
    obtain ⟨fuel', rfl⟩ : ∃ k, fuel' = k + 1 := ⟨fuel' - 1, by omega⟩
    rw [items] at h
    split at h
    · cases h
    · rename_i a tail hitem
      split at h
      · cases h
      · rename_i c tail' hspace
        -- something follows the item, so it is found in the longer text
        cases tail with
        | nil => cases hspace
        | cons d tail =>
          rw [items, hread hitem more]
          dsimp only
          rw [← List.cons_append, skipSpace_longer hspace more]
          dsimp only
          split at h
          · rename_i hcomma
            rw [if_pos hcomma]
            exact map_longer (a :: ·) h fun _ hitems => ih (Nat.le_of_succ_le_succ hfuel) hitems
          · rename_i hcomma
            split at h
            · rename_i hclose
              cases h
              rw [if_neg hcomma, if_pos hclose]
            · cases h

theorem elements_longer (hread : Extends read read') {cs rest : List Char} {as : List α}
    (h : elements read close cs = some (as, rest)) (more : List Char) :
    elements read' close (cs ++ more) = some (as, rest ++ more) := by
  rw [elements] at h
  split at h
  · cases h
  · rename_i c tail hspace
    rw [elements, skipSpace_longer hspace more]
    dsimp only
    split at h
    · rename_i hclose
      cases h
      rw [if_pos hclose]
    · rename_i hclose
      rw [if_neg hclose]
      exact items_longer hread (by rw [List.length_append]; omega) h more

theorem extends_member {strings : Reader (Option (List Char))} (hstrings : EndsStrings strings)
    (hread : Extends read read') : Extends (member strings read) (member strings read') := by
  intro cs m c rest h more
  unfold member at h
  split at h
  · rename_i tail hquote
    split at h
    · cases h
    · rename_i key tail hkey
      split at h
      · rename_i tail hcolon
        rw [member, skipSpace_longer hquote more]
        simp only [hstrings hkey more, skipSpace_longer hcolon more]
        exact map_longer (Prod.mk key ·) h fun _ hvalue => hread hvalue more
      · cases h
  · cases h

end

section
variable {J : Type} {mk : Builder J} {strings : Reader (Option (List Char))}

/-- A text that starts with a bracket, behind whitespace. -/
def Bracketed (cs : List Char) : Prop := ∃ c tail, skipSpace cs = c :: tail ∧ (c = '[' ∨ c = '{')

/-- **A value that has ended is found in every longer text.** -/
theorem value_longer (hstrings : EndsStrings strings) {depth depth' : Nat} (hdepth : depth ≤ depth')
    {cs rest : List Char} {j : J} (h : value strings mk depth cs = some (j, rest)) (hend : Bracketed cs ∨ rest ≠ [])
    (more : List Char) : value strings mk depth' (cs ++ more) = some (j, rest ++ more) := by
  induction depth generalizing depth' cs rest j more with
  | zero => cases h
  | succ depth ih =>
    obtain ⟨depth', rfl⟩ : ∃ k, depth' = k + 1 := ⟨depth' - 1, by omega⟩
    have hread : Extends (value strings mk depth) (value strings mk depth') :=
      fun h more => ih (Nat.le_of_succ_le_succ hdepth) h (.inr (by simp)) more
    rw [value] at h
    split at h
    · cases h
    · rename_i c tail hspace
      rw [value, skipSpace_longer hspace more]
      dsimp only
      by_cases hquote : c = '"'
      · rw [if_pos hquote] at h ⊢
        exact map_longer mk.ofText h fun _ hs => hstrings hs more
      rw [if_neg hquote] at h ⊢
      by_cases harray : c = '['
      · rw [if_pos harray] at h ⊢
        exact map_longer mk.array h fun _ hs => elements_longer hread hs more
      rw [if_neg harray] at h ⊢
      by_cases hobject : c = '{'
      · rw [if_pos hobject] at h ⊢
        exact map_longer mk.ofMembers h fun _ hs => elements_longer (extends_member hstrings hread) hs more
      rw [if_neg hobject] at h ⊢
      -- the words of JSON
      have hword : ∀ (w : List Char) (value : J), (word w tail).map (fun cs => (value, cs)) = some (j, rest) →
          (word w (tail ++ more)).map (fun cs => (value, cs)) = some (j, rest ++ more) := by
        intro w value h
        obtain ⟨tail', hp, heq⟩ := Option.map_eq_some_iff.mp h
        obtain ⟨rfl, rfl⟩ := Prod.mk.inj heq
        rw [word_longer hp more, Option.map_some]
      split at h
      · rename_i hc
        rw [if_pos hc]
        exact hword _ _ h
      rename_i hn
      split at h
      · rename_i hc
        rw [if_neg hn, if_pos hc]
        exact hword _ _ h
      rename_i ht
      split at h
      · rename_i hc
        rw [if_neg hn, if_neg ht, if_pos hc]
        exact hword _ _ h
      rename_i hf
      rw [if_neg hn, if_neg ht, if_neg hf]
      refine map_longer mk.number h fun lit hlit => ?_
      -- a number ends only where something follows
      have hnot : ¬ Bracketed cs := by
        rintro ⟨d, tail', hd, hbracket⟩
        rw [hspace] at hd
        cases hd
        exact hbracket.elim harray hobject
      cases rest with
      | nil => exact absurd rfl (hend.resolve_left hnot)
      | cons d rest => exact extends_number hlit more

end

theorem bracketed_enclosed (layout : Layout) (depth : Nat) {left : Char} (hleft : left = '[' ∨ left = '{') (right : Char)
    (texts : List (List Char)) : Bracketed (enclosed layout depth left right texts) := by
  have hspace : isSpace left = false := by rcases hleft with rfl | rfl <;> rfl
  unfold enclosed
  split <;> exact ⟨left, _, skipSpace_cons hspace _, hleft⟩

namespace Tree

variable {J : Type} {mk : Builder J} {strings : Reader (Option (List Char))}

/-- **A bracketed text that was cut short is not a text.** -/
theorem Valid.parse_cut {t : Tree} (h : t.Valid) (hquoted : ReadsQuoted strings) (hstrings : EndsStrings strings)
    (layout : Layout) (hbracket : Bracketed (t.write layout 0)) {cut lost : List Char}
    (hcut : t.write layout 0 = cut ++ lost) (hlost : lost ≠ []) : parse strings mk cut = none := by
  rw [parse]
  split
  · rfl
  rename_i j rest hvalue
  rw [hcut] at hbracket
  -- where a value was found, the first bracket is in front of the cut
  have hopen : Bracketed cut := by
    cases hspace : skipSpace cut with
    | nil => simp [value, hspace] at hvalue
    | cons c tail =>
      obtain ⟨d, tail', hd, hc⟩ := hbracket
      rw [skipSpace_longer hspace lost] at hd
      exact ⟨c, tail, hspace, (List.cons.inj hd).1 ▸ hc⟩
  have hfuel : t.height ≤ (t.write layout 0).length + 1 := (h.height_le layout 0).trans (Nat.le_succ _)
  have hwhole := @Valid.value_write J mk strings t h hquoted layout _ hfuel 0 [] (List.forall_mem_nil _) [] stops_nil
  have hmore : cut.length + 1 ≤ (t.write layout 0).length + 1 := by
    rw [hcut, List.length_append]
    omega
  have hlonger := value_longer hstrings hmore hvalue (.inl hopen) lost
  rw [List.nil_append, List.append_nil] at hwhole
  rw [← hcut, hwhole] at hlonger
  have hnil : [] = rest ++ lost := congrArg Prod.snd (Option.some.inj hlonger)
  exact absurd (List.append_eq_nil_iff.mp hnil.symm).2 hlost

end Tree

/-- **A structure that was cut short is not read.** -/
theorem ofText_cut {α β : Type} (m : Members β) (put : α → β) (get : β → α) (h : ∀ a, get (put a) = a)
    {hex : Char → Option Nat} (hhex : ReadsHex hex) (layout : Layout) {a : α} {cut lost : List Char}
    (hcut : (m.format put get h).toText layout a = cut ++ lost) (hlost : lost ≠ []) :
    (m.format put get h).ofText hex cut = none := by
  have hbracket := bracketed_enclosed layout 0 (.inr rfl) '}'
    (Tree.writeMembers layout 1 ((m.names.map String.toList).zip (m.write (put a))))
  rw [Format.ofText, ((m.format put get h).valid a).parse_cut (readsQuoted_looseText hhex) (endsStrings_looseText _)
    layout hbracket hcut hlost]
  rfl

end JsonText
