import Mathlib.Data.List.Basic
import Mathlib.Data.Nat.Digits.Defs
/-!
# Reading JSON texts

A recursive-descent reader for JSON: whitespace between tokens, literals of numbers as they are written, strings with
their escapes, arrays and objects without trailing commas. What is made of a value is left to
a `Builder`, and members of an object are kept in order, repeated ones included.

A string ends at its quote whether or not it is a text, which one with half a pair of surrogates is not. How strings
are read is a parameter: `strictText` refuses such a string, and `looseText` passes over it.

`Compact` relates texts without whitespace, as serializers write them, to the values they stand for, and
`value_of_compact` says that the reader finds the value. The reader takes fuel for the depth of nesting; the depth
of a compact text is part of the relation.
-/
namespace JsonText

/-- A value is read off the front of a text. -/
abbrev Reader (α : Type) := List Char → Option (α × List Char)

/-- How values are put together. Numbers come as their literals. A string that is no text, or an object with such a key,
is `unread`. -/
structure Builder (J : Type) where
  null : J
  bool : Bool → J
  number : List Char → J
  string : List Char → J
  array : List J → J
  object : List (List Char × J) → J
  unread : J

namespace Builder

variable {J : Type} (mk : Builder J)

def ofText (text : Option (List Char)) : J := text.elim mk.unread mk.string

/-- A member whose key is a text. -/
def named (member : Option (List Char) × J) : Option (List Char × J) := member.1.map fun key => (key, member.2)

def ofMembers (members : List (Option (List Char) × J)) : J := (members.mapM named).elim mk.unread mk.object

theorem ofMembers_some (members : List (List Char × J)) :
    mk.ofMembers (members.map fun m => (some m.1, m.2)) = mk.object members := by
  have hkeys : (members.map fun m => (some m.1, m.2)).mapM named = some members := by
    induction members with
    | nil => rfl
    | cons m members ih =>
      rw [List.map_cons, List.mapM_cons, ih]
      rfl
  rw [ofMembers, hkeys]
  rfl

end Builder

/-! ## Tokens -/

def isSpace (c : Char) : Bool := c == ' ' || c == '\n' || c == '\t' || c == '\r'

def skipSpace (cs : List Char) : List Char := cs.dropWhile isSpace

/-- Digits, as many as there are. -/
def digits (cs : List Char) : List Char × List Char := (cs.takeWhile Char.isDigit, cs.dropWhile Char.isDigit)

/-- At least one digit. -/
def someDigits (cs : List Char) : Option (List Char × List Char) :=
  if (digits cs).1.isEmpty then none else some (digits cs)

/-- `0`, or digits that do not start with it. -/
def integerPart : Reader (List Char)
  | '0' :: rest => some (['0'], rest)
  | cs => someDigits cs

def fraction : Reader (List Char)
  | '.' :: rest => (someDigits rest).map fun p => ('.' :: p.1, p.2)
  | cs => some ([], cs)

def exponent : Reader (List Char)
  | c :: rest =>
    if c = 'e' ∨ c = 'E' then
      match rest with
      | sign :: rest' =>
        if sign = '+' ∨ sign = '-' then (someDigits rest').map fun p => (c :: sign :: p.1, p.2)
        else (someDigits rest).map fun p => (c :: p.1, p.2)
      | [] => none
    else some ([], c :: rest)
  | [] => some ([], [])

/-- The literal of a number. -/
def number (cs : List Char) : Option (List Char × List Char) := do
  let (sign, cs) := match cs with
    | '-' :: rest => (['-'], rest)
    | _ => ([], cs)
  let (whole, cs) ← integerPart cs
  let (part, cs) ← fraction cs
  let (power, cs) ← exponent cs
  return (sign ++ whole ++ part ++ power, cs)

/-- The escapes of one character. -/
def unescape : Char → Option Char
  | '"' => some '"'
  | '\\' => some '\\'
  | '/' => some '/'
  | 'b' => some (Char.ofNat 8)
  | 'f' => some (Char.ofNat 12)
  | 'n' => some '\n'
  | 'r' => some '\r'
  | 't' => some '\t'
  | _ => none

section
variable (hex : Char → Option Nat)

/-- The code unit of four hexadecimal digits. -/
def codeUnit (a b c d : Char) : Option Nat := do
  return 4096 * (← hex a) + 256 * (← hex b) + 16 * (← hex c) + (← hex d)

/-- What a string is made of: characters that stand there or have a short escape, and code units by their number. -/
inductive Piece where
  | char (c : Char)
  | unit (n : Nat)

/-- A string from behind its opening quote, up to the closing one. Control characters stand there only as escapes. -/
def pieces : List Char → Option (List Piece × List Char)
  | [] => none
  | c :: rest =>
    if c = '"' then some ([], rest)
    else if c = '\\' then
      match rest with
      | 'u' :: a :: b :: c :: d :: rest =>
        (codeUnit hex a b c d).bind fun n => (pieces rest).map fun p => (.unit n :: p.1, p.2)
      | e :: rest => (unescape e).bind fun ch => (pieces rest).map fun p => (.char ch :: p.1, p.2)
      | [] => none
    else if c.toNat < 32 then none
    else (pieces rest).map fun p => (.char c :: p.1, p.2)

/-- The text of a string, where `char` and `unit` say how its characters stand in it. Surrogates come in pairs. -/
def assemble {β : Type} (char unit : Char → List β) : List Piece → Option (List β)
  | [] => some []
  | .char c :: ps => (assemble char unit ps).map (char c ++ ·)
  | .unit high :: ps =>
    if 0xD800 ≤ high ∧ high ≤ 0xDBFF then
      match ps with
      | .unit low :: ps =>
        if 0xDC00 ≤ low ∧ low ≤ 0xDFFF then
          (assemble char unit ps).map (unit (Char.ofNat (0x10000 + 0x400 * (high - 0xD800) + (low - 0xDC00))) ++ ·)
        else none
      | _ => none
    else if 0xDC00 ≤ high ∧ high ≤ 0xDFFF then none
    else (assemble char unit ps).map (unit (Char.ofNat high) ++ ·)

def characters : List Piece → Option (List Char) := assemble (fun c => [c]) fun c => [c]

/-- A string that has to be a text. -/
def strictText (cs : List Char) : Option (Option (List Char) × List Char) :=
  (pieces hex cs).bind fun p => (characters p.1).map fun text => (some text, p.2)

/-- A string with its text, if it is one. It ends at its quote in any case. -/
def looseText (decode : List Piece → Option (List Char)) (cs : List Char) : Option (Option (List Char) × List Char) :=
  (pieces hex cs).map fun p => (decode p.1, p.2)

end

/-! ## Values -/

section
variable (strings : Reader (Option (List Char)))

/-- One item and what follows it, up to the closing bracket. -/
def items {α : Type} (read : Reader α) (close : Char) : Nat → Reader (List α)
  | 0, _ => none
  | fuel + 1, cs =>
    match read cs with
    | none => none
    | some (a, cs) =>
      match skipSpace cs with
      | [] => none
      | c :: rest =>
        if c = ',' then (items read close fuel rest).map fun p => (a :: p.1, p.2)
        else if c = close then some ([a], rest)
        else none

/-- What stands between brackets, from behind the opening one. -/
def elements {α : Type} (read : Reader α) (close : Char) (cs : List Char) : Option (List α × List Char) :=
  match skipSpace cs with
  | [] => none
  | c :: rest => if c = close then some ([], rest) else items read close cs.length cs

/-- A key, a colon and a value. -/
def member {α : Type} (read : Reader α) (cs : List Char) : Option ((Option (List Char) × α) × List Char) :=
  match skipSpace cs with
  | '"' :: rest =>
    match strings rest with
    | none => none
    | some (key, cs) =>
      match skipSpace cs with
      | ':' :: rest => (read rest).map fun p => ((key, p.1), p.2)
      | _ => none
  | _ => none

/-- The rest of a word. -/
def word (w : List Char) (cs : List Char) : Option (List Char) :=
  if w.isPrefixOf cs then some (cs.drop w.length) else none

/-- A value, nested no deeper than the fuel. -/
def value {J : Type} (mk : Builder J) : Nat → Reader J
  | 0, _ => none
  | depth + 1, cs =>
    match skipSpace cs with
    | [] => none
    | c :: rest =>
      if c = '"' then (strings rest).map fun p => (mk.ofText p.1, p.2)
      else if c = '[' then (elements (value mk depth) ']' rest).map fun p => (mk.array p.1, p.2)
      else if c = '{' then (elements (member strings (value mk depth)) '}' rest).map fun p => (mk.ofMembers p.1, p.2)
      else if c = 'n' then (word ['u', 'l', 'l'] rest).map fun cs => (mk.null, cs)
      else if c = 't' then (word ['r', 'u', 'e'] rest).map fun cs => (mk.bool true, cs)
      else if c = 'f' then (word ['a', 'l', 's', 'e'] rest).map fun cs => (mk.bool false, cs)
      else (number (c :: rest)).map fun p => (mk.number p.1, p.2)

/-- A whole text is one value, with whitespace around it. No text is nested deeper than it is long. -/
def parse {J : Type} (mk : Builder J) (cs : List Char) : Option J :=
  match value strings mk (cs.length + 1) cs with
  | none => none
  | some (j, rest) => if (skipSpace rest).isEmpty then some j else none

end

/-! ## Compact texts -/

/-- Texts with commas between them. -/
def commaSep (texts : List (List Char)) : List Char := [','].intercalate texts

@[simp]
theorem commaSep_nil : commaSep [] = [] := rfl

@[simp]
theorem commaSep_singleton (text : List Char) : commaSep [text] = text := by
  rw [commaSep, List.intercalate_singleton]

@[simp]
theorem commaSep_cons_cons (text next : List Char) (texts : List (List Char)) :
    commaSep (text :: next :: texts) = text ++ ',' :: commaSep (next :: texts) := by
  rw [commaSep, List.intercalate_cons_cons, List.append_assoc]
  rfl

/-- An array of items that are written already. -/
def arrayText (texts : List (List Char)) : List Char := '[' :: (commaSep texts ++ [']'])

/-- A member of an object, whose key needs no escapes. -/
def memberText (key text : List Char) : List Char := '"' :: (key ++ '"' :: ':' :: text)

def objectText (members : List (List Char × List Char)) : List Char :=
  '{' :: (commaSep (members.map fun m => memberText m.1 m.2) ++ ['}'])

/-- A key of ASCII characters that is written without escapes. -/
def Plain (key : List Char) : Prop := ∀ c ∈ key, c ≠ '"' ∧ c ≠ '\\' ∧ 32 ≤ c.toNat ∧ c.toNat < 128

/-- Plain keys are read as they are. -/
def ReadsPlain (strings : Reader (Option (List Char))) : Prop :=
  ∀ key, Plain key → ∀ rest, strings (key ++ '"' :: rest) = some (some key, rest)

/-- A compact text of a value, with the depth of its nesting: numbers, and arrays and objects of such. -/
inductive Compact {J : Type} (mk : Builder J) : Nat → List Char → J → Prop
  | number {depth : Nat} (n : Nat) : Compact mk (depth + 1) (Nat.toDigits 10 n) (mk.number (Nat.toDigits 10 n))
  | array {depth : Nat} (entries : List (List Char × J)) (h : ∀ e ∈ entries, Compact mk depth e.1 e.2) :
    Compact mk (depth + 1) (arrayText (entries.map Prod.fst)) (mk.array (entries.map Prod.snd))
  | object {depth : Nat} (entries : List (List Char × List Char × J)) (hkeys : ∀ e ∈ entries, Plain e.1)
    (h : ∀ e ∈ entries, Compact mk depth e.2.1 e.2.2) :
    Compact mk (depth + 1) (objectText (entries.map fun e => (e.1, e.2.1)))
      (mk.object (entries.map fun e => (e.1, e.2.2)))

/-- What may follow a value in a compact text. -/
def Ends (rest : List Char) : Prop := rest = [] ∨ ∃ c tail, rest = c :: tail ∧ (c = ',' ∨ c = ']' ∨ c = '}')

/-! ### What compact texts are made of -/

theorem length_commaSep (texts : List (List Char)) :
    (commaSep texts).length = (texts.map List.length).sum + (texts.length - 1) := by
  induction texts with
  | nil => rfl
  | cons text texts ih =>
    cases texts with
    | nil => simp
    | cons next texts =>
      rw [commaSep_cons_cons, List.length_append, List.length_cons (a := ','), ih]
      simp only [List.map_cons, List.sum_cons, List.length_cons]
      omega

theorem length_arrayText (texts : List (List Char)) :
    (arrayText texts).length = (texts.map List.length).sum + (texts.length - 1) + 2 := by
  rw [arrayText, List.length_cons, List.length_append, length_commaSep]
  rfl

theorem length_memberText (key text : List Char) : (memberText key text).length = key.length + text.length + 3 := by
  simp only [memberText, List.length_cons, List.length_append]
  omega

theorem length_objectText (members : List (List Char × List Char)) :
    (objectText members).length =
      (members.map fun m => m.1.length + m.2.length + 3).sum + (members.length - 1) + 2 := by
  rw [objectText, List.length_cons, List.length_append, length_commaSep, List.map_map, List.length_map]
  simp only [Function.comp_def, length_memberText]
  rfl

theorem forall_mem_commaSep {P : Char → Prop} (hcomma : P ',') {texts : List (List Char)}
    (h : ∀ text ∈ texts, ∀ c ∈ text, P c) : ∀ c ∈ commaSep texts, P c := by
  induction texts with
  | nil => simp
  | cons text texts ih =>
    obtain ⟨htext, htexts⟩ := List.forall_mem_cons.mp h
    cases texts with
    | nil => simpa using htext
    | cons next texts =>
      rw [commaSep_cons_cons, List.forall_mem_append, List.forall_mem_cons]
      exact ⟨htext, hcomma, ih htexts⟩

theorem forall_mem_arrayText {P : Char → Prop} (hmarks : ∀ c ∈ ['[', ',', ']'], P c) {texts : List (List Char)}
    (h : ∀ text ∈ texts, ∀ c ∈ text, P c) : ∀ c ∈ arrayText texts, P c := by
  rw [arrayText, List.forall_mem_cons, List.forall_mem_append]
  exact ⟨hmarks _ (by simp), forall_mem_commaSep (hmarks _ (by simp)) h, by simpa using hmarks ']' (by simp)⟩

theorem forall_mem_objectText {P : Char → Prop} (hmarks : ∀ c ∈ ['{', '"', ':', ',', '}'], P c)
    {members : List (List Char × List Char)} (hkeys : ∀ m ∈ members, ∀ c ∈ m.1, P c)
    (h : ∀ m ∈ members, ∀ c ∈ m.2, P c) : ∀ c ∈ objectText members, P c := by
  have hmember : ∀ text ∈ members.map fun m => memberText m.1 m.2, ∀ c ∈ text, P c := by
    intro text htext
    obtain ⟨m, hm, rfl⟩ := List.mem_map.mp htext
    rw [memberText, List.forall_mem_cons, List.forall_mem_append, List.forall_mem_cons, List.forall_mem_cons]
    exact ⟨hmarks _ (by simp), hkeys m hm, hmarks _ (by simp), hmarks _ (by simp), h m hm⟩
  rw [objectText, List.forall_mem_cons, List.forall_mem_append]
  exact ⟨hmarks _ (by simp), forall_mem_commaSep (hmarks _ (by simp)) hmember, by simpa using hmarks '}' (by simp)⟩

/-! ### Tokens of compact texts -/

theorem skipSpace_cons {c : Char} (h : isSpace c = false) (cs : List Char) : skipSpace (c :: cs) = c :: cs := by
  simp [skipSpace, h]

theorem Ends.cons {c : Char} (h : c = ',' ∨ c = ']' ∨ c = '}') (tail : List Char) : Ends (c :: tail) :=
  .inr ⟨c, tail, rfl, h⟩

theorem ne_of_isDigit {c d : Char} (hc : c.isDigit = true) (hd : d.isDigit = false) : c ≠ d := by
  rintro rfl
  exact absurd hc (by simp [hd])

theorem isSpace_of_isDigit {c : Char} (hc : c.isDigit = true) : isSpace c = false := by
  have hne : ∀ d : Char, d.isDigit = false → c ≠ d := fun d => ne_of_isDigit hc
  simp [isSpace, hne ' ' rfl, hne '\n' rfl, hne '\t' rfl, hne '\r' rfl]

theorem digitChar_of_lt : ∀ d < 10, (Nat.digitChar d).isDigit = true ∧ (Nat.digitChar d = '0' → d = 0) := by decide

/-- A number starts with a digit, and only zero starts with a zero. -/
theorem toDigits_head (n : Nat) :
    ∃ c tail, Nat.toDigits 10 n = c :: tail ∧ c.isDigit = true ∧ (c = '0' → n = 0) := by
  induction n using Nat.strongRecOn with
  | ind n ih =>
    rw [Nat.toDigits_eq_if (by decide)]
    split
    · rename_i hlt
      exact ⟨Nat.digitChar n, [], rfl, digitChar_of_lt n hlt⟩
    · rename_i hge
      obtain ⟨c, tail, hcons, hdigit, hzero⟩ := ih (n / 10) (by omega)
      refine ⟨c, tail ++ [Nat.digitChar (n % 10)], by rw [hcons]; rfl, hdigit, ?_⟩
      intro hc
      have := hzero hc
      omega

theorem digits_append {ds rest : List Char} (hds : ∀ c ∈ ds, c.isDigit = true) (hrest : Ends rest) :
    digits (ds ++ rest) = (ds, rest) := by
  have hstop : rest.takeWhile Char.isDigit = [] ∧ rest.dropWhile Char.isDigit = rest := by
    rcases hrest with rfl | ⟨c, tail, rfl, rfl | rfl | rfl⟩ <;> exact ⟨rfl, rfl⟩
  rw [digits, List.takeWhile_append_of_pos hds, List.dropWhile_append_of_pos hds, hstop.1, hstop.2, List.append_nil]

theorem fraction_of_ends {rest : List Char} (h : Ends rest) : fraction rest = some ([], rest) := by
  rcases h with rfl | ⟨c, tail, rfl, rfl | rfl | rfl⟩ <;> rfl

theorem exponent_of_ends {rest : List Char} (h : Ends rest) : exponent rest = some ([], rest) := by
  rcases h with rfl | ⟨c, tail, rfl, rfl | rfl | rfl⟩ <;> rfl

theorem integerPart_toDigits (n : Nat) {rest : List Char} (h : Ends rest) :
    integerPart (Nat.toDigits 10 n ++ rest) = some (Nat.toDigits 10 n, rest) := by
  obtain ⟨c, tail, hcons, -, hzero⟩ := toDigits_head n
  by_cases hc : c = '0'
  · rw [hzero hc]
    rfl
  · have hsome : someDigits (Nat.toDigits 10 n ++ rest) = some (Nat.toDigits 10 n, rest) := by
      rw [someDigits, digits_append (fun c hc => Nat.isDigit_of_mem_toDigits (by decide) (by decide) hc) h]
      simp [Nat.toDigits_ne_nil]
    rw [← hsome, hcons, List.cons_append, integerPart]
    intro _ hcontra
    exact hc (List.cons.inj hcontra).1

theorem number_toDigits (n : Nat) {rest : List Char} (h : Ends rest) :
    number (Nat.toDigits 10 n ++ rest) = some (Nat.toDigits 10 n, rest) := by
  obtain ⟨c, tail, hcons, hdigit, -⟩ := toDigits_head n
  have hsign : c ≠ '-' := ne_of_isDigit hdigit rfl
  have hint := integerPart_toDigits n h
  rw [hcons, List.cons_append] at hint ⊢
  unfold number
  split
  rename_i sign cs heq
  split at heq
  · rename_i hcontra
    exact absurd (List.cons.inj hcontra).1 hsign
  · cases heq
    simp [hint, fraction_of_ends h, exponent_of_ends h]

theorem pieces_plain (hex : Char → Option Nat) {key : List Char} (h : Plain key) (rest : List Char) :
    pieces hex (key ++ '"' :: rest) = some (key.map .char, rest) := by
  induction key with
  | nil => rw [List.nil_append, pieces.eq_def]; rfl
  | cons c key ih =>
    obtain ⟨⟨hquote, hescape, hcontrol, -⟩, htail⟩ := List.forall_mem_cons.mp h
    rw [List.cons_append, pieces.eq_def]
    simp [hquote, hescape, Nat.not_lt.mpr hcontrol, ih htail]

/-! ### Values of compact texts -/

section
variable {α : Type} {read : Reader α} {close : Char}

/-- Items are read one after the other, if each is read in front of a comma and of the bracket. -/
theorem items_commaSep (hclose : close = ']' ∨ close = '}') (entries : List (List Char × α)) (hne : entries ≠ [])
    (hread : ∀ e ∈ entries, ∀ rest, Ends rest → read (e.1 ++ rest) = some (e.2, rest)) (rest : List Char)
    {fuel : Nat} (hfuel : entries.length ≤ fuel) :
    items read close fuel (commaSep (entries.map Prod.fst) ++ close :: rest) = some (entries.map Prod.snd, rest) := by
  induction entries generalizing fuel with
  | nil => exact absurd rfl hne
  | cons e entries ih =>
    obtain ⟨he, hentries⟩ := List.forall_mem_cons.mp hread
    obtain ⟨fuel, rfl⟩ : ∃ k, fuel = k + 1 := ⟨fuel - 1, by simp at hfuel; omega⟩
    cases entries with
    | nil =>
      have hends : Ends (close :: rest) := .cons (.inr hclose) rest
      have hspace : isSpace close = false := by rcases hclose with rfl | rfl <;> rfl
      have hcomma : close ≠ ',' := by rcases hclose with rfl | rfl <;> decide
      simp [items, he _ hends, skipSpace_cons hspace, hcomma]
    | cons next entries =>
      have hcount : (next :: entries).length ≤ fuel := by simpa using hfuel
      have hmore := ih (by simp) hentries hcount
      rw [List.map_cons, List.map_cons, commaSep_cons_cons, ← List.map_cons, List.append_assoc, items,
        List.cons_append, he _ (.cons (.inl rfl) _)]
      dsimp only
      rw [skipSpace_cons rfl]
      dsimp only
      rw [if_pos rfl, hmore]
      rfl

theorem elements_commaSep (hclose : close = ']' ∨ close = '}') (entries : List (List Char × α))
    (hread : ∀ e ∈ entries, ∀ rest, Ends rest → read (e.1 ++ rest) = some (e.2, rest))
    (hhead : ∀ e ∈ entries, ∃ c tail, e.1 = c :: tail ∧ isSpace c = false ∧ c ≠ close) (rest : List Char) :
    elements read close (commaSep (entries.map Prod.fst) ++ close :: rest) = some (entries.map Prod.snd, rest) := by
  cases entries with
  | nil =>
    have hspace : isSpace close = false := by rcases hclose with rfl | rfl <;> rfl
    simp [elements, skipSpace_cons hspace]
  | cons e entries =>
    obtain ⟨c, tail, htext, hspace, hne⟩ := hhead e (List.mem_cons_self ..)
    have hstart : ∃ more, commaSep ((e :: entries).map Prod.fst) ++ close :: rest = c :: more := by
      cases entries with
      | nil => exact ⟨_, by simp [htext]; rfl⟩
      | cons next entries => exact ⟨_, by simp [htext]; rfl⟩
    have hfuel : (e :: entries).length ≤ (commaSep ((e :: entries).map Prod.fst) ++ close :: rest).length := by
      have hcount := length_commaSep ((e :: entries).map Prod.fst)
      rw [List.length_map] at hcount
      rw [List.length_append, @List.length_cons _ close rest]
      omega
    have hitems := items_commaSep hclose (e :: entries) (by simp) hread rest hfuel
    obtain ⟨more, hmore⟩ := hstart
    rw [elements, hitems, hmore, skipSpace_cons hspace]
    simp [hne]

end

section
variable {J : Type} {mk : Builder J} {strings : Reader (Option (List Char))} {depth : Nat} {text : List Char} {j : J}

/-- A compact text starts with a digit or an opening bracket. -/
theorem Compact.head (h : Compact mk depth text j) :
    ∃ c tail, text = c :: tail ∧ isSpace c = false ∧ c ≠ ']' := by
  cases h with
  | number n =>
    obtain ⟨c, tail, hcons, hdigit, -⟩ := toDigits_head n
    exact ⟨c, tail, hcons, isSpace_of_isDigit hdigit, ne_of_isDigit hdigit rfl⟩
  | array entries h => exact ⟨'[', _, rfl, rfl, by decide⟩
  | object entries hkeys h => exact ⟨'{', _, rfl, rfl, by decide⟩

theorem member_of_value (hplain : ReadsPlain strings) {key : List Char} (hkey : Plain key) {read : Reader J}
    {rest : List Char} (hread : read (text ++ rest) = some (j, rest)) :
    member strings read (memberText key text ++ rest) = some ((some key, j), rest) := by
  rw [member, memberText, List.cons_append, skipSpace_cons rfl]
  simp only [List.append_assoc, List.cons_append, hplain key hkey]
  rw [skipSpace_cons rfl]
  simp [hread]

/-- **Compact texts are read back**, whatever follows them. -/
theorem value_of_compact (hplain : ReadsPlain strings) (h : Compact mk depth text j) :
    ∀ rest, Ends rest → value strings mk depth (text ++ rest) = some (j, rest) := by
  induction h with
  | number n =>
    intro rest hrest
    obtain ⟨c, tail, hcons, hdigit, -⟩ := toDigits_head n
    have hspace := isSpace_of_isDigit hdigit
    have hnumber := number_toDigits n hrest
    rw [hcons, List.cons_append] at hnumber ⊢
    have hne : ∀ d : Char, d.isDigit = false → c ≠ d := fun d => ne_of_isDigit hdigit
    rw [value, skipSpace_cons hspace]
    simp [hnumber, hne '"' rfl, hne '[' rfl, hne '{' rfl, hne 'n' rfl, hne 't' rfl, hne 'f' rfl]
  | array entries h ih =>
    intro rest _
    have hitems := elements_commaSep (.inl rfl) entries ih (fun e he => (h e he).head) rest
    rw [arrayText, List.cons_append, List.append_assoc, value, skipSpace_cons rfl]
    simp [hitems]
  | @object depth entries hkeys h ih =>
    intro rest _
    -- a member is an item like any other, with its key in front
    let members := entries.map fun e => (memberText e.1 e.2.1, (some e.1, e.2.2))
    have hread : ∀ m ∈ members, ∀ rest, Ends rest →
        member strings (value strings mk depth) (m.1 ++ rest) = some (m.2, rest) := by
      intro m hm rest hrest
      obtain ⟨e, he, rfl⟩ := List.mem_map.mp hm
      exact member_of_value hplain (hkeys e he) (ih e he rest hrest)
    have hhead : ∀ m ∈ members, ∃ c tail, m.1 = c :: tail ∧ isSpace c = false ∧ c ≠ '}' := by
      intro m hm
      obtain ⟨e, -, rfl⟩ := List.mem_map.mp hm
      exact ⟨'"', _, rfl, rfl, by decide⟩
    have hitems := elements_commaSep (.inr rfl) members hread hhead rest
    have hmembers := mk.ofMembers_some (entries.map fun e => (e.1, e.2.2))
    simp only [members, List.map_map, Function.comp_def] at hitems hmembers
    rw [objectText, List.cons_append, List.append_assoc, value, skipSpace_cons rfl]
    simp [Function.comp_def, hitems, hmembers]

theorem parse_of_compact (hplain : ReadsPlain strings) (h : Compact mk (text.length + 1) text j) :
    parse strings mk text = some j := by
  have hread := value_of_compact hplain h [] (.inl rfl)
  rw [List.append_nil] at hread
  rw [parse, hread]
  rfl

end

end JsonText
