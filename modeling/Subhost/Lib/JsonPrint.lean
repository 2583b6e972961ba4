import Subhost.Lib.JsonText
import Mathlib.Algebra.Order.BigOperators.Group.List
/-!
# Writing JSON texts

The counterpart of the reader: a value as a `Tree`, and its text under a `Layout`, which says what whitespace stands
before the items of an array or object, before its closing bracket, and behind a colon. A compact text has none, a
pretty one breaks the line and indents. Strings are written with the escapes that the reader needs and no others.

`parse_write` is the round trip: under every layout, the reader finds the value that was written. Numbers are
integers (`Tree.Valid`).
-/
namespace JsonText

/-- A value. Numbers are literals. -/
inductive Tree where
  | null
  | bool (value : Bool)
  | number (literal : List Char)
  | string (text : List Char)
  | array (items : List Tree)
  | object (members : List (List Char × Tree))

/-- The literal of an integer. -/
def integer : Int → List Char
  | .ofNat n => Nat.toDigits 10 n
  | .negSucc n => '-' :: Nat.toDigits 10 (n + 1)

/-- Whitespace around the items of arrays and objects by their depth, and behind colons. -/
structure Layout where
  line : Nat → List Char
  gap : List Char
  line_space : ∀ depth, ∀ c ∈ line depth, isSpace c = true
  gap_space : ∀ c ∈ gap, isSpace c = true

theorem isSpace_indent (depth : Nat) : ∀ c ∈ '\n' :: List.replicate (2 * depth) ' ', isSpace c = true := by
  intro c hc
  rcases List.mem_cons.mp hc with rfl | hc
  · rfl
  · rw [List.eq_of_mem_replicate hc]
    rfl

namespace Layout

def compact : Layout := ⟨fun _ => [], [], nofun, nofun⟩

/-- Every item on a line of its own, indented by two for each bracket around it. -/
def pretty : Layout := ⟨fun depth => '\n' :: List.replicate (2 * depth) ' ', [' '], isSpace_indent, by simp [isSpace]⟩

end Layout

/-! ## The writer -/

/-- The digit of a value below sixteen, in lower case. -/
def lowerHex (n : Nat) : Char := if n < 10 then Char.ofNat (48 + n) else Char.ofNat (87 + n)

/-- One character of a string: the quote, the backslash and control characters are escaped. -/
def escape (c : Char) : List Char :=
  if c = '"' then ['\\', '"']
  else if c = '\\' then ['\\', '\\']
  else if c = Char.ofNat 8 then ['\\', 'b']
  else if c = '\t' then ['\\', 't']
  else if c = '\n' then ['\\', 'n']
  else if c = Char.ofNat 12 then ['\\', 'f']
  else if c = '\r' then ['\\', 'r']
  else if c.toNat < 32 then ['\\', 'u', '0', '0', lowerHex (c.toNat / 16), lowerHex (c.toNat % 16)]
  else [c]

def quoted (text : List Char) : List Char := '"' :: (text.flatMap escape ++ ['"'])

/-- Items between brackets. -/
def enclosed (layout : Layout) (depth : Nat) (left right : Char) (texts : List (List Char)) : List Char :=
  if texts.isEmpty then [left, right]
  else left :: (commaSep (texts.map fun text => layout.line (depth + 1) ++ text) ++ layout.line depth ++ [right])

def memberOf (layout : Layout) (key text : List Char) : List Char := quoted key ++ ':' :: (layout.gap ++ text)

namespace Tree

mutual

def write (layout : Layout) (depth : Nat) : Tree → List Char
  | .null => ['n', 'u', 'l', 'l']
  | .bool true => ['t', 'r', 'u', 'e']
  | .bool false => ['f', 'a', 'l', 's', 'e']
  | .number literal => literal
  | .string text => quoted text
  | .array items => enclosed layout depth '[' ']' (writeItems layout (depth + 1) items)
  | .object members => enclosed layout depth '{' '}' (writeMembers layout (depth + 1) members)

def writeItems (layout : Layout) (depth : Nat) : List Tree → List (List Char)
  | [] => []
  | t :: items => t.write layout depth :: writeItems layout depth items

def writeMembers (layout : Layout) (depth : Nat) : List (List Char × Tree) → List (List Char)
  | [] => []
  | (key, t) :: members => memberOf layout key (t.write layout depth) :: writeMembers layout depth members

end

section
variable {J : Type} (mk : Builder J)

mutual

/-- What the builder makes of a tree. -/
def build : Tree → J
  | .null => mk.null
  | .bool value => mk.bool value
  | .number literal => mk.number literal
  | .string text => mk.string text
  | .array items => mk.array (buildItems items)
  | .object members => mk.object (buildMembers members)

def buildItems : List Tree → List J
  | [] => []
  | t :: items => t.build :: buildItems items

def buildMembers : List (List Char × Tree) → List (List Char × J)
  | [] => []
  | (key, t) :: members => (key, t.build) :: buildMembers members

end
end

mutual

/-- How deep the brackets are nested, a value without brackets counting one. -/
def height : Tree → Nat
  | .array items => heightItems items + 1
  | .object members => heightMembers members + 1
  | _ => 1

def heightItems : List Tree → Nat
  | [] => 0
  | t :: items => max t.height (heightItems items)

def heightMembers : List (List Char × Tree) → Nat
  | [] => 0
  | (_, t) :: members => max t.height (heightMembers members)

end

/-- Every number is an integer. -/
inductive Valid : Tree → Prop
  | null : Valid .null
  | bool (value : Bool) : Valid (.bool value)
  | number (i : Int) : Valid (.number (integer i))
  | string (text : List Char) : Valid (.string text)
  | array {items : List Tree} (h : ∀ t ∈ items, Valid t) : Valid (.array items)
  | object {members : List (List Char × Tree)} (h : ∀ m ∈ members, Valid m.2) : Valid (.object members)

theorem writeItems_eq (layout : Layout) (depth : Nat) (items : List Tree) :
    writeItems layout depth items = items.map (write layout depth) := by
  induction items with
  | nil => rfl
  | cons t items ih => rw [writeItems, ih, List.map_cons]

theorem writeMembers_eq (layout : Layout) (depth : Nat) (members : List (List Char × Tree)) :
    writeMembers layout depth members = members.map fun m => memberOf layout m.1 (m.2.write layout depth) := by
  induction members with
  | nil => rfl
  | cons m members ih => rw [writeMembers, ih, List.map_cons]

theorem buildItems_eq {J : Type} (mk : Builder J) (items : List Tree) : buildItems mk items = items.map (build mk) := by
  induction items with
  | nil => rfl
  | cons t items ih => rw [buildItems, ih, List.map_cons]

theorem buildMembers_eq {J : Type} (mk : Builder J) (members : List (List Char × Tree)) :
    buildMembers mk members = members.map fun m => (m.1, m.2.build mk) := by
  induction members with
  | nil => rfl
  | cons m members ih => rw [buildMembers, ih, List.map_cons]

theorem height_le_heightItems {items : List Tree} {t : Tree} (h : t ∈ items) : t.height ≤ heightItems items := by
  induction items with
  | nil => cases h
  | cons t' items ih =>
    rw [heightItems]
    rcases List.mem_cons.mp h with rfl | h
    · exact Nat.le_max_left ..
    · exact (ih h).trans (Nat.le_max_right ..)

theorem height_le_heightMembers {members : List (List Char × Tree)} {m : List Char × Tree} (h : m ∈ members) :
    m.2.height ≤ heightMembers members := by
  induction members with
  | nil => cases h
  | cons m' members ih =>
    rw [heightMembers]
    rcases List.mem_cons.mp h with rfl | h
    · exact Nat.le_max_left ..
    · exact (ih h).trans (Nat.le_max_right ..)

end Tree

/-! ## Tokens -/

/-- What may follow a value: the end, a comma, a closing bracket or whitespace. -/
def Stops (rest : List Char) : Prop :=
  ∀ c tail, rest = c :: tail → c = ',' ∨ c = ']' ∨ c = '}' ∨ isSpace c = true

theorem stops_nil : Stops [] := nofun

theorem stops_cons {c : Char} (h : c = ',' ∨ c = ']' ∨ c = '}' ∨ isSpace c = true) (tail : List Char) :
    Stops (c :: tail) := by
  rintro _ _ ⟨⟩
  exact h

theorem stops_append {space rest : List Char} (hspace : ∀ c ∈ space, isSpace c = true) (h : Stops rest) :
    Stops (space ++ rest) := by
  cases space with
  | nil => exact h
  | cons c space => exact stops_cons (.inr (.inr (.inr (hspace c (List.mem_cons_self ..))))) _

theorem skipSpace_append {space rest : List Char} (hspace : ∀ c ∈ space, isSpace c = true) :
    skipSpace (space ++ rest) = skipSpace rest := by
  rw [skipSpace, List.dropWhile_append_of_pos hspace, skipSpace]

/-- Not part of a number. -/
theorem Stops.head {rest : List Char} (h : Stops rest) {c : Char} {tail : List Char} (hrest : rest = c :: tail) :
    c.isDigit = false ∧ c ≠ '.' ∧ c ≠ 'e' ∧ c ≠ 'E' := by
  have hcases := h c tail hrest
  simp only [isSpace, Bool.or_eq_true, beq_iff_eq] at hcases
  rcases hcases with rfl | rfl | rfl | ((rfl | rfl) | rfl) | rfl <;> decide

theorem digits_stops {ds rest : List Char} (hds : ∀ c ∈ ds, c.isDigit = true) (hrest : Stops rest) :
    digits (ds ++ rest) = (ds, rest) := by
  have hstop : rest.takeWhile Char.isDigit = [] ∧ rest.dropWhile Char.isDigit = rest := by
    cases rest with
    | nil => exact ⟨rfl, rfl⟩
    | cons c tail => simp [(hrest.head rfl).1]
  rw [digits, List.takeWhile_append_of_pos hds, List.dropWhile_append_of_pos hds, hstop.1, hstop.2, List.append_nil]

theorem fraction_stops {rest : List Char} (h : Stops rest) : fraction rest = some ([], rest) := by
  unfold fraction
  split
  · exact absurd rfl (h.head rfl).2.1
  · rfl

theorem exponent_stops {rest : List Char} (h : Stops rest) : exponent rest = some ([], rest) := by
  cases rest with
  | nil => rfl
  | cons c tail =>
    obtain ⟨-, -, he, hE⟩ := h.head rfl
    unfold exponent
    dsimp only
    rw [if_neg (by simp [he, hE])]

theorem integerPart_stops (n : Nat) {rest : List Char} (h : Stops rest) :
    integerPart (Nat.toDigits 10 n ++ rest) = some (Nat.toDigits 10 n, rest) := by
  obtain ⟨c, tail, hcons, -, hzero⟩ := toDigits_head n
  by_cases hc : c = '0'
  · rw [hzero hc]
    rfl
  · have hsome : someDigits (Nat.toDigits 10 n ++ rest) = some (Nat.toDigits 10 n, rest) := by
      rw [someDigits, digits_stops (fun c hc => Nat.isDigit_of_mem_toDigits (by decide) (by decide) hc) h]
      simp [Nat.toDigits_ne_nil]
    rw [← hsome, hcons, List.cons_append, integerPart]
    intro _ hcontra
    exact hc (List.cons.inj hcontra).1

/-- The first character of an integer. -/
theorem integer_head (i : Int) : ∃ c tail, integer i = c :: tail ∧ (c.isDigit = true ∨ c = '-') := by
  cases i with
  | ofNat n =>
    obtain ⟨c, tail, hcons, hdigit, -⟩ := toDigits_head n
    exact ⟨c, tail, hcons, .inl hdigit⟩
  | negSucc n => exact ⟨'-', _, rfl, .inr rfl⟩

theorem number_integer (i : Int) {rest : List Char} (h : Stops rest) :
    number (integer i ++ rest) = some (integer i, rest) := by
  cases i with
  | negSucc n =>
    simp [integer, number, integerPart_stops (n + 1) h, fraction_stops h, exponent_stops h]
  | ofNat n =>
    obtain ⟨c, tail, hcons, hdigit, -⟩ := toDigits_head n
    have hsign : c ≠ '-' := ne_of_isDigit hdigit rfl
    have hint := integerPart_stops n h
    rw [integer, hcons, List.cons_append] at *
    unfold number
    split
    rename_i sign cs heq
    split at heq
    · rename_i hcontra
      exact absurd (List.cons.inj hcontra).1 hsign
    · cases heq
      simp [hint, fraction_stops h, exponent_stops h]

/-- The reader's hexadecimal digits include those of the writer. -/
def ReadsHex (hex : Char → Option Nat) : Prop := ∀ d < 16, hex (lowerHex d) = some d

section
variable {hex : Char → Option Nat}

/-- An escape of one character. -/
theorem pieces_short {e ch : Char} (he : unescape e = some ch) (hu : e ≠ 'u') (rest : List Char) :
    pieces hex ('\\' :: e :: rest) = (pieces hex rest).map fun p => (.char ch :: p.1, p.2) := by
  rw [pieces.eq_def]
  dsimp only
  rw [if_neg (by decide), if_pos rfl]
  split
  · rename_i heq
    exact absurd (List.cons.inj heq).1 hu
  · rename_i heq
    cases heq
    rw [he, Option.bind_some]
  · rename_i heq
    cases heq

/-- An escape by number. -/
theorem pieces_unit {a b c d : Char} {n : Nat} (hunit : codeUnit hex a b c d = some n) (rest : List Char) :
    pieces hex ('\\' :: 'u' :: a :: b :: c :: d :: rest) = (pieces hex rest).map fun p => (.unit n :: p.1, p.2) := by
  rw [pieces.eq_def]
  dsimp only
  rw [if_neg (by decide), if_pos rfl]
  split
  · rename_i heq
    cases heq
    rw [hunit, Option.bind_some]
  · rename_i hnot heq
    cases heq
    exact absurd rfl (hnot _ _ _ _ _ rfl)
  · rename_i heq
    cases heq

/-- The piece that a character is written as, and read from. -/
theorem pieces_escape (hhex : ReadsHex hex) (c : Char) :
    ∃ piece, (∀ rest, pieces hex (escape c ++ rest) = (pieces hex rest).map fun p => (piece :: p.1, p.2)) ∧
      ∀ ps, characters (piece :: ps) = (characters ps).map (c :: ·) := by
  have hshort : ∀ e ch, unescape e = some ch → e ≠ 'u' →
      ∃ piece, (∀ rest, pieces hex ('\\' :: e :: rest) = (pieces hex rest).map fun p => (piece :: p.1, p.2)) ∧
        ∀ ps, characters (piece :: ps) = (characters ps).map (ch :: ·) :=
    fun e ch he hu => ⟨.char ch, pieces_short he hu, fun _ => rfl⟩
  unfold escape
  split_ifs with hquote hback h8 htab hline h12 hreturn hcontrol
  · rw [hquote]; exact hshort '"' '"' rfl (by decide)
  · rw [hback]; exact hshort '\\' '\\' rfl (by decide)
  · rw [h8]; exact hshort 'b' _ rfl (by decide)
  · rw [htab]; exact hshort 't' _ rfl (by decide)
  · rw [hline]; exact hshort 'n' _ rfl (by decide)
  · rw [h12]; exact hshort 'f' _ rfl (by decide)
  · rw [hreturn]; exact hshort 'r' _ rfl (by decide)
  · have hunit : codeUnit hex '0' '0' (lowerHex (c.toNat / 16)) (lowerHex (c.toNat % 16)) = some c.toNat := by
      have hzero : hex '0' = some 0 := hhex 0 (by decide)
      simp only [codeUnit, hzero, hhex _ (show c.toNat / 16 < 16 by omega), hhex _ (show c.toNat % 16 < 16 by omega),
        Option.bind_eq_bind, Option.bind_some, Option.pure_def]
      congr 1
      omega
    refine ⟨.unit c.toNat, pieces_unit hunit, fun ps => ?_⟩
    rw [characters, assemble.eq_def]
    dsimp only
    rw [if_neg (by omega), if_neg (by omega), Char.ofNat_toNat]
    rfl
  · refine ⟨.char c, fun rest => ?_, fun _ => rfl⟩
    rw [List.singleton_append, pieces.eq_def]
    simp [hquote, hback, hcontrol]

theorem pieces_quoted (hhex : ReadsHex hex) (text rest : List Char) :
    ∃ ps, pieces hex (text.flatMap escape ++ '"' :: rest) = some (ps, rest) ∧ characters ps = some text := by
  induction text with
  | nil =>
    rw [List.flatMap_nil, List.nil_append, pieces.eq_def]
    exact ⟨[], rfl, rfl⟩
  | cons c text ih =>
    obtain ⟨ps, hps, htext⟩ := ih
    obtain ⟨piece, hpiece, hchar⟩ := pieces_escape hhex c
    refine ⟨piece :: ps, ?_, by rw [hchar, htext, Option.map_some]⟩
    rw [List.flatMap_cons, List.append_assoc, hpiece, hps, Option.map_some]

/-- Strings are read as they were written. -/
def ReadsQuoted (strings : Reader (Option (List Char))) : Prop :=
  ∀ text rest, strings (text.flatMap escape ++ '"' :: rest) = some (some text, rest)

theorem readsQuoted_strictText (hhex : ReadsHex hex) : ReadsQuoted (strictText hex) := by
  intro text rest
  obtain ⟨ps, hps, htext⟩ := pieces_quoted hhex text rest
  rw [strictText, hps, Option.bind_some, htext, Option.map_some]

theorem readsQuoted_looseText (hhex : ReadsHex hex) : ReadsQuoted (looseText hex characters) := by
  intro text rest
  obtain ⟨ps, hps, htext⟩ := pieces_quoted hhex text rest
  rw [looseText, hps, Option.map_some, htext]

end

/-! ## Values -/

section
variable {α : Type} {read : Reader α} {close : Char} {space : List Char}

theorem not_isSpace_close (hclose : close = ']' ∨ close = '}') : isSpace close = false := by
  rcases hclose with rfl | rfl <;> rfl

/-- Items one after the other, with whitespace in front of the bracket. -/
theorem items_spaced (hclose : close = ']' ∨ close = '}') (hspace : ∀ c ∈ space, isSpace c = true)
    (entries : List (List Char × α)) (hne : entries ≠ [])
    (hread : ∀ e ∈ entries, ∀ rest, Stops rest → read (e.1 ++ rest) = some (e.2, rest)) (rest : List Char)
    {fuel : Nat} (hfuel : entries.length ≤ fuel) :
    items read close fuel (commaSep (entries.map Prod.fst) ++ (space ++ close :: rest)) =
      some (entries.map Prod.snd, rest) := by
  induction entries generalizing fuel with
  | nil => exact absurd rfl hne
  | cons e entries ih =>
    obtain ⟨he, hentries⟩ := List.forall_mem_cons.mp hread
    obtain ⟨fuel, rfl⟩ : ∃ k, fuel = k + 1 := ⟨fuel - 1, by simp at hfuel; omega⟩
    cases entries with
    | nil =>
      have hstops : Stops (space ++ close :: rest) :=
        stops_append hspace (stops_cons (by rcases hclose with rfl | rfl <;> simp) rest)
      have hcomma : close ≠ ',' := by rcases hclose with rfl | rfl <;> decide
      rw [List.map_singleton, commaSep_singleton, items, he _ hstops]
      dsimp only
      rw [skipSpace_append hspace, skipSpace_cons (not_isSpace_close hclose)]
      dsimp only
      rw [if_neg hcomma, if_pos rfl]
      rfl
    | cons next entries =>
      have hcount : (next :: entries).length ≤ fuel := by simpa using hfuel
      have hmore := ih (by simp) hentries hcount
      rw [List.map_cons, List.map_cons, commaSep_cons_cons, ← List.map_cons, List.append_assoc, items,
        List.cons_append, he _ (stops_cons (.inl rfl) _)]
      dsimp only
      rw [skipSpace_cons rfl]
      dsimp only
      rw [if_pos rfl, hmore]
      rfl

/-- Items in their brackets, under any layout. -/
theorem elements_enclosed (layout : Layout) (depth : Nat) (hclose : close = ']' ∨ close = '}')
    (entries : List (List Char × α))
    (hread : ∀ e ∈ entries, ∀ rest, Stops rest → read (layout.line (depth + 1) ++ e.1 ++ rest) = some (e.2, rest))
    (hhead : ∀ e ∈ entries, ∃ c tail, e.1 = c :: tail ∧ isSpace c = false ∧ c ≠ close) (left : Char) (rest : List Char) :
    ∃ body, enclosed layout depth left close (entries.map Prod.fst) ++ rest = left :: body ∧
      elements read close body = some (entries.map Prod.snd, rest) := by
  cases entries with
  | nil =>
    refine ⟨close :: rest, rfl, ?_⟩
    rw [elements, skipSpace_cons (not_isSpace_close hclose)]
    dsimp only
    rw [if_pos rfl]
    rfl
  | cons e entries =>
    let spaced := (e :: entries).map fun e => (layout.line (depth + 1) ++ e.1, e.2)
    have htexts : spaced.map Prod.fst =
        ((e :: entries).map Prod.fst).map fun text => layout.line (depth + 1) ++ text := by
      simp [spaced, Function.comp_def]
    have hvalues : spaced.map Prod.snd = (e :: entries).map Prod.snd := by simp [spaced, Function.comp_def]
    have hreads : ∀ s ∈ spaced, ∀ rest, Stops rest → read (s.1 ++ rest) = some (s.2, rest) := by
      intro s hs rest hrest
      obtain ⟨e, he, rfl⟩ := List.mem_map.mp hs
      exact hread e he rest hrest
    refine ⟨commaSep (spaced.map Prod.fst) ++ (layout.line depth ++ close :: rest), ?_, ?_⟩
    · rw [htexts, enclosed, if_neg (by simp)]
      simp
    have hfuel : spaced.length ≤ (commaSep (spaced.map Prod.fst) ++ (layout.line depth ++ close :: rest)).length := by
      have hcount := length_commaSep (spaced.map Prod.fst)
      rw [List.length_map] at hcount
      rw [List.length_append, List.length_append, @List.length_cons _ close rest]
      omega
    have hitems := items_spaced hclose (layout.line_space depth) spaced (by simp [spaced]) hreads rest hfuel
    obtain ⟨c, tail, htext, hspace, hne⟩ := hhead e (List.mem_cons_self ..)
    -- the first item starts behind the whitespace, and not with the bracket
    have hstart : ∃ more, skipSpace (commaSep (spaced.map Prod.fst) ++ (layout.line depth ++ close :: rest)) =
        c :: more := by
      have hline : ∀ more, skipSpace (layout.line (depth + 1) ++ (c :: more)) = c :: more := by
        intro more
        rw [skipSpace_append (layout.line_space _), skipSpace_cons hspace]
      cases entries with
      | nil => exact ⟨_, by simp [spaced, htext, hline]; rfl⟩
      | cons next entries => exact ⟨_, by simp [spaced, htext, hline]; rfl⟩
    obtain ⟨more, hmore⟩ := hstart
    rw [elements, hmore]
    dsimp only
    rw [if_neg hne, hitems, hvalues]

end

namespace Tree

variable {J : Type} {mk : Builder J} {strings : Reader (Option (List Char))}

/-- A text starts with a character that is neither whitespace nor a closing bracket. -/
theorem Valid.head {t : Tree} (h : t.Valid) (layout : Layout) (depth : Nat) :
    ∃ c tail, t.write layout depth = c :: tail ∧ isSpace c = false ∧ c ≠ ']' := by
  have henclosed : ∀ left right texts, ∃ tail, enclosed layout depth left right texts = left :: tail := by
    intro left right texts
    unfold enclosed
    split <;> exact ⟨_, rfl⟩
  cases h with
  | null => exact ⟨'n', _, rfl, rfl, by decide⟩
  | bool value => cases value <;> exact ⟨_, _, rfl, rfl, by decide⟩
  | number i =>
    obtain ⟨c, tail, hcons, hdigit | rfl⟩ := integer_head i
    · exact ⟨c, tail, hcons, isSpace_of_isDigit hdigit, ne_of_isDigit hdigit rfl⟩
    · exact ⟨'-', tail, hcons, rfl, by decide⟩
  | string text => exact ⟨'"', _, rfl, rfl, by decide⟩
  | @array items h =>
    obtain ⟨tail, htail⟩ := henclosed '[' ']' (writeItems layout (depth + 1) items)
    exact ⟨'[', tail, htail, rfl, by decide⟩
  | @object members h =>
    obtain ⟨tail, htail⟩ := henclosed '{' '}' (writeMembers layout (depth + 1) members)
    exact ⟨'{', tail, htail, rfl, by decide⟩

theorem member_memberOf (hstrings : ReadsQuoted strings) (layout : Layout) (depth : Nat) (key : List Char)
    {text rest : List Char} {j : J} {read : Reader J} (hread : read (layout.gap ++ (text ++ rest)) = some (j, rest)) :
    member strings read (layout.line depth ++ memberOf layout key text ++ rest) = some ((some key, j), rest) := by
  rw [member, memberOf, quoted]
  simp only [List.append_assoc, List.cons_append, List.nil_append]
  rw [skipSpace_append (layout.line_space _), skipSpace_cons rfl]
  simp only [hstrings key]
  rw [skipSpace_cons rfl]
  simp only [hread, Option.map_some]

/-- **What is written is read**, behind any whitespace and whatever follows. -/
theorem Valid.value_write {t : Tree} (h : t.Valid) (hstrings : ReadsQuoted strings) (layout : Layout) :
    ∀ {fuel : Nat}, t.height ≤ fuel → ∀ (depth : Nat) {space : List Char}, (∀ c ∈ space, isSpace c = true) →
      ∀ rest, Stops rest → value strings mk fuel (space ++ (t.write layout depth ++ rest)) = some (t.build mk, rest) := by
  induction h with
  | null =>
    intro fuel hfuel depth space hspace rest _
    obtain ⟨fuel, rfl⟩ : ∃ k, fuel = k + 1 := ⟨fuel - 1, by simp [height] at hfuel; omega⟩
    rw [value, skipSpace_append hspace, write, List.cons_append, skipSpace_cons rfl]
    simp [word, build]
  | bool b =>
    intro fuel hfuel depth space hspace rest _
    obtain ⟨fuel, rfl⟩ : ∃ k, fuel = k + 1 := ⟨fuel - 1, by simp [height] at hfuel; omega⟩
    rw [value, skipSpace_append hspace]
    cases b <;> rw [write, List.cons_append, skipSpace_cons rfl] <;> simp [word, build]
  | number i =>
    intro fuel hfuel depth space hspace rest hrest
    obtain ⟨fuel, rfl⟩ : ∃ k, fuel = k + 1 := ⟨fuel - 1, by simp [height] at hfuel; omega⟩
    have hnumber := number_integer i hrest
    obtain ⟨c, tail, hcons, hc⟩ := integer_head i
    have hne : ∀ d : Char, d.isDigit = false → d ≠ '-' → c ≠ d := by
      intro d hd hminus
      rcases hc with hdigit | rfl
      · exact ne_of_isDigit hdigit hd
      · exact hminus.symm
    have hspace' : isSpace c = false := by
      rcases hc with hdigit | rfl
      · exact isSpace_of_isDigit hdigit
      · rfl
    rw [value, skipSpace_append hspace, write]
    rw [hcons, List.cons_append] at hnumber ⊢
    rw [skipSpace_cons hspace']
    dsimp only
    rw [if_neg (hne _ rfl (by decide)), if_neg (hne _ rfl (by decide)), if_neg (hne _ rfl (by decide)),
      if_neg (hne _ rfl (by decide)), if_neg (hne _ rfl (by decide)), if_neg (hne _ rfl (by decide)), hnumber, build]
    rfl
  | string text =>
    intro fuel hfuel depth space hspace rest _
    obtain ⟨fuel, rfl⟩ : ∃ k, fuel = k + 1 := ⟨fuel - 1, by simp [height] at hfuel; omega⟩
    rw [value, skipSpace_append hspace, write, quoted, List.cons_append, skipSpace_cons rfl]
    dsimp only
    rw [if_pos rfl, List.append_assoc, List.singleton_append, hstrings, build]
    rfl
  | @array items hvalid ih =>
    intro fuel hfuel depth space hspace rest _
    obtain ⟨fuel, rfl⟩ : ∃ k, fuel = k + 1 := ⟨fuel - 1, by simp [height] at hfuel; omega⟩
    have hdeep : ∀ t ∈ items, t.height ≤ fuel := by
      intro t ht
      have := height_le_heightItems ht
      rw [height] at hfuel
      omega
    let entries := items.map fun t => (t.write layout (depth + 1), t.build mk)
    have hread : ∀ e ∈ entries, ∀ rest, Stops rest →
        value strings mk fuel (layout.line (depth + 1) ++ e.1 ++ rest) = some (e.2, rest) := by
      intro e he rest hrest
      obtain ⟨t, ht, rfl⟩ := List.mem_map.mp he
      rw [List.append_assoc]
      exact ih t ht (hdeep t ht) (depth + 1) (layout.line_space _) rest hrest
    have hhead : ∀ e ∈ entries, ∃ c tail, e.1 = c :: tail ∧ isSpace c = false ∧ c ≠ ']' := by
      intro e he
      obtain ⟨t, ht, rfl⟩ := List.mem_map.mp he
      exact (hvalid t ht).head layout (depth + 1)
    obtain ⟨body, hbody, helements⟩ := elements_enclosed layout depth (.inl rfl) entries hread hhead '[' rest
    have htexts : writeItems layout (depth + 1) items = entries.map Prod.fst := by
      simp [writeItems_eq, entries, Function.comp_def]
    have hvalues : buildItems mk items = entries.map Prod.snd := by simp [buildItems_eq, entries, Function.comp_def]
    rw [value, skipSpace_append hspace, write, htexts, hbody, skipSpace_cons rfl]
    dsimp only
    rw [if_neg (by decide), if_pos rfl, helements, build, hvalues]
    rfl
  | @object members hvalid ih =>
    intro fuel hfuel depth space hspace rest _
    obtain ⟨fuel, rfl⟩ : ∃ k, fuel = k + 1 := ⟨fuel - 1, by simp [height] at hfuel; omega⟩
    have hdeep : ∀ m ∈ members, m.2.height ≤ fuel := by
      intro m hm
      have := height_le_heightMembers hm
      rw [height] at hfuel
      omega
    -- a member is an item like any other, with its key in front
    let entries := members.map fun m => (memberOf layout m.1 (m.2.write layout (depth + 1)), (some m.1, m.2.build mk))
    have hread : ∀ e ∈ entries, ∀ rest, Stops rest →
        member strings (value strings mk fuel) (layout.line (depth + 1) ++ e.1 ++ rest) = some (e.2, rest) := by
      intro e he rest hrest
      obtain ⟨m, hm, rfl⟩ := List.mem_map.mp he
      exact member_memberOf hstrings layout _ m.1 (ih m hm (hdeep m hm) (depth + 1) layout.gap_space rest hrest)
    have hhead : ∀ e ∈ entries, ∃ c tail, e.1 = c :: tail ∧ isSpace c = false ∧ c ≠ '}' := by
      intro e he
      obtain ⟨m, hm, rfl⟩ := List.mem_map.mp he
      exact ⟨'"', _, rfl, rfl, by decide⟩
    obtain ⟨body, hbody, helements⟩ := elements_enclosed layout depth (.inr rfl) entries hread hhead '{' rest
    have htexts : writeMembers layout (depth + 1) members = entries.map Prod.fst := by
      simp [writeMembers_eq, entries, Function.comp_def]
    have hvalues : mk.ofMembers (entries.map Prod.snd) = mk.object (buildMembers mk members) := by
      rw [← mk.ofMembers_some]
      simp [buildMembers_eq, entries, Function.comp_def]
    rw [value, skipSpace_append hspace, write, htexts, hbody, skipSpace_cons rfl]
    dsimp only
    rw [if_neg (by decide), if_neg (by decide), if_pos rfl, helements, build, ← hvalues]
    rfl

theorem length_le_commaSep {texts : List (List Char)} {text : List Char} (h : text ∈ texts) :
    text.length ≤ (commaSep texts).length := by
  have hsum : text.length ≤ (texts.map List.length).sum := List.le_sum_of_mem (List.mem_map_of_mem h)
  rw [length_commaSep]
  omega

theorem length_le_enclosed (layout : Layout) (depth : Nat) (left right : Char) {texts : List (List Char)} {text : List Char}
    (h : text ∈ texts) : text.length + 1 ≤ (enclosed layout depth left right texts).length := by
  have hin := length_le_commaSep (List.mem_map_of_mem (f := fun text => layout.line (depth + 1) ++ text) h)
  have hne : texts.isEmpty = false := List.isEmpty_eq_false_iff_exists_mem.mpr ⟨text, h⟩
  rw [enclosed, hne, if_neg (by decide)]
  simp only [List.length_cons, List.length_append] at hin ⊢
  omega

theorem heightItems_le {items : List Tree} {n : Nat} (h : ∀ t ∈ items, t.height ≤ n) : heightItems items ≤ n := by
  induction items with
  | nil => exact Nat.zero_le n
  | cons t items ih =>
    obtain ⟨ht, hitems⟩ := List.forall_mem_cons.mp h
    exact Nat.max_le.mpr ⟨ht, ih hitems⟩

theorem heightMembers_le {members : List (List Char × Tree)} {n : Nat} (h : ∀ m ∈ members, m.2.height ≤ n) :
    heightMembers members ≤ n := by
  induction members with
  | nil => exact Nat.zero_le n
  | cons m members ih =>
    obtain ⟨hm, hmembers⟩ := List.forall_mem_cons.mp h
    exact Nat.max_le.mpr ⟨hm, ih hmembers⟩

/-- No value is nested deeper than its text is long. -/
theorem Valid.height_le {t : Tree} (h : t.Valid) (layout : Layout) (depth : Nat) :
    t.height ≤ (t.write layout depth).length := by
  induction h generalizing depth with
  | null => simp [height, write]
  | bool value => cases value <;> simp [height, write]
  | number i =>
    obtain ⟨c, tail, hcons, -⟩ := integer_head i
    simp [height, write, hcons]
  | string text => simp [height, write, quoted]
  | @array items hvalid ih =>
    rw [height, write, writeItems_eq]
    have hpair : 1 ≤ (enclosed layout depth '[' ']' (items.map (write layout (depth + 1)))).length := by
      unfold enclosed
      split <;> simp
    have hle : heightItems items ≤ (enclosed layout depth '[' ']' (items.map (write layout (depth + 1)))).length - 1 := by
      refine heightItems_le fun t ht => ?_
      have := length_le_enclosed layout depth '[' ']' (List.mem_map_of_mem (f := write layout (depth + 1)) ht)
      have := ih t ht (depth + 1)
      omega
    omega
  | @object members hvalid ih =>
    rw [height, write, writeMembers_eq]
    generalize htexts : members.map (fun m => memberOf layout m.1 (m.2.write layout (depth + 1))) = texts
    have hpair : 1 ≤ (enclosed layout depth '{' '}' texts).length := by
      unfold enclosed
      split <;> simp
    have hle : heightMembers members ≤ (enclosed layout depth '{' '}' texts).length - 1 := by
      refine heightMembers_le fun m hm => ?_
      have hmem : memberOf layout m.1 (m.2.write layout (depth + 1)) ∈ texts := by
        rw [← htexts]
        exact List.mem_map_of_mem (f := fun m => memberOf layout m.1 (m.2.write layout (depth + 1))) hm
      have hlong := length_le_enclosed layout depth '{' '}' hmem
      have := ih m hm (depth + 1)
      simp only [memberOf, List.length_append, List.length_cons] at hlong
      omega
    omega

/-- **The round trip.** A value that was written, under any layout, is read back. -/
theorem Valid.parse_write {t : Tree} (h : t.Valid) (hstrings : ReadsQuoted strings) (layout : Layout) :
    parse strings mk (t.write layout 0) = some (t.build mk) := by
  have hfuel : t.height ≤ (t.write layout 0).length + 1 := (h.height_le layout 0).trans (Nat.le_succ _)
  have hread := @Valid.value_write J mk strings t h hstrings layout _ hfuel 0 [] nofun [] stops_nil
  rw [List.nil_append, List.append_nil] at hread
  rw [parse, hread]
  rfl

end Tree

end JsonText
