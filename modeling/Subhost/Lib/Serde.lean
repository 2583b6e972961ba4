import Subhost.Lib.JsonPrint
import Subhost.Lib.Radix
/-!
# Typed JSON documents

A `Format` says how the values of a type stand in a JSON document: unsigned integers as plain digits, byte vectors and
lists as arrays, structures as objects. It carries its law: what was written is read back. Reading is more liberal than
writing, as derived deserializers are. Members of a structure come in any order and among unknown ones, but not twice;
a missing member may have a default; and an array that lists the members in their order is read as well. Unknown members
are passed over without being read: their strings need not be texts, and they may be nested to any depth.

`ofText_toText` is the round trip through a text, under every layout, and `length_write_le` bounds the text.
-/
namespace JsonText

/-- How the values of a type are written and read. -/
structure Format (α : Type) where
  write : α → Tree
  read : Tree → Option α
  read_write : ∀ a, read (write a) = some a
  valid : ∀ a, (write a).Valid

namespace Format

variable {α β : Type}

/-! ## Values -/

/-- A literal of digits, below a bound. -/
def readDigits (bound : Nat) : Tree → Option Nat
  | .number literal =>
    if literal.all Char.isDigit ∧ Radix.decimal literal < bound then some (Radix.decimal literal) else none
  | _ => none

theorem readDigits_toDigits {bound n : Nat} (h : n < bound) :
    readDigits bound (.number (Nat.toDigits 10 n)) = some n := by
  have hdigits : (Nat.toDigits 10 n).all Char.isDigit = true :=
    List.all_eq_true.mpr fun c hc => Nat.isDigit_of_mem_toDigits (by decide) (by decide) hc
  rw [readDigits, Radix.decimal_toDigits, if_pos ⟨hdigits, h⟩]

/-- An unsigned integer: a literal with a sign, a fraction or an exponent is refused. -/
def unsigned (w : Nat) : Format (BitVec w) where
  write n := .number (Nat.toDigits 10 n.toNat)
  read t := (readDigits (2 ^ w) t).map (BitVec.ofNat w)
  read_write n := by rw [readDigits_toDigits n.isLt, Option.map_some, BitVec.ofNat_toNat, BitVec.setWidth_eq]
  valid n := Tree.Valid.number (.ofNat n.toNat)

def byte : Format UInt8 where
  write b := .number (Nat.toDigits 10 b.toNat)
  read t := (readDigits 256 t).map UInt8.ofNat
  read_write b := by rw [readDigits_toDigits b.toNat_lt, Option.map_some, UInt8.ofNat_toNat]
  valid b := Tree.Valid.number (.ofNat b.toNat)

def text : Format String where
  write s := .string s.toList
  read
    | .string cs => some (String.ofList cs)
    | _ => none
  read_write _ := congrArg some String.ofList_toList
  valid s := .string s.toList

theorem mapM_read (f : Format α) (items : List α) : (items.map f.write).mapM f.read = some items := by
  induction items with
  | nil => rfl
  | cons a items ih =>
    rw [List.map_cons, List.mapM_cons, f.read_write, ih]
    rfl

def list (f : Format α) : Format (List α) where
  write items := .array (items.map f.write)
  read
    | .array items => items.mapM f.read
    | _ => none
  read_write := f.mapM_read
  valid items := .array fun t ht => by
    obtain ⟨a, -, rfl⟩ := List.mem_map.mp ht
    exact f.valid a

/-- A type whose values are written as those of another one. -/
def as (f : Format β) (put : α → β) (get : β → Option α) (h : ∀ a, get (put a) = some a) : Format α where
  write a := f.write (put a)
  read t := (f.read t).bind get
  read_write a := by rw [f.read_write, Option.bind_some, h]
  valid a := f.valid (put a)

end Format

/-! ## Structures -/

/-- The members of a structure. They are read from what stands under each name, or at each place if `inArray`. -/
structure Members (α : Type) where
  names : List String
  write : α → List Tree
  read : (inArray : Bool) → List (Option Tree) → Option α
  nodup : names.Nodup
  length_write : ∀ a, (write a).length = names.length
  read_write : ∀ inArray a, read inArray ((write a).map some) = some a
  valid : ∀ a, ∀ t ∈ write a, t.Valid

namespace Members

variable {α β γ : Type}

def none : Members Unit where
  names := []
  write _ := []
  read _ _ := some ()
  nodup := List.nodup_nil
  length_write _ := rfl
  read_write _ _ := rfl
  valid _ := nofun

/-- One member before others. `missing` is taken for it where it does not stand. -/
def member (name : String) (f : Format α) (missing : (inArray : Bool) → Option α) (rest : Members β)
    (h : name ∉ rest.names) : Members (α × β) where
  names := name :: rest.names
  write a := f.write a.1 :: rest.write a.2
  read
    | inArray, value :: values => do
      let a ← value.elim (missing inArray) f.read
      let b ← rest.read inArray values
      return (a, b)
    | _, [] => Option.none
  nodup := List.nodup_cons.mpr ⟨h, rest.nodup⟩
  length_write a := congrArg (· + 1) (rest.length_write a.2)
  read_write inArray a := by
    simp only [List.map_cons, Option.elim_some, f.read_write, rest.read_write, Option.bind_eq_bind, Option.bind_some]
    rfl
  valid a := List.forall_mem_cons.mpr ⟨f.valid a.1, rest.valid a.2⟩

/-- A member that must stand there. -/
def required (name : String) (f : Format α) (rest : Members β) (h : name ∉ rest.names) : Members (α × β) :=
  member name f (fun _ => Option.none) rest h

/-- A member with a default. -/
def defaulted (name : String) (f : Format α) (value : α) (rest : Members β) (h : name ∉ rest.names) : Members (α × β) :=
  member name f (fun _ => some value) rest h

/-- What stands under a name: nothing or one value. -/
def under (members : List (List Char × Tree)) (name : String) : Option (Option Tree) :=
  match members.filter fun m => m.1 = name.toList with
  | [] => some Option.none
  | [(_, t)] => some (some t)
  | _ => Option.none

theorem under_zip {names : List String} {trees : List Tree} (hnodup : names.Nodup)
    (hlength : trees.length = names.length) :
    names.mapM (under ((names.map String.toList).zip trees)) = some (trees.map some) := by
  -- the members before the ones that are still to be read have other names
  have hfrom : ∀ (names : List String) (trees : List Tree) (before : List (List Char × Tree)), names.Nodup →
      trees.length = names.length → (∀ m ∈ before, ∀ name ∈ names, m.1 ≠ name.toList) →
      names.mapM (under (before ++ (names.map String.toList).zip trees)) = some (trees.map some) := by
    intro names
    induction names with
    | nil =>
      intro trees before _ hlength _
      rw [List.length_eq_zero_iff.mp hlength]
      rfl
    | cons name names ih =>
      intro trees before hnodup hlength hbefore
      obtain ⟨hnew, hnodup⟩ := List.nodup_cons.mp hnodup
      cases trees with
      | nil => cases hlength
      | cons t trees =>
        have hskip : before.filter (fun m => m.1 = name.toList) = [] := by
          refine List.filter_eq_nil_iff.mpr fun m hm => ?_
          simpa using hbefore m hm name (List.mem_cons_self ..)
        have hrest : ((names.map String.toList).zip trees).filter (fun m => m.1 = name.toList) = [] := by
          refine List.filter_eq_nil_iff.mpr fun m hm => ?_
          obtain ⟨other, hother, heq⟩ := List.mem_map.mp (List.of_mem_zip hm).1
          rw [decide_eq_true_eq, ← heq, String.toList_inj]
          rintro rfl
          exact hnew hother
        have hhead : under (before ++ ((name :: names).map String.toList).zip (t :: trees)) name = some (some t) := by
          rw [under, List.filter_append, hskip, List.map_cons, List.zip_cons_cons,
            List.filter_cons_of_pos (by simp), hrest]
          rfl
        have hmove : before ++ ((name :: names).map String.toList).zip (t :: trees) =
            (before ++ [(name.toList, t)]) ++ (names.map String.toList).zip trees := by simp
        rw [List.mapM_cons, hhead, hmove, ih trees (before ++ [(name.toList, t)]) hnodup (Nat.succ.inj hlength)]
        · rfl
        · intro m hm other hother
          rcases List.mem_append.mp hm with hm | hm
          · exact hbefore m hm other (List.mem_cons_of_mem _ hother)
          · rw [List.mem_singleton.mp hm]
            intro heq
            exact hnew (String.toList_inj.mp heq ▸ hother)
  exact hfrom names trees [] hnodup hlength nofun

/-- A structure with these members. -/
def format (m : Members β) (put : α → β) (get : β → α) (h : ∀ a, get (put a) = a) : Format α where
  write a := .object ((m.names.map String.toList).zip (m.write (put a)))
  read
    | .object members => ((m.names.mapM (under members)).bind (m.read false)).map get
    | .array items =>
      if items.length ≤ m.names.length then
        (m.read true (items.map some ++ List.replicate (m.names.length - items.length) Option.none)).map get
      else Option.none
    | _ => Option.none
  read_write a := by
    dsimp only
    rw [under_zip m.nodup (m.length_write _), Option.bind_some, m.read_write, Option.map_some, h]
  valid a := .object fun t ht => m.valid (put a) t.2 (List.of_mem_zip ht).2

end Members

/-! ## Texts -/

/-- Trees as they are. No format reads `null`, so that it can stand for what is only passed over. -/
def treeBuilder : Builder Tree := ⟨.null, .bool, .number, .string, .array, .object, .null⟩

mutual

theorem build_treeBuilder : ∀ t : Tree, t.build treeBuilder = t
  | .null => rfl
  | .bool _ => rfl
  | .number _ => rfl
  | .string _ => rfl
  | .array items => by rw [Tree.build, buildItems_treeBuilder items]; rfl
  | .object members => by rw [Tree.build, buildMembers_treeBuilder members]; rfl

theorem buildItems_treeBuilder : ∀ items : List Tree, Tree.buildItems treeBuilder items = items
  | [] => rfl
  | t :: items => by rw [Tree.buildItems, build_treeBuilder t, buildItems_treeBuilder items]

theorem buildMembers_treeBuilder : ∀ members : List (List Char × Tree), Tree.buildMembers treeBuilder members = members
  | [] => rfl
  | (key, t) :: members => by rw [Tree.buildMembers, build_treeBuilder t, buildMembers_treeBuilder members]

end

namespace Format

variable {α : Type}

def toText (f : Format α) (layout : Layout) (a : α) : List Char := (f.write a).write layout 0

/-- Strings are loose: what stands in an unknown member need not be a text. -/
def ofText (f : Format α) (hex : Char → Option Nat) (cs : List Char) : Option α :=
  (parse (looseText hex characters) treeBuilder cs).bind f.read

/-- **What is written is read**, whatever the layout. -/
theorem ofText_toText (f : Format α) {hex : Char → Option Nat} (hhex : ReadsHex hex) (layout : Layout) (a : α) :
    f.ofText hex (f.toText layout a) = some a := by
  rw [ofText, toText, (f.valid a).parse_write (readsQuoted_looseText hhex) layout, build_treeBuilder, Option.bind_some,
    f.read_write]

end Format

/-! ## The size of a text -/

section
variable (layout : Layout)

mutual

/-- How long the text of a tree is at most. -/
def extent (depth : Nat) : Tree → Nat
  | .null => 4
  | .bool _ => 5
  | .number literal => literal.length
  | .string cs => (quoted cs).length
  | .array items => extentItems (depth + 1) items + (layout.line depth).length + 2
  | .object members => extentMembers (depth + 1) members + (layout.line depth).length + 2

def extentItems (depth : Nat) : List Tree → Nat
  | [] => 0
  | t :: items => extent depth t + (layout.line depth).length + 1 + extentItems depth items

def extentMembers (depth : Nat) : List (List Char × Tree) → Nat
  | [] => 0
  | (key, t) :: members =>
    (quoted key).length + 1 + layout.gap.length + extent depth t + (layout.line depth).length + 1 +
      extentMembers depth members

end
end

section
variable {layout : Layout}

theorem length_enclosed_le {depth : Nat} {left right : Char} {texts : List (List Char)} {n : Nat}
    (htexts : (texts.map fun text => text.length + (layout.line (depth + 1)).length + 1).sum ≤ n) :
    (enclosed layout depth left right texts).length ≤ n + (layout.line depth).length + 2 := by
  have hsum : ((texts.map fun text => layout.line (depth + 1) ++ text).map List.length).sum + texts.length ≤ n := by
    refine le_trans (le_of_eq ?_) htexts
    clear htexts
    induction texts with
    | nil => rfl
    | cons text texts ih =>
      simp only [List.map_cons, List.sum_cons, List.length_append, List.length_cons] at ih ⊢
      omega
  unfold enclosed
  split
  · exact Nat.le_add_left 2 _
  · simp only [List.length_cons, List.length_append, List.length_nil, length_commaSep, List.length_map]
    omega

mutual

/-- A text is no longer than its extent. -/
theorem length_write_le : ∀ (t : Tree) (depth : Nat), (t.write layout depth).length ≤ extent layout depth t
  | .null, _ => Nat.le_refl 4
  | .bool true, _ => by simp [Tree.write, extent]
  | .bool false, _ => Nat.le_refl 5
  | .number _, _ => Nat.le_refl _
  | .string _, _ => Nat.le_refl _
  | .array items, depth => by
    rw [Tree.write, extent]
    exact length_enclosed_le (length_writeItems_le items (depth + 1))
  | .object members, depth => by
    rw [Tree.write, extent]
    exact length_enclosed_le (length_writeMembers_le members (depth + 1))

theorem length_writeItems_le : ∀ (items : List Tree) (depth : Nat),
    ((Tree.writeItems layout depth items).map fun text => text.length + (layout.line depth).length + 1).sum ≤
      extentItems layout depth items
  | [], _ => Nat.le_refl 0
  | t :: items, depth => by
    have hhead := length_write_le t depth
    have htail := length_writeItems_le items depth
    rw [Tree.writeItems, List.map_cons, List.sum_cons, extentItems]
    omega

theorem length_writeMembers_le : ∀ (members : List (List Char × Tree)) (depth : Nat),
    ((Tree.writeMembers layout depth members).map fun text => text.length + (layout.line depth).length + 1).sum ≤
      extentMembers layout depth members
  | [], _ => Nat.le_refl 0
  | (key, t) :: members, depth => by
    have hhead := length_write_le t depth
    have htail := length_writeMembers_le members depth
    rw [Tree.writeMembers, List.map_cons, List.sum_cons, extentMembers, memberOf]
    simp only [List.length_append, List.length_cons] at hhead ⊢
    omega

end

theorem extentItems_le {depth k : Nat} {items : List Tree} (h : ∀ t ∈ items, extent layout depth t ≤ k) :
    extentItems layout depth items ≤ items.length * (k + (layout.line depth).length + 1) := by
  induction items with
  | nil => exact Nat.zero_le _
  | cons t items ih =>
    obtain ⟨ht, hitems⟩ := List.forall_mem_cons.mp h
    have := ih hitems
    rw [extentItems, List.length_cons, Nat.succ_mul]
    omega

/-- A list whose items are no longer than `k`. -/
theorem extent_list_le {α : Type} (f : Format α) {depth k : Nat} (h : ∀ a, extent layout (depth + 1) (f.write a) ≤ k)
    (items : List α) :
    extent layout depth (f.list.write items) ≤
      items.length * (k + (layout.line (depth + 1)).length + 1) + (layout.line depth).length + 2 := by
  have hitems : extentItems layout (depth + 1) (items.map f.write) ≤
      (items.map f.write).length * (k + (layout.line (depth + 1)).length + 1) := by
    refine extentItems_le fun t ht => ?_
    obtain ⟨a, -, rfl⟩ := List.mem_map.mp ht
    exact h a
  rw [List.length_map] at hitems
  exact Nat.add_le_add_right (Nat.add_le_add_right hitems _) 2

theorem extent_byte_le (depth : Nat) (b : UInt8) : extent layout depth (Format.byte.write b) ≤ 3 :=
  (Nat.length_toDigits_le_iff (by decide) (by decide)).mpr (by have := b.toNat_lt; omega)

end

theorem length_quoted_le (cs : List Char) : (quoted cs).length ≤ 6 * cs.length + 2 := by
  have hescape : ∀ c, (escape c).length ≤ 6 := by
    intro c
    unfold escape
    split_ifs <;> simp
  have hbody : (cs.flatMap escape).length ≤ 6 * cs.length := by
    induction cs with
    | nil => exact Nat.le_refl 0
    | cons c cs ih =>
      have := hescape c
      rw [List.flatMap_cons, List.length_append, List.length_cons]
      omega
  rw [quoted, List.length_cons, List.length_append, List.length_singleton]
  omega

end JsonText
