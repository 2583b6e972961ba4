import Subhost.Lib.Uint
import Mathlib.Data.List.Basic
import Mathlib.Data.List.Flatten
/-!
# A fixed-width binary encoding, as lawful codecs

The layout of `bincode` 1.3's default configuration: little-endian fixed-width integers, raw
fixed-size arrays, a `u64` element count before a sequence, one tag byte before an option, a
`u32` variant index before an enumeration, and structures as the concatenation of their fields.

A `Codec` carries its two laws. `decode_encode`: decoding what was encoded gives it back and
leaves the rest of the input alone. `encode_decode`: whatever the decoder accepts is, byte for
byte, an encoding. The only proviso is on the first law: an element count is written in 64
bits, so an encoding must be shorter than `2 ^ 64` bytes (no byte vector of a 64-bit machine is
longer, and every element takes at least one byte).
-/
namespace Bincode
open Uint

abbrev Bytes := List UInt8

/-! ## Little-endian digits -/

/-- The `k` low base-256 digits of `n`, least significant first. -/
def leBytes : Nat → Nat → Bytes
  | 0, _ => []
  | k + 1, n => UInt8.ofNat n :: leBytes k (n / 256)

/-- The number written by little-endian base-256 digits. -/
def ofLe : Bytes → Nat
  | [] => 0
  | b :: bs => b.toNat + 256 * ofLe bs

@[simp] theorem length_leBytes (k n : Nat) : (leBytes k n).length = k := by
  induction k generalizing n with
  | zero => rfl
  | succ k ih => simp [leBytes, ih]

theorem ofLe_leBytes (k n : Nat) : ofLe (leBytes k n) = n % 256 ^ k := by
  induction k generalizing n with
  | zero => simp [leBytes, ofLe, Nat.mod_one]
  | succ k ih =>
    have hb : (UInt8.ofNat n).toNat = n % 256 := by simp
    rw [leBytes, ofLe, ih, hb, pow_succ, Nat.mul_comm (256 ^ k) 256, Nat.mod_mul]

theorem ofLe_lt (bs : Bytes) : ofLe bs < 256 ^ bs.length := by
  induction bs with
  | nil => simp [ofLe]
  | cons b bs ih =>
    have hb := b.toNat_lt
    rw [ofLe, List.length_cons, pow_succ]
    omega

theorem leBytes_ofLe (bs : Bytes) : leBytes bs.length (ofLe bs) = bs := by
  induction bs with
  | nil => rfl
  | cons b bs ih =>
    have hb := b.toNat_lt
    have hlow : UInt8.ofNat (b.toNat + 256 * ofLe bs) = b := by
      apply UInt8.toNat_inj.mp
      simp only [UInt8.toNat_ofNat']
      omega
    have hhigh : (b.toNat + 256 * ofLe bs) / 256 = ofLe bs := by omega
    rw [List.length_cons, ofLe, leBytes, hlow, hhigh, ih]

/-- Split off the first `n` bytes; fails at the end of the input. -/
def takeN (n : Nat) (bs : Bytes) : Option (Bytes × Bytes) :=
  if n ≤ bs.length then some (bs.take n, bs.drop n) else none

theorem takeN_append {n : Nat} {bs : Bytes} (h : bs.length = n) (rest : Bytes) :
    takeN n (bs ++ rest) = some (bs, rest) := by
  subst h
  simp [takeN]

theorem takeN_eq_some {n : Nat} {bs hd tl : Bytes} (h : takeN n bs = some (hd, tl)) :
    bs = hd ++ tl ∧ hd.length = n := by
  unfold takeN at h
  split at h
  · cases h
    simp_all
  · cases h

/-! ## Codecs -/

structure Codec (α : Type) where
  encode : α → Bytes
  decode : Bytes → Option (α × Bytes)
  decode_encode : ∀ a rest, (encode a).length < 2 ^ 64 → decode (encode a ++ rest) = some (a, rest)
  encode_decode : ∀ bs a rest, decode bs = some (a, rest) → bs = encode a ++ rest

namespace Codec

variable {α β : Type}

/-- Decoding an encoding of the value gives it back and leaves what follows. -/
def ReadsBack (c : Codec α) (a : α) : Prop := ∀ rest, c.decode (c.encode a ++ rest) = some (a, rest)

theorem readsBack_of_length (c : Codec α) {a : α} (h : (c.encode a).length < 2 ^ 64) : c.ReadsBack a :=
  fun rest => c.decode_encode a rest h

/-- Nothing is left of an encoding on its own. -/
theorem ReadsBack.decode_alone {c : Codec α} {a : α} (h : c.ReadsBack a) : c.decode (c.encode a) = some (a, []) := by
  have hread := h []
  rwa [List.append_nil] at hread

/-- Values that are read back are self-delimiting. -/
theorem ReadsBack.append_inj {c : Codec α} {a b : α} (ha : c.ReadsBack a) (hb : c.ReadsBack b) {r s : Bytes}
    (h : c.encode a ++ r = c.encode b ++ s) : a = b ∧ r = s := by
  have hdecode := ha r
  rw [h, hb s] at hdecode
  simpa [eq_comm] using hdecode

theorem ReadsBack.inj {c : Codec α} {a b : α} (ha : c.ReadsBack a) (hb : c.ReadsBack b)
    (h : c.encode a = c.encode b) : a = b :=
  (ha.append_inj hb (congrArg (· ++ []) h)).1

/-- Decoding does not look at what follows. -/
theorem decode_append (c : Codec α) {bs : Bytes} {a : α} {rest : Bytes} (h : c.decode bs = some (a, rest))
    (hlen : bs.length < 2 ^ 64) (more : Bytes) : c.decode (bs ++ more) = some (a, rest ++ more) := by
  obtain rfl := c.encode_decode bs a rest h
  rw [List.length_append] at hlen
  rw [List.append_assoc]
  exact c.decode_encode a (rest ++ more) (by omega)

/-- The one-shot entry point: it ignores what follows the decoded value. -/
def deserialize (c : Codec α) (bs : Bytes) : Option α := (c.decode bs).map Prod.fst

theorem deserialize_encode (c : Codec α) (a : α) (h : (c.encode a).length < 2 ^ 64) :
    c.deserialize (c.encode a) = some a := by
  simp [deserialize, (c.readsBack_of_length h).decode_alone]

/-! ### Scalars -/

/-- An unsigned integer of `k` bytes. -/
def uint (k : Nat) : Codec (BitVec (8 * k)) where
  encode x := leBytes k x.toNat
  decode bs := (takeN k bs).map fun p => (BitVec.ofNat _ (ofLe p.1), p.2)
  decode_encode := by
    intro x rest _
    have hx : x.toNat % 256 ^ k = x.toNat := by
      have hlt := x.isLt
      rw [pow_mul] at hlt
      exact Nat.mod_eq_of_lt hlt
    simp [takeN_append (length_leBytes k x.toNat), ofLe_leBytes, hx]
  encode_decode := by
    intro bs x rest h
    obtain ⟨⟨hd, tl⟩, htake, hp⟩ := Option.map_eq_some_iff.mp h
    obtain ⟨rfl, hlen⟩ := takeN_eq_some htake
    simp only [Prod.mk.injEq] at hp
    obtain ⟨rfl, rfl⟩ := hp
    have hlt := ofLe_lt hd
    rw [hlen, show (256 : Nat) = 2 ^ 8 from rfl, ← pow_mul] at hlt
    rw [BitVec.toNat_ofNat, Nat.mod_eq_of_lt hlt, ← hlen, leBytes_ofLe]

@[simp] theorem length_encode_uint (k : Nat) (x : BitVec (8 * k)) : ((uint k).encode x).length = k :=
  length_leBytes k x.toNat

def u32 : Codec U32 := uint 4
def u64 : Codec U64 := uint 8
def u128 : Codec U128 := uint 16

@[simp] theorem length_encode_u32 (x : U32) : (u32.encode x).length = 4 := length_encode_uint 4 x
@[simp] theorem length_encode_u64 (x : U64) : (u64.encode x).length = 8 := length_encode_uint 8 x
@[simp] theorem length_encode_u128 (x : U128) : (u128.encode x).length = 16 := length_encode_uint 16 x

def u8 : Codec UInt8 where
  encode b := [b]
  decode
    | [] => none
    | b :: rest => some (b, rest)
  decode_encode := by intro b rest _; rfl
  encode_decode := by
    intro bs b rest h
    cases bs with
    | nil => cases h
    | cons x xs => cases h; rfl

@[simp] theorem length_encode_u8 (b : UInt8) : (u8.encode b).length = 1 := rfl

/-- A fixed-size byte array: its bytes and nothing else. -/
def array (n : Nat) : Codec (Vector UInt8 n) where
  encode v := v.toList
  decode bs :=
    if h : n ≤ bs.length then some (⟨(bs.take n).toArray, by simpa using h⟩, bs.drop n) else none
  decode_encode := by
    intro v rest _
    have hdrop : (v.toList ++ rest).drop n = rest := by
      rw [List.drop_append_of_le_length (by simp), List.drop_of_length_le (by simp)]
      rfl
    have hlen : n ≤ (v.toList ++ rest).length := by simp
    simp only [hlen, dite_true, Option.some.injEq, Prod.mk.injEq]
    refine ⟨?_, hdrop⟩
    apply Vector.toList_inj.mp
    simp [Vector.toList]
  encode_decode := by
    intro bs v rest h
    split at h
    · cases h
      exact (List.take_append_drop n bs).symm
    · cases h

@[simp] theorem length_encode_array (n : Nat) (v : Vector UInt8 n) : ((array n).encode v).length = n := by
  simp [array]

/-- A `u32` variant index below the number of variants. -/
def variant (n : Nat) (hn : n ≤ 2 ^ 32) : Codec (Fin n) where
  encode i := u32.encode (BitVec.ofNat 32 i.val)
  decode bs :=
    match u32.decode bs with
    | none => none
    | some (t, rest) => if h : t.toNat < n then some (⟨t.toNat, h⟩, rest) else none
  decode_encode := by
    intro i rest _
    have hi := i.isLt
    have htag : (BitVec.ofNat 32 i.val).toNat = i.val := by
      rw [BitVec.toNat_ofNat]
      exact Nat.mod_eq_of_lt (by omega)
    rw [u32.decode_encode _ rest (by simp)]
    simp only [htag, hi, dite_true]
  encode_decode := by
    intro bs i rest h
    split at h
    · cases h
    · rename_i t tl ht
      split at h
      · cases h
        rw [u32.encode_decode bs t rest ht]
        simp
      · cases h

@[simp] theorem length_encode_variant (n : Nat) (hn : n ≤ 2 ^ 32) (i : Fin n) :
    ((variant n hn).encode i).length = 4 := length_encode_u32 _

/-! ### Products, options, isomorphic types -/

/-- Two fields, one after the other. -/
def pair (c : Codec α) (d : Codec β) : Codec (α × β) where
  encode p := c.encode p.1 ++ d.encode p.2
  decode bs :=
    match c.decode bs with
    | none => none
    | some (a, mid) =>
      match d.decode mid with
      | none => none
      | some (b, rest) => some ((a, b), rest)
  decode_encode := by
    rintro ⟨a, b⟩ rest h
    simp only [List.length_append] at h
    simp only [List.append_assoc]
    rw [c.decode_encode a _ (by omega)]
    simp only
    rw [d.decode_encode b rest (by omega)]
  encode_decode := by
    rintro bs ⟨a, b⟩ rest h
    split at h
    · cases h
    · rename_i a' mid ha
      split at h
      · cases h
      · rename_i b' tl hb
        cases h
        rw [c.encode_decode bs a mid ha, d.encode_decode mid b rest hb, List.append_assoc]

@[simp] theorem encode_pair (c : Codec α) (d : Codec β) (p : α × β) :
    (pair c d).encode p = c.encode p.1 ++ d.encode p.2 := rfl

/-- The codec of a type in bijection with an encoded one (a structure and its tuple of fields). -/
def iso (c : Codec α) (f : β → α) (g : α → β) (left : ∀ b, g (f b) = b)
    (right : ∀ a, f (g a) = a) : Codec β where
  encode b := c.encode (f b)
  decode bs := (c.decode bs).map fun p => (g p.1, p.2)
  decode_encode := by
    intro b rest h
    rw [c.decode_encode (f b) rest h]
    simp [left]
  encode_decode := by
    intro bs b rest h
    obtain ⟨⟨a, tl⟩, ha, hp⟩ := Option.map_eq_some_iff.mp h
    simp only [Prod.mk.injEq] at hp
    obtain ⟨rfl, rfl⟩ := hp
    rw [right]
    exact c.encode_decode bs a tl ha

@[simp] theorem encode_iso (c : Codec α) (f : β → α) (g : α → β) (left : ∀ b, g (f b) = b)
    (right : ∀ a, f (g a) = a) (b : β) : (iso c f g left right).encode b = c.encode (f b) := rfl

def option (c : Codec α) : Codec (Option α) where
  encode
    | none => [0]
    | some a => 1 :: c.encode a
  decode
    | [] => none
    | t :: bs =>
      if t = 0 then some (none, bs)
      else if t = 1 then (c.decode bs).map fun p => (some p.1, p.2)
      else none
  decode_encode := by
    intro o rest h
    cases o with
    | none => rfl
    | some a =>
      simp only [List.length_cons] at h
      simp [c.decode_encode a rest (by omega)]
  encode_decode := by
    intro bs o rest h
    cases bs with
    | nil => cases h
    | cons t bs =>
      dsimp only at h
      split at h
      · rename_i ht
        cases h
        simp [ht]
      · split at h
        · rename_i ht
          obtain ⟨⟨a, tl⟩, ha, hp⟩ := Option.map_eq_some_iff.mp h
          simp only [Prod.mk.injEq] at hp
          obtain ⟨rfl, rfl⟩ := hp
          simp [ht, c.encode_decode bs a tl ha]
        · cases h

theorem length_encode_option (c : Codec α) (o : Option α) :
    ((option c).encode o).length = 1 + (o.map fun a => (c.encode a).length).getD 0 := by
  cases o <;> simp [option, Nat.add_comm]

/-! ### Sequences -/

/-- Decode exactly `n` elements. -/
def decodeN (c : Codec α) : Nat → Bytes → Option (List α × Bytes)
  | 0, bs => some ([], bs)
  | n + 1, bs =>
    match c.decode bs with
    | none => none
    | some (a, mid) =>
      match decodeN c n mid with
      | none => none
      | some (as, rest) => some (a :: as, rest)

theorem decodeN_flatMap (c : Codec α) (l : List α) (rest : Bytes)
    (h : (l.flatMap c.encode).length < 2 ^ 64) :
    decodeN c l.length (l.flatMap c.encode ++ rest) = some (l, rest) := by
  induction l with
  | nil => rfl
  | cons a l ih =>
    simp only [List.flatMap_cons, List.length_append] at h
    simp only [List.length_cons, List.flatMap_cons, List.append_assoc, decodeN]
    rw [c.decode_encode a _ (by omega)]
    simp only
    rw [ih (by omega)]

theorem decodeN_eq_some (c : Codec α) {n : Nat} {bs : Bytes} {l : List α} {rest : Bytes}
    (h : decodeN c n bs = some (l, rest)) : bs = l.flatMap c.encode ++ rest ∧ l.length = n := by
  induction n generalizing bs l with
  | zero => cases h; simp
  | succ n ih =>
    simp only [decodeN] at h
    split at h
    · cases h
    · rename_i a mid ha
      split at h
      · cases h
      · rename_i as tl hn
        cases h
        obtain ⟨hmid, hlen⟩ := ih hn
        refine ⟨?_, by simp [hlen]⟩
        rw [c.encode_decode bs a mid ha, hmid, List.flatMap_cons, List.append_assoc]

theorem length_le_flatMap (c : Codec α) (hpos : ∀ a, c.encode a ≠ []) (l : List α) :
    l.length ≤ (l.flatMap c.encode).length := by
  induction l with
  | nil => simp
  | cons a l ih =>
    have := List.length_pos_of_ne_nil (hpos a)
    simp only [List.length_cons, List.flatMap_cons, List.length_append]
    omega

/-- A sequence: its element count as a `u64`, then the elements. -/
def list (c : Codec α) (hpos : ∀ a, c.encode a ≠ []) : Codec (List α) where
  encode l := u64.encode (BitVec.ofNat 64 l.length) ++ l.flatMap c.encode
  decode bs :=
    match u64.decode bs with
    | none => none
    | some (n, mid) => decodeN c n.toNat mid
  decode_encode := by
    intro l rest h
    simp only [List.length_append, length_encode_u64] at h
    have hlen := length_le_flatMap c hpos l
    have hcount : (BitVec.ofNat 64 l.length).toNat = l.length := by
      rw [BitVec.toNat_ofNat]
      exact Nat.mod_eq_of_lt (by omega)
    rw [List.append_assoc, u64.decode_encode _ _ (by simp)]
    simp only
    rw [hcount, decodeN_flatMap c l rest (by omega)]
  encode_decode := by
    intro bs l rest h
    split at h
    · cases h
    · rename_i n mid hn
      obtain ⟨hmid, hlen⟩ := decodeN_eq_some c h
      rw [u64.encode_decode bs n mid hn, hmid, hlen]
      simp

@[simp] theorem length_encode_list (c : Codec α) (hpos : ∀ a, c.encode a ≠ []) (l : List α) :
    ((list c hpos).encode l).length = 8 + (l.flatMap c.encode).length := by
  simp [list]

/-- Fewer elements take no more bytes, in whatever order. -/
theorem length_encode_list_le (c : Codec α) (hpos : ∀ a, c.encode a ≠ []) {l l' : List α} (h : l.Subperm l') :
    ((list c hpos).encode l).length ≤ ((list c hpos).encode l').length := by
  obtain ⟨m, hperm, hsub⟩ := h
  have heq := (hperm.flatMap_right c.encode).length_eq
  have hle := (hsub.flatMap c.encode).length_le
  simp only [length_encode_list]
  omega

/-- A byte vector. -/
def bytes : Codec Bytes := list u8 (fun b => List.ne_nil_of_length_pos (by simp))

@[simp] theorem length_encode_bytes (bs : Bytes) : (bytes.encode bs).length = 8 + bs.length := by
  have h : bs.flatMap u8.encode = bs := by
    induction bs with
    | nil => rfl
    | cons b bs ih => rw [List.flatMap_cons, ih]; rfl
  rw [bytes, length_encode_list, h]

/-! ## Values that are read back, whatever their length

The length bound of `decode_encode` is on the whole encoding. For one value the bound that matters is on
each sequence inside it, whose element count is written in 64 bits; a value can meet it however long its
encoding is. -/

theorem readsBack_u8 (x : UInt8) : u8.ReadsBack x := readsBack_of_length _ (by simp)
theorem readsBack_u32 (x : U32) : u32.ReadsBack x := readsBack_of_length _ (by simp)
theorem readsBack_u64 (x : U64) : u64.ReadsBack x := readsBack_of_length _ (by simp)
theorem readsBack_u128 (x : U128) : u128.ReadsBack x := readsBack_of_length _ (by simp)

theorem readsBack_array {n : Nat} (hn : n < 2 ^ 64) (v : Vector UInt8 n) : (array n).ReadsBack v :=
  readsBack_of_length _ (by simpa using hn)

theorem readsBack_variant (n : Nat) (hn : n ≤ 2 ^ 32) (i : Fin n) : (variant n hn).ReadsBack i :=
  readsBack_of_length _ (by simp)

theorem ReadsBack.pair {c : Codec α} {d : Codec β} {a : α} {b : β} (ha : c.ReadsBack a) (hb : d.ReadsBack b) :
    (pair c d).ReadsBack (a, b) := by
  intro rest
  simp [Codec.pair, List.append_assoc, ha _, hb _]

theorem ReadsBack.iso {c : Codec α} {f : β → α} {g : α → β} {left : ∀ b, g (f b) = b} {right : ∀ a, f (g a) = a}
    {b : β} (h : c.ReadsBack (f b)) : (iso c f g left right).ReadsBack b := by
  intro rest
  simp [Codec.iso, h _, left]

theorem ReadsBack.option {c : Codec α} {o : Option α} (h : ∀ a, o = some a → c.ReadsBack a) :
    (option c).ReadsBack o := by
  intro rest
  cases o with
  | none => rfl
  | some a => simp [Codec.option, h a rfl _]

theorem decodeN_of_readsBack {c : Codec α} {l : List α} (h : ∀ a ∈ l, c.ReadsBack a) (rest : Bytes) :
    decodeN c l.length (l.flatMap c.encode ++ rest) = some (l, rest) := by
  induction l with
  | nil => rfl
  | cons a l ih =>
    rw [List.forall_mem_cons] at h
    simp [decodeN, List.append_assoc, h.1 _, ih h.2]

theorem ReadsBack.list {c : Codec α} {hpos : ∀ a, c.encode a ≠ []} {l : List α} (hlen : l.length < 2 ^ 64)
    (h : ∀ a ∈ l, c.ReadsBack a) : (list c hpos).ReadsBack l := by
  intro rest
  have hcount : (BitVec.ofNat 64 l.length).toNat = l.length := by
    rw [BitVec.toNat_ofNat]
    exact Nat.mod_eq_of_lt hlen
  have hdecode := decodeN_of_readsBack h rest
  simp only [Codec.list, List.append_assoc]
  rw [readsBack_u64 _ _]
  simp only [hcount, hdecode]

theorem readsBack_bytes {bs : Bytes} (h : bs.length < 2 ^ 64) : bytes.ReadsBack bs :=
  ReadsBack.list h fun b _ => readsBack_u8 b

/-! ## Sequences of elements of one width

The number of such elements is read off the number of bytes, so that two sequences are told apart whatever
their count field holds. -/

theorem length_flatMap_of_width (c : Codec α) {k : Nat} (hwidth : ∀ a, (c.encode a).length = k) (l : List α) :
    (l.flatMap c.encode).length = k * l.length := by
  induction l with
  | nil => rfl
  | cons a l ih => rw [List.flatMap_cons, List.length_append, hwidth, ih, List.length_cons, Nat.mul_succ, Nat.add_comm]

theorem encode_list_inj {c : Codec α} {hpos : ∀ a, c.encode a ≠ []} {k : Nat} (hk : k < 2 ^ 64)
    (hwidth : ∀ a, (c.encode a).length = k) {l m : List α} (h : (list c hpos).encode l = (list c hpos).encode m) :
    l = m := by
  have hread : ∀ (l : List α), ∀ a ∈ l, c.ReadsBack a := fun _ a _ => c.readsBack_of_length (by rw [hwidth]; exact hk)
  have hbytes : l.flatMap c.encode = m.flatMap c.encode := (List.append_inj h (by simp)).2
  have hcount : l.length = m.length := by
    cases l with
    | nil =>
      have hlen := length_le_flatMap c hpos m
      rw [← hbytes] at hlen
      have hnil : m = [] := by simpa using hlen
      rw [hnil]
    | cons a l =>
      have hpos' := List.length_pos_of_ne_nil (hpos a)
      rw [hwidth] at hpos'
      have hlen := congrArg List.length hbytes
      rw [length_flatMap_of_width c hwidth, length_flatMap_of_width c hwidth] at hlen
      exact Nat.eq_of_mul_eq_mul_left hpos' hlen
  have hl := decodeN_of_readsBack (hread l) []
  have hm := decodeN_of_readsBack (hread m) []
  rw [hbytes, hcount, hm] at hl
  simpa [eq_comm] using hl

theorem encode_bytes_inj {bs cs : Bytes} (h : bytes.encode bs = bytes.encode cs) : bs = cs :=
  encode_list_inj (k := 1) (by decide) (fun _ => rfl) h

end Codec
end Bincode
