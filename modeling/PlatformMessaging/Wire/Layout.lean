import PlatformMessaging.Wire.LittleEndian

/-!
# Layouts of wire structures

A `Layout` says how the values of a type are written and how one is read from the front of a byte
string, with what follows handed back. Structures are laid out field after field (`pair`), and
`convert` names the fields.

`Layout.Fixed L n` is the law of a layout whose values take exactly `n` bytes: reading undoes
writing whatever follows, writing what was read gives the bytes back, and reading succeeds exactly
when `n` bytes are there. Every fixed layout is built from `byte`, `wordU16`, `wordU32` and
`block`, and the law passes through `pair` and `convert`.
-/

namespace PlatformMessaging

/-- A byte string of a fixed length. -/
structure Block (n : Nat) where
  bytes : Bytes
  length_eq : bytes.length = n
  deriving DecidableEq

@[ext] theorem Block.ext {n : Nat} {a b : Block n} (h : a.bytes = b.bytes) : a = b := by
  cases a; cases b; simp_all

/-- The block of the given bytes, if their count is right. -/
def Block.ofBytes? (n : Nat) (b : Bytes) : Option (Block n) :=
  if h : b.length = n then some ⟨b, h⟩ else none

/-- How the values of a type are written, and read from the front of a byte string. -/
structure Layout (α : Type) where
  write : α → Bytes
  read : Bytes → Option (α × Bytes)

namespace Layout

variable {α β : Type}

/-! ## Fields -/

/-- The first `n` bytes and the rest, if there are that many. -/
def split? (n : Nat) (b : Bytes) : Option (Bytes × Bytes) :=
  if n ≤ b.length then some (b.take n, b.drop n) else none

def byte : Layout UInt8 where
  write v := [v]
  read
    | [] => none
    | v :: rest => some (v, rest)

/-- A 16-bit word, low byte first. -/
def wordU16 : Layout UInt16 where
  write := LittleEndian.wordU16
  read b := (split? 2 b).map fun p => (LittleEndian.readU16 p.1, p.2)

/-- A 32-bit word, low byte first. -/
def wordU32 : Layout UInt32 where
  write := LittleEndian.wordU32
  read b := (split? 4 b).map fun p => (LittleEndian.readU32 p.1, p.2)

/-- A run of `n` bytes. -/
def block (n : Nat) : Layout (Block n) where
  write v := v.bytes
  read b := if h : n ≤ b.length then some (⟨b.take n, by simp [h]⟩, b.drop n) else none

/-- A run of bytes after its 16-bit length. Longer runs are written with their length modulo
`2 ^ 16`. -/
def counted : Layout Bytes where
  write v := LittleEndian.wordU16 (UInt16.ofNat v.length) ++ v
  read b := (wordU16.read b).bind fun p => split? p.1.toNat p.2

/-! ## Combining -/

/-- One field after another. -/
def pair (A : Layout α) (B : Layout β) : Layout (α × β) where
  write v := A.write v.1 ++ B.write v.2
  read b := (A.read b).bind fun p => (B.read p.2).map fun q => ((p.1, q.1), q.2)

/-- The same bytes, read as values of another type. -/
def convert (A : Layout α) (make : α → β) (parts : β → α) : Layout β where
  write v := A.write (parts v)
  read b := (A.read b).map fun p => (make p.1, p.2)

/-! ## The law of fixed layouts -/

/-- The values of the layout take exactly `n` bytes, and writing and reading are inverse. -/
structure Fixed (A : Layout α) (n : Nat) : Prop where
  read_write : ∀ v rest, A.read (A.write v ++ rest) = some (v, rest)
  write_read : ∀ b v rest, A.read b = some (v, rest) → A.write v ++ rest = b
  read_eq_none : ∀ b, A.read b = none ↔ b.length < n

theorem Fixed.length_write {A : Layout α} {n : Nat} (h : A.Fixed n) (v : α) :
    (A.write v).length = n := by
  have hsome := h.read_write v []
  rw [List.append_nil] at hsome
  have hge : n ≤ (A.write v).length := by
    have := mt (h.read_eq_none (A.write v)).2 (by simp [hsome])
    omega
  cases hread : A.read ((A.write v).take n) with
  | none =>
    have := (h.read_eq_none _).1 hread
    simp at this
    omega
  | some p =>
    have hw := h.write_read _ _ _ hread
    have hall := h.read_write p.1 (p.2 ++ (A.write v).drop n)
    rw [← List.append_assoc, hw, List.take_append_drop, hsome] at hall
    have hp : p.2 ++ (A.write v).drop n = [] := by
      simpa using (congrArg Prod.snd (Option.some.inj hall)).symm
    have hd := (List.append_eq_nil_iff.1 hp).2
    have := List.drop_eq_nil_iff.1 hd
    omega

theorem split?_eq_some {n : Nat} {b p r : Bytes} :
    split? n b = some (p, r) ↔ p.length = n ∧ p ++ r = b := by
  unfold split?
  constructor
  · intro h
    split at h
    · rename_i hn
      obtain ⟨rfl, rfl⟩ := Prod.mk.inj (Option.some.inj h)
      exact ⟨by simp [hn], List.take_append_drop n b⟩
    · cases h
  · rintro ⟨rfl, rfl⟩
    simp

theorem split?_eq_none {n : Nat} {b : Bytes} : split? n b = none ↔ b.length < n := by
  unfold split?
  split <;> simp_all

theorem byte_fixed : byte.Fixed 1 where
  read_write _ _ := rfl
  write_read b v rest h := by
    cases b with
    | nil => cases h
    | cons c cs =>
      obtain ⟨rfl, rfl⟩ := Prod.mk.inj (Option.some.inj h)
      rfl
  read_eq_none b := by cases b <;> simp [byte]

theorem wordU16_fixed : wordU16.Fixed 2 where
  read_write v rest := by
    have h : split? 2 (LittleEndian.wordU16 v ++ rest) = some (LittleEndian.wordU16 v, rest) :=
      split?_eq_some.2 ⟨by simp, rfl⟩
    simp [wordU16, h]
  write_read b v rest h := by
    obtain ⟨p, hp, he⟩ := Option.map_eq_some_iff.1 h
    obtain ⟨rfl, rfl⟩ := Prod.mk.inj he
    obtain ⟨hl, hb⟩ := split?_eq_some.1 hp
    simpa [wordU16, LittleEndian.wordU16_readU16 hl] using hb
  read_eq_none b := by simp [wordU16, split?_eq_none]

theorem wordU32_fixed : wordU32.Fixed 4 where
  read_write v rest := by
    have h : split? 4 (LittleEndian.wordU32 v ++ rest) = some (LittleEndian.wordU32 v, rest) :=
      split?_eq_some.2 ⟨by simp, rfl⟩
    simp [wordU32, h]
  write_read b v rest h := by
    obtain ⟨p, hp, he⟩ := Option.map_eq_some_iff.1 h
    obtain ⟨rfl, rfl⟩ := Prod.mk.inj he
    obtain ⟨hl, hb⟩ := split?_eq_some.1 hp
    simpa [wordU32, LittleEndian.wordU32_readU32 hl] using hb
  read_eq_none b := by simp [wordU32, split?_eq_none]

theorem block_fixed (n : Nat) : (block n).Fixed n where
  read_write v rest := by
    obtain ⟨bytes, rfl⟩ := v
    simp [block]
  write_read b v rest h := by
    simp only [block] at h ⊢
    split at h
    · obtain ⟨rfl, rfl⟩ := Prod.mk.inj (Option.some.inj h)
      exact List.take_append_drop n b
    · cases h
  read_eq_none b := by
    simp only [block]
    split <;> simp_all

theorem Fixed.pair {A : Layout α} {B : Layout β} {m n : Nat} (hA : A.Fixed m) (hB : B.Fixed n) :
    (A.pair B).Fixed (m + n) where
  read_write v rest := by
    simp [Layout.pair, List.append_assoc, hA.read_write, hB.read_write]
  write_read b v rest h := by
    obtain ⟨p, hp, h⟩ := Option.bind_eq_some_iff.1 h
    obtain ⟨q, hq, he⟩ := Option.map_eq_some_iff.1 h
    obtain ⟨rfl, rfl⟩ := Prod.mk.inj he
    simp only [Layout.pair, List.append_assoc]
    rw [hB.write_read _ _ _ hq, hA.write_read _ _ _ hp]
  read_eq_none b := by
    simp only [Layout.pair]
    cases hr : A.read b with
    | none =>
      have := (hA.read_eq_none b).1 hr
      simp
      omega
    | some p =>
      have hw := congrArg List.length (hA.write_read _ _ _ hr)
      rw [List.length_append, hA.length_write] at hw
      simp [hB.read_eq_none]
      omega

theorem Fixed.convert {A : Layout α} {make : α → β} {parts : β → α} {n : Nat} (hA : A.Fixed n)
    (make_parts : ∀ v, make (parts v) = v) (parts_make : ∀ u, parts (make u) = u) :
    (A.convert make parts).Fixed n where
  read_write v rest := by simp [Layout.convert, hA.read_write, make_parts]
  write_read b v rest h := by
    obtain ⟨p, hp, he⟩ := Option.map_eq_some_iff.1 h
    obtain ⟨rfl, rfl⟩ := Prod.mk.inj he
    simp only [Layout.convert, parts_make]
    exact hA.write_read _ _ _ hp
  read_eq_none b := by simp [Layout.convert, hA.read_eq_none]

end Layout

end PlatformMessaging
