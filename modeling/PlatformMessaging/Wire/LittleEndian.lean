/-!
# Little-endian numbers

A number is written as a fixed count of bytes, least significant first.

* `LittleEndian.write w n` and `LittleEndian.value b` are inverse to each other: `value_write` up to
  the width (`n % room w`), `write_value` exactly.
* `wordU16`, `wordU32` and their readers are the same maps on machine words, with
  `readU16_wordU16`, `wordU16_readU16` and their 32-bit twins.
-/

namespace PlatformMessaging

/-- A byte string. -/
abbrev Bytes := List UInt8

namespace LittleEndian

/-- The `w` low bytes of a number, least significant first. -/
def write : Nat → Nat → Bytes
  | 0, _ => []
  | w + 1, n => UInt8.ofNat n :: write w (n / 256)

/-- The number that a byte string stands for. -/
def value : Bytes → Nat
  | [] => 0
  | b :: bs => b.toNat + 256 * value bs

/-- How many numbers can be written in `w` bytes. -/
def room : Nat → Nat
  | 0 => 1
  | w + 1 => 256 * room w

@[simp] theorem length_write (w n : Nat) : (write w n).length = w := by
  induction w generalizing n with
  | zero => rfl
  | succ w ih => simp [write, ih]

theorem value_lt (b : Bytes) : value b < room b.length := by
  induction b with
  | nil => simp [value, room]
  | cons b bs ih =>
    have hb : b.toNat < 256 := b.toNat_lt
    simp only [value, List.length_cons, room]
    omega

theorem value_write (w n : Nat) : value (write w n) = n % room w := by
  induction w generalizing n with
  | zero => simp [write, value, room, Nat.mod_one]
  | succ w ih =>
    simp only [write, value, ih, UInt8.toNat_ofNat', room, Nat.mod_mul]

theorem write_value (b : Bytes) : write b.length (value b) = b := by
  induction b with
  | nil => rfl
  | cons b bs ih =>
    have hb : b.toNat < 256 := b.toNat_lt
    have hq : (b.toNat + 256 * value bs) / 256 = value bs := by omega
    have hr : UInt8.ofNat (b.toNat + 256 * value bs) = b := by
      apply UInt8.toNat_inj.mp
      rw [UInt8.toNat_ofNat']
      omega
    simp only [List.length_cons, write, value, hq, hr, ih]

/-! ## Words -/

/-- The two bytes of a 16-bit word. -/
def wordU16 (x : UInt16) : Bytes := write 2 x.toNat

/-- The four bytes of a 32-bit word. -/
def wordU32 (x : UInt32) : Bytes := write 4 x.toNat

/-- The 16-bit word that a byte string stands for. -/
def readU16 (b : Bytes) : UInt16 := UInt16.ofNat (value b)

/-- The 32-bit word that a byte string stands for. -/
def readU32 (b : Bytes) : UInt32 := UInt32.ofNat (value b)

@[simp] theorem length_wordU16 (x : UInt16) : (wordU16 x).length = 2 := length_write 2 _

@[simp] theorem length_wordU32 (x : UInt32) : (wordU32 x).length = 4 := length_write 4 _

@[simp] theorem readU16_wordU16 (x : UInt16) : readU16 (wordU16 x) = x := by
  have hx : x.toNat < room 2 := x.toNat_lt
  rw [readU16, wordU16, value_write, Nat.mod_eq_of_lt hx, UInt16.ofNat_toNat]

@[simp] theorem readU32_wordU32 (x : UInt32) : readU32 (wordU32 x) = x := by
  have hx : x.toNat < room 4 := x.toNat_lt
  rw [readU32, wordU32, value_write, Nat.mod_eq_of_lt hx, UInt32.ofNat_toNat]

theorem wordU16_readU16 {b : Bytes} (h : b.length = 2) : wordU16 (readU16 b) = b := by
  have hlt : value b < UInt16.size := by
    have := value_lt b
    rwa [h] at this
  rw [wordU16, readU16, UInt16.toNat_ofNat_of_lt' hlt, ← h, write_value]

theorem wordU32_readU32 {b : Bytes} (h : b.length = 4) : wordU32 (readU32 b) = b := by
  have hlt : value b < UInt32.size := by
    have := value_lt b
    rwa [h] at this
  rw [wordU32, readU32, UInt32.toNat_ofNat_of_lt' hlt, ← h, write_value]

end LittleEndian

end PlatformMessaging
