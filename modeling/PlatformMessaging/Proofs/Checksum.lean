import PlatformMessaging.Checksum.Crc8
import PlatformMessaging.Checksum.Crc32
import PlatformMessaging.Proofs.Message
import Mathlib.Logic.Function.Basic

/-!
# Checksums tell one changed byte

Two byte strings that differ in exactly one byte (`DifferOnce`) never have the same checksum, whichever
byte it is, whatever is changed in it and however much follows it (`Crc8.checksum_ne`,
`Crc32.checksum_ne`).

A step of a checksum is injective in the byte, so that the remainders differ after the changed byte, and
injective in the remainder, so that they stay different as the same bytes are taken into both
(`DifferOnce.foldl_ne`). The second holds because a shift by one bit can be undone: the polynomial has a
constant term, so that the bit which a shift moves in tells the bit which it moved out.
-/

namespace PlatformMessaging

open Function

/-- The byte strings have the same length, and differ in exactly one byte. -/
inductive DifferOnce : Bytes → Bytes → Prop where
  | here {x y : UInt8} (h : x ≠ y) (rest : Bytes) : DifferOnce (x :: rest) (y :: rest)
  | there (x : UInt8) {a b : Bytes} (h : DifferOnce a b) : DifferOnce (x :: a) (x :: b)

namespace DifferOnce

theorem ne {a b : Bytes} (h : DifferOnce a b) : a ≠ b := by
  induction h with
  | here h rest => exact fun heq => h (List.cons.inj heq).1
  | there x _ ih => exact fun heq => ih (List.cons.inj heq).2

theorem length_eq {a b : Bytes} (h : DifferOnce a b) : a.length = b.length := by
  induction h with
  | here => rfl
  | there x _ ih => exact congrArg (· + 1) ih

theorem cons_iff {x y : UInt8} {a b : Bytes} :
    DifferOnce (x :: a) (y :: b) ↔ x = y ∧ DifferOnce a b ∨ x ≠ y ∧ a = b := by
  constructor
  · intro h
    cases h with
    | here h => exact .inr ⟨h, rfl⟩
    | there _ h => exact .inl ⟨rfl, h⟩
  · rintro (⟨rfl, h⟩ | ⟨h, rfl⟩)
    · exact .there x h
    · exact .here h a

instance decidable : ∀ a b : Bytes, Decidable (DifferOnce a b)
  | [], _ => isFalse fun h => nomatch h
  | _ :: _, [] => isFalse fun h => nomatch h
  | _ :: a, _ :: b =>
    have := decidable a b
    decidable_of_iff _ cons_iff.symm

theorem of_append {a b s t : Bytes} (hlength : a.length = b.length)
    (h : DifferOnce (a ++ s) (b ++ t)) : DifferOnce a b ∧ s = t ∨ a = b ∧ DifferOnce s t := by
  induction a generalizing b with
  | nil =>
    obtain rfl := List.eq_nil_of_length_eq_zero hlength.symm
    exact .inr ⟨rfl, h⟩
  | cons x a ih =>
    obtain ⟨y, b, rfl⟩ := List.exists_cons_of_length_eq_add_one hlength.symm
    have hrest : a.length = b.length := Nat.succ.inj hlength
    rw [List.cons_append, List.cons_append, cons_iff] at h
    rcases h with ⟨rfl, h⟩ | ⟨hne, heq⟩
    · rcases ih hrest h with ⟨hbefore, rfl⟩ | ⟨rfl, hafter⟩
      · exact .inl ⟨.there x hbefore, rfl⟩
      · exact .inr ⟨rfl, hafter⟩
    · obtain ⟨rfl, rfl⟩ := List.append_inj heq hrest
      exact .inl ⟨.here hne a, rfl⟩

section Fold

variable {γ : Type} {step : γ → UInt8 → γ}

theorem foldl_injective (hstep : ∀ x, Injective fun c => step c x) (bytes : Bytes) :
    Injective fun c => bytes.foldl step c := by
  induction bytes with
  | nil => exact injective_id
  | cons x rest ih => exact ih.comp (hstep x)

/-- Steps that are injective both ways keep a difference to the end. -/
theorem foldl_ne (hstep : ∀ x, Injective fun c => step c x) (hbyte : ∀ c, Injective (step c))
    {a b : Bytes} (h : DifferOnce a b) (c : γ) : a.foldl step c ≠ b.foldl step c := by
  induction h generalizing c with
  | here h rest => exact fun heq => h (hbyte c (foldl_injective hstep rest heq))
  | there x _ ih => exact ih (step c x)

end Fold

end DifferOnce

theorem repeat_injective {γ : Type} {f : γ → γ} (hf : Injective f) (n : Nat) :
    Injective (Nat.repeat f n) := by
  induction n with
  | zero => exact injective_id
  | succ n ih => exact hf.comp ih

/-! ## Eight bits -/

namespace Crc8

/-- Divides a remainder by `x`. -/
def unshift (c : UInt8) : UInt8 :=
  if c &&& 1 = 0 then c >>> 1 else ((c ^^^ 0x07) >>> 1) ||| 0x80

theorem unshift_shift : LeftInverse unshift shift := by
  have hall : ∀ i : Fin 256, unshift (shift (UInt8.ofNat i)) = UInt8.ofNat i := by
    decide +kernel
  intro c
  obtain ⟨i, rfl⟩ := exists_fin_of_lt c.toNat_lt
  exact hall i

theorem shifts_injective : Injective (Nat.repeat shift 8) :=
  repeat_injective unshift_shift.injective 8

/-- Byte strings that differ in one byte have different checksums. -/
theorem checksum_ne {a b : Bytes} (h : DifferOnce a b) : checksum a ≠ checksum b := by
  refine h.foldl_ne (fun x c d hcd => ?_) (fun c x y hxy => ?_) 0
  · exact (UInt8.xor_left_inj _).1 (shifts_injective hcd)
  · exact (UInt8.xor_right_inj _).1 (shifts_injective hxy)

end Crc8

/-! ## Thirty-two bits -/

namespace Crc32

theorem and_one_eq_zero_iff (c : UInt32) : c &&& 1 = 0 ↔ c.toBitVec.getLsbD 0 = false := by
  have hbit : c.toBitVec.getLsbD 0 = decide (c.toNat % 2 = 1) := Nat.testBit_zero _
  have hand : (c &&& 1).toNat = c.toNat % 2 := Nat.and_one_is_mod _
  rw [hbit, decide_eq_false_iff_not, ← UInt32.toNat_inj, hand]
  exact Nat.mod_two_ne_one.symm

theorem getLsbD_shift (c : UInt32) (i : Nat) :
    (shift c).toBitVec.getLsbD i =
      (c.toBitVec.getLsbD (1 + i) ^^ (c.toBitVec.getLsbD 0 && (0xedb88320#32).getLsbD i)) := by
  unfold shift
  cases hlow : c.toBitVec.getLsbD 0 with
  | false =>
    rw [if_pos ((and_one_eq_zero_iff c).2 hlow), Bool.false_and, Bool.xor_false, UInt32.toBitVec_shiftRight]
    exact BitVec.getLsbD_ushiftRight ..
  | true =>
    have hset : ¬c &&& 1 = 0 := by
      rw [and_one_eq_zero_iff, hlow]
      decide
    rw [if_neg hset, Bool.true_and, UInt32.toBitVec_xor, UInt32.toBitVec_shiftRight,
      BitVec.getLsbD_xor]
    exact congrArg (· ^^ _) (BitVec.getLsbD_ushiftRight ..)

theorem shift_injective : Injective shift := by
  intro c d h
  have hbit (i : Nat) := congrArg (fun x : UInt32 => x.toBitVec.getLsbD i) h
  simp only [getLsbD_shift] at hbit
  -- The highest bit of the constant is set, so the highest bit tells which bit went out.
  have hlow : c.toBitVec.getLsbD 0 = d.toBitVec.getLsbD 0 := by
    have htop := hbit 31
    have hset : (0xedb88320#32).getLsbD 31 = true := by decide
    rwa [BitVec.getLsbD_of_ge _ _ (Nat.le_refl 32), BitVec.getLsbD_of_ge _ _ (Nat.le_refl 32), hset,
      Bool.false_xor, Bool.false_xor, Bool.and_true, Bool.and_true] at htop
  refine UInt32.toBitVec_inj.1 (BitVec.eq_of_getLsbD_eq fun i _ => ?_)
  cases i with
  | zero => exact hlow
  | succ i =>
    have hnext := hbit i
    rwa [hlow, Bool.xor_left_inj, Nat.add_comm] at hnext

theorem shifts_injective : Injective (Nat.repeat shift 8) :=
  repeat_injective shift_injective 8

/-- Byte strings that differ in one byte have different checksums. -/
theorem checksum_ne {a b : Bytes} (h : DifferOnce a b) : checksum a ≠ checksum b := by
  have hupdate : update 0xffffffff a ≠ update 0xffffffff b := by
    refine h.foldl_ne (fun x c d hcd => ?_) (fun c x y hxy => ?_) 0xffffffff
    · exact (UInt32.xor_left_inj _).1 (shifts_injective hcd)
    · exact UInt8.toUInt32_inj.1 ((UInt32.xor_right_inj _).1 (shifts_injective hxy))
  exact fun heq => hupdate ((UInt32.xor_left_inj _).1 heq)

end Crc32

end PlatformMessaging
