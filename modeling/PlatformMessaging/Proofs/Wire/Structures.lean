import PlatformMessaging.Control.Structure
import PlatformMessaging.Repository.Structure
import PlatformMessaging.Message.Structure
import Mathlib.Algebra.Group.Nat.Defs
import Mathlib.Tactic.Common

/-!
# Structures are read as they were written

`structures_lossless`: of each structure of the discovery and repository messages, decoding reads back
what was written, whatever follows it, what was decoded is what stands in the bytes, and decoding
fails only for want of bytes. All structures but one have a fixed size. The exception is a part of a
record, whose data comes after a count of sixteen bits: data that the count cannot tell is cut.

The law is `Layout.Lossless`. It holds of the fixed layouts and of `counted`, and passes through
`pair` and `convert`, as `Layout.Fixed` does.
-/

namespace PlatformMessaging

namespace Layout

variable {α β : Type}

/-! ## The law of layouts with a varying size -/

/-- Reading undoes writing for the values that fit, what was read stands in the bytes, and reading
fails on the byte strings that are short. -/
structure Lossless (L : Layout α) (fits : α → Prop) (short : Bytes → Prop) : Prop where
  read_write : ∀ v, fits v → ∀ rest, L.read (L.write v ++ rest) = some (v, rest)
  write_read : ∀ b v rest, L.read b = some (v, rest) → L.write v ++ rest = b
  read_eq_none : ∀ b, L.read b = none ↔ short b

theorem Fixed.lossless {L : Layout α} {n : Nat} (h : L.Fixed n) :
    L.Lossless (fun _ => True) fun b => b.length < n :=
  ⟨fun v _ rest => h.read_write v rest, h.write_read, h.read_eq_none⟩

theorem Fixed.pair_lossless {A : Layout α} {B : Layout β} {n : Nat} {fits : β → Prop}
    {short : Bytes → Prop} (hA : A.Fixed n) (hB : B.Lossless fits short) :
    (A.pair B).Lossless (fun v => fits v.2) fun b => b.length < n ∨ short (b.drop n) where
  read_write v hv rest := by
    simp [Layout.pair, List.append_assoc, hA.read_write, hB.read_write v.2 hv]
  write_read b v rest h := by
    obtain ⟨p, hp, h⟩ := Option.bind_eq_some_iff.1 h
    obtain ⟨q, hq, he⟩ := Option.map_eq_some_iff.1 h
    obtain ⟨rfl, rfl⟩ := Prod.mk.inj he
    simp only [Layout.pair, List.append_assoc]
    rw [hB.write_read _ _ _ hq, hA.write_read _ _ _ hp]
  read_eq_none b := by
    simp only [Layout.pair]
    cases hread : A.read b with
    | none => simp [(hA.read_eq_none b).1 hread]
    | some p =>
      have hle : ¬b.length < n := by simp [← hA.read_eq_none, hread]
      have hrest : p.2 = b.drop n := by
        rw [← hA.write_read _ _ _ hread, ← hA.length_write p.1, List.drop_left]
      simp [hle, hB.read_eq_none, hrest]

theorem Lossless.convert {A : Layout α} {make : α → β} {parts : β → α} {fits : α → Prop}
    {short : Bytes → Prop} (hA : A.Lossless fits short) (make_parts : ∀ v, make (parts v) = v)
    (parts_make : ∀ u, parts (make u) = u) :
    (A.convert make parts).Lossless (fun v => fits (parts v)) short where
  read_write v hv rest := by simp [Layout.convert, hA.read_write _ hv, make_parts]
  write_read b v rest h := by
    obtain ⟨p, hp, he⟩ := Option.map_eq_some_iff.1 h
    obtain ⟨rfl, rfl⟩ := Prod.mk.inj he
    simp only [Layout.convert, parts_make]
    exact hA.write_read _ _ _ hp
  read_eq_none b := by simp [Layout.convert, hA.read_eq_none]

theorem Lossless.congr {L : Layout α} {fits fits' : α → Prop} {short short' : Bytes → Prop}
    (h : L.Lossless fits short) (hfits : ∀ v, fits' v → fits v) (hshort : ∀ b, short b ↔ short' b) :
    L.Lossless fits' short' :=
  ⟨fun v hv => h.read_write v (hfits v hv), h.write_read,
    fun b => (h.read_eq_none b).trans (hshort b)⟩

/-! ## Bytes after their count -/

def announced (b : Bytes) : Nat := (LittleEndian.readU16 (b.take 2)).toNat

/-- Only as many bytes are read back as the count tells, which is the length modulo `2 ^ 16`. The
others are taken for what follows. -/
theorem counted_read_write_take (v rest : Bytes) :
    counted.read (counted.write v ++ rest) =
      some (v.take (v.length % 2 ^ 16), v.drop (v.length % 2 ^ 16) ++ rest) := by
  have hcount : (UInt16.ofNat v.length).toNat = v.length % 2 ^ 16 := UInt16.toNat_ofNat'
  have hword := wordU16_fixed.read_write (UInt16.ofNat v.length) (v ++ rest)
  unfold counted
  dsimp only
  rw [List.append_assoc]
  rw [wordU16] at hword ⊢
  rw [hword, Option.bind_some, hcount]
  refine split?_eq_some.2 ⟨?_, ?_⟩
  · rw [List.length_take, Nat.min_eq_left (Nat.mod_le _ _)]
  · rw [← List.append_assoc, List.take_append_drop]

theorem counted_read_write {v : Bytes} (h : v.length < 2 ^ 16) (rest : Bytes) :
    counted.read (counted.write v ++ rest) = some (v, rest) := by
  have hmod : v.length % 2 ^ 16 = v.length := Nat.mod_eq_of_lt h
  rw [counted_read_write_take, hmod, List.take_length, List.drop_length, List.nil_append]

theorem counted_lossless :
    counted.Lossless (fun v => v.length < 2 ^ 16) fun b => b.length < 2 + announced b where
  read_write v hv rest := counted_read_write hv rest
  write_read b v rest h := by
    obtain ⟨⟨count, tail⟩, hword, hsplit⟩ := Option.bind_eq_some_iff.1 h
    obtain ⟨hlength, rfl⟩ := split?_eq_some.1 hsplit
    have hcount : UInt16.ofNat v.length = count := by rw [hlength, UInt16.ofNat_toNat]
    have hb := wordU16_fixed.write_read _ _ _ hword
    unfold counted
    dsimp only
    rw [hcount, List.append_assoc]
    exact hb
  read_eq_none b := by
    unfold counted announced
    dsimp only
    rcases hread : wordU16.read b with _ | ⟨count, tail⟩
    · have hshort := (wordU16_fixed.read_eq_none b).1 hread
      simp
      omega
    · obtain ⟨⟨front, tail⟩, hsplit, he⟩ := Option.map_eq_some_iff.1 hread
      obtain ⟨rfl, rfl⟩ := Prod.mk.inj he
      obtain ⟨hlength, rfl⟩ := split?_eq_some.1 hsplit
      rw [Option.bind_some, split?_eq_none, ← hlength, List.take_left, List.length_append]
      dsimp only
      omega

/-! ## Messages -/

/-- What decoding makes of a lossless layout: its data is decoded as it was encoded, with what follows
handed back, and what was decoded stands in the data; data is refused exactly if it is short, for being
cut short; and the exact form takes data that nothing follows. -/
structure Decodes (L : Layout α) (fits : α → Prop) (short : Bytes → Prop) : Prop where
  decode_write : ∀ v, fits v → ∀ rest, L.decode (L.write v ++ rest) = .ok (v, rest)
  write_decode : ∀ b v rest, L.decode b = .ok (v, rest) → L.write v ++ rest = b
  decode_eq_error : ∀ b e, L.decode b = .error e ↔ short b ∧ e = .protocol .truncated
  decodeExact_eq_ok : ∀ b v, L.decodeExact b = .ok v ↔ L.decode b = .ok (v, [])

theorem decodeExact_eq_ok {L : Layout α} {b : Bytes} {v : α} :
    L.decodeExact b = .ok v ↔ L.decode b = .ok (v, []) := by
  unfold decodeExact
  split <;> simp_all

theorem Lossless.decodes {L : Layout α} {fits : α → Prop} {short : Bytes → Prop}
    (h : L.Lossless fits short) : L.Decodes fits short where
  decode_write v hv rest := decode_eq_ok.2 (h.read_write v hv rest)
  write_decode b v rest hdecode := h.write_read b v rest (decode_eq_ok.1 hdecode)
  decode_eq_error b e := by rw [Layout.decode_eq_error, h.read_eq_none]
  decodeExact_eq_ok _ _ := Layout.decodeExact_eq_ok

end Layout

namespace Repository

open Layout

theorem RecordResponse.layout_lossless :
    RecordResponse.layout.Lossless (fun v => v.data.length < 2 ^ 16)
      fun b => b.length < 11 + announced (b.drop 9) := by
  have hpair := wordU32_fixed.pair_lossless
    (wordU32_fixed.pair_lossless (byte_fixed.pair_lossless counted_lossless))
  have hconvert : RecordResponse.layout.Lossless _ _ := hpair.convert (fun _ => rfl) (fun _ => rfl)
  refine hconvert.congr (fun _ hv => hv) fun b => ?_
  simp only [List.drop_drop, List.length_drop, Nat.reduceAdd]
  omega

theorem RecordResponse.decode_write_take (v : RecordResponse) (rest : Bytes) :
    RecordResponse.layout.decode (RecordResponse.layout.write v ++ rest) =
      .ok ({ v with data := v.data.take (v.data.length % 2 ^ 16) },
        v.data.drop (v.data.length % 2 ^ 16) ++ rest) := by
  have hdata := counted_read_write_take v.data rest
  refine decode_eq_ok.2 ?_
  simp [layout, Layout.convert, Layout.pair, wordU32_fixed.read_write, byte_fixed.read_write, hdata]

end Repository

open Control Repository Layout in
/-- Every structure is decoded as it was encoded, with what follows it, and encodes to the bytes that
it was decoded from. Decoding fails exactly on data that is shorter than the fixed fields, or than
these with the count of bytes that a part of a record tells, and reports that the message is short;
the exact form takes data that nothing follows. A part of a record whose data is too long for its
count is decoded with the data that the count tells. -/
theorem structures_lossless :
    TidResponse.layout.Decodes (fun _ => True) (fun b => b.length < 1) ∧
    TypesResponse.layout.Decodes (fun _ => True) (fun b => b.length < 8) ∧
    VersionRequest.layout.Decodes (fun _ => True) (fun b => b.length < 6) ∧
    VersionResponse.layout.Decodes (fun _ => True) (fun b => b.length < 5) ∧
    CommandsRequest.layout.Decodes (fun _ => True) (fun b => b.length < 5) ∧
    CommandsResponse.layout.Decodes (fun _ => True) (fun b => b.length < 32) ∧
    InfoResponse.layout.Decodes (fun _ => True) (fun b => b.length < 40) ∧
    RecordRequest.layout.Decodes (fun _ => True) (fun b => b.length < 13) ∧
    RecordHeader.layout.Decodes (fun _ => True) (fun b => b.length < 10) ∧
    RecordResponse.layout.Decodes (fun v => v.data.length < 2 ^ 16)
      (fun b => b.length < 11 + announced (b.drop 9)) ∧
    (∀ (v : RecordResponse) (rest : Bytes),
      RecordResponse.layout.decode (RecordResponse.layout.write v ++ rest) =
        .ok ({ v with data := v.data.take (v.data.length % 2 ^ 16) },
          v.data.drop (v.data.length % 2 ^ 16) ++ rest)) ∧
    (MessageError.protocol .truncated).message = "PLDM protocol error: Short message" :=
  ⟨TidResponse.layout_fixed.lossless.decodes, TypesResponse.layout_fixed.lossless.decodes,
    VersionRequest.layout_fixed.lossless.decodes, VersionResponse.layout_fixed.lossless.decodes,
    CommandsRequest.layout_fixed.lossless.decodes, CommandsResponse.layout_fixed.lossless.decodes,
    InfoResponse.layout_fixed.lossless.decodes, RecordRequest.layout_fixed.lossless.decodes,
    RecordHeader.layout_fixed.lossless.decodes, RecordResponse.layout_lossless.decodes,
    RecordResponse.decode_write_take, rfl⟩

/-- Fields stand in their order, low bytes first. -/
example : Repository.RecordRequest.layout.write ⟨0x01020304, 0, 1, 0x100, 0x55aa⟩ =
    [4, 3, 2, 1, 0, 0, 0, 0, 1, 0x00, 0x01, 0xaa, 0x55] := by
  decide

end PlatformMessaging
