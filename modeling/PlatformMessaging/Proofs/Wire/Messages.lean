import PlatformMessaging.Proofs.Message
import Mathlib.Algebra.Group.Nat.Defs

/-!
# Requests and responses never mix

`Message.requests_apart_from_responses`: a request whose fields fit is read as what was asked and never
as a response, a response is read back up to the width of its fields, and bytes are read as a header or
as a response exactly if their bits allow it. Writing a response that was read gives its bytes again,
without the datagram bit and the reserved bit of the first.

The fields share bytes, so the conditions speak of bits (`Message.bit`). A request out of range is
refused, while a response is cut to its fields (`Response.cut`); the cut is written alike and fits, so it
is read back.
-/

namespace PlatformMessaging

/-! ## Bits -/

/-- A bit of the byte at an index. The bits outside of a message are clear. -/
def Message.bit (msg : Bytes) (index i : Nat) : Bool :=
  (msg[index]?.getD 0).toNat.testBit i

namespace Header

open Message

theorem testBit_of_le (b : UInt8) {i : Nat} (hi : 8 ≤ i) : b.toNat.testBit i = false :=
  Nat.testBit_lt_two_pow (Nat.lt_of_lt_of_le b.toNat_lt (Nat.pow_le_pow_right (by decide) hi))

theorem version_eq_zero_of_fin : ∀ b : Fin 256, UInt8.ofNat b &&& 0xc0 = 0 ↔
    (UInt8.ofNat b).toNat.testBit 6 = false ∧ (UInt8.ofNat b).toNat.testBit 7 = false := by
  decide +kernel

theorem request_eq_zero_of_fin : ∀ b : Fin 256, UInt8.ofNat b &&& 0x80 = 0 ↔
    (UInt8.ofNat b).toNat.testBit 7 = false := by
  decide +kernel

theorem exists_fin (b : UInt8) : ∃ i : Fin 256, b = UInt8.ofNat i :=
  exists_fin_of_lt b.toNat_lt

theorem version_eq_zero (b : UInt8) :
    b &&& 0xc0 = 0 ↔ b.toNat.testBit 6 = false ∧ b.toNat.testBit 7 = false := by
  obtain ⟨i, rfl⟩ := exists_fin b
  exact version_eq_zero_of_fin i

theorem request_eq_zero (b : UInt8) : b &&& 0x80 = 0 ↔ b.toNat.testBit 7 = false := by
  obtain ⟨i, rfl⟩ := exists_fin b
  exact request_eq_zero_of_fin i

theorem testBit_low (b mask : UInt8) {n : Nat} (hmask : mask.toNat = 2 ^ n - 1) (i : Nat) :
    (b &&& mask).toNat.testBit i = (b.toNat.testBit i && decide (i < n)) := by
  rw [UInt8.toNat_and, Nat.testBit_and, hmask, Nat.testBit_two_pow_sub_one]

theorem and_type_of_version {b : UInt8} (h : b &&& 0xc0 = 0) : b &&& 0x3f = b := by
  obtain ⟨h6, h7⟩ := (version_eq_zero b).1 h
  refine UInt8.toNat_inj.1 (Nat.eq_of_testBit_eq fun i => ?_)
  rw [testBit_low b 0x3f (n := 6) rfl]
  by_cases hi : i < 6
  · simp [hi]
  · have hclear : b.toNat.testBit i = false := by
      rcases (by omega : i = 6 ∨ i = 7 ∨ 8 ≤ i) with rfl | rfl | hi
      · exact h6
      · exact h7
      · exact testBit_of_le b hi
    rw [hclear, Bool.false_and]

theorem testBit_instanceId {b : UInt8} (h : b &&& 0x80 = 0) (i : Nat) :
    (b &&& 0x1f).toNat.testBit i = (b.toNat.testBit i && !decide (i = 5 ∨ i = 6)) := by
  rw [testBit_low b 0x1f (n := 5) rfl]
  rcases (by omega : i < 5 ∨ (i = 5 ∨ i = 6) ∨ i = 7 ∨ 8 ≤ i) with hi | hi | rfl | hi
  · have hkept : ¬(i = 5 ∨ i = 6) := by omega
    rw [decide_eq_true hi, decide_eq_false hkept, Bool.not_false]
  · have hcut : ¬i < 5 := by omega
    rw [decide_eq_true hi, decide_eq_false hcut, Bool.not_true]
  · rw [(request_eq_zero b).1 h, Bool.false_and, Bool.false_and]
  · rw [testBit_of_le b hi, Bool.false_and, Bool.false_and]

/-! ## Which bytes are read -/

theorem decode_of_version {b0 b1 b2 : UInt8} {rest : Bytes} (h : b1 &&& 0xc0 = 0) :
    Header.decode (b0 :: b1 :: b2 :: rest) =
      .ok (⟨b0 &&& 0x80 ≠ 0, b0 &&& 0x40 ≠ 0, b0 &&& 0x1f, b1 &&& 0x3f, b2⟩, rest) := by
  unfold Header.decode
  dsimp only
  rw [if_neg (not_not.2 h)]

theorem decode_eq_ok {msg rest : Bytes} {h : Header} :
    Header.decode msg = .ok (h, rest) ↔ ∃ b0 b1 b2, msg = b0 :: b1 :: b2 :: rest ∧
      b1 &&& 0xc0 = 0 ∧ h = ⟨b0 &&& 0x80 ≠ 0, b0 &&& 0x40 ≠ 0, b0 &&& 0x1f, b1 &&& 0x3f, b2⟩ := by
  constructor
  · intro hdecode
    unfold Header.decode at hdecode
    split at hdecode
    · rename_i b0 b1 b2 tail
      split_ifs at hdecode with hversion
      obtain ⟨rfl, rfl⟩ := Prod.mk.inj (Except.ok.inj hdecode)
      exact ⟨b0, b1, b2, rfl, not_not.1 hversion, rfl⟩
    · cases hdecode
  · rintro ⟨b0, b1, b2, rfl, hversion, rfl⟩
    exact decode_of_version hversion

theorem exists_decode_iff {msg : Bytes} : (∃ p, Header.decode msg = .ok p) ↔
    3 ≤ msg.length ∧ bit msg 1 6 = false ∧ bit msg 1 7 = false := by
  constructor
  · rintro ⟨⟨h, rest⟩, hdecode⟩
    obtain ⟨b0, b1, b2, rfl, hversion, -⟩ := decode_eq_ok.1 hdecode
    exact ⟨by simp, (version_eq_zero b1).1 hversion⟩
  · rintro ⟨hlength, hbits⟩
    match msg, hlength with
    | b0 :: b1 :: b2 :: rest, _ =>
      exact ⟨_, decode_of_version ((version_eq_zero b1).2 hbits)⟩

end Header

namespace Response

open Message

theorem decode_eq_ok {msg : Bytes} {r : Response} :
    Response.decode msg = .ok r ↔ ∃ b0 b1 b2 code data, msg = b0 :: b1 :: b2 :: code :: data ∧
      b1 &&& 0xc0 = 0 ∧ b0 &&& 0x80 = 0 ∧ r = ⟨b0 &&& 0x1f, b1 &&& 0x3f, b2, code, data⟩ := by
  constructor
  · intro hdecode
    unfold Response.decode at hdecode
    split at hdecode
    · cases hdecode
    · rename_i h rest hheader
      obtain ⟨b0, b1, b2, rfl, hversion, rfl⟩ := Header.decode_eq_ok.1 hheader
      split_ifs at hdecode with hrequest
      cases rest with
      | nil => cases hdecode
      | cons code data =>
        obtain rfl := Except.ok.inj hdecode
        exact ⟨b0, b1, b2, code, data, rfl, hversion, by simpa using hrequest, rfl⟩
  · rintro ⟨b0, b1, b2, code, data, rfl, hversion, hrequest, rfl⟩
    unfold Response.decode
    rw [Header.decode_of_version hversion]
    simp [hrequest, ofParts]

theorem exists_decode_iff {msg : Bytes} : (∃ r, Response.decode msg = .ok r) ↔
    (∃ p, Header.decode msg = .ok p) ∧ bit msg 0 7 = false ∧ 4 ≤ msg.length := by
  constructor
  · rintro ⟨r, hdecode⟩
    obtain ⟨b0, b1, b2, code, data, rfl, hversion, hrequest, -⟩ := decode_eq_ok.1 hdecode
    exact ⟨⟨_, Header.decode_of_version hversion⟩, (Header.request_eq_zero b0).1 hrequest, by simp⟩
  · rintro ⟨⟨⟨h, rest⟩, hheader⟩, hrequest, hlength⟩
    obtain ⟨b0, b1, b2, rfl, hversion, -⟩ := Header.decode_eq_ok.1 hheader
    match rest, hlength with
    | code :: data, _ =>
      exact ⟨_, decode_eq_ok.2
        ⟨b0, b1, b2, code, data, rfl, hversion, (Header.request_eq_zero b0).2 hrequest, rfl⟩⟩

/-! ## Writing what was read -/

/-- The response with its instance ID and its type cut to the width of their fields. -/
def cut (r : Response) : Response :=
  { r with iid := r.iid % 32, typ := r.typ % 64 }

theorem and_instanceId (b : UInt8) : b &&& 0x1f = b % 32 := by
  refine UInt8.toNat_inj.1 ?_
  rw [UInt8.toNat_and, UInt8.toNat_mod]
  exact Nat.and_two_pow_sub_one_eq_mod _ 5

theorem and_type (b : UInt8) : b &&& 0x3f = b % 64 := by
  refine UInt8.toNat_inj.1 ?_
  rw [UInt8.toNat_and, UInt8.toNat_mod]
  exact Nat.and_two_pow_sub_one_eq_mod _ 6

theorem encode_cut (r : Response) : r.cut.encode = r.encode := by
  have hiid : r.cut.iid &&& 0x1f = r.iid &&& 0x1f := by
    rw [cut, ← and_instanceId, UInt8.and_assoc]
    rfl
  have htyp : r.cut.typ &&& 0x3f = r.typ &&& 0x3f := by
    rw [cut, ← and_type, UInt8.and_assoc]
    rfl
  unfold encode Header.encode
  dsimp only
  rw [hiid, htyp]
  rfl

theorem cut_fits (r : Response) : r.cut.iid ≤ Message.maxInstanceId ∧ r.cut.typ ≤ Message.maxType := by
  rw [UInt8.le_iff_toNat_le, UInt8.le_iff_toNat_le]
  exact ⟨Nat.le_of_lt_succ (Nat.mod_lt _ (by decide)), Nat.le_of_lt_succ (Nat.mod_lt _ (by decide))⟩

theorem cut_eq_self {r : Response} (hiid : r.iid ≤ Message.maxInstanceId)
    (htyp : r.typ ≤ Message.maxType) : r.cut = r := by
  rw [UInt8.le_iff_toNat_le] at hiid htyp
  have hiid' : r.iid % 32 = r.iid := UInt8.toNat_inj.1 (Nat.mod_eq_of_lt (Nat.lt_succ_of_le hiid))
  have htyp' : r.typ % 64 = r.typ := UInt8.toNat_inj.1 (Nat.mod_eq_of_lt (Nat.lt_succ_of_le htyp))
  rw [cut, hiid', htyp']

/-- A response is read back as its cut. -/
theorem decode_encode_eq_cut (r : Response) : Response.decode r.encode = .ok r.cut := by
  obtain ⟨hiid, htyp⟩ := r.cut_fits
  unfold Response.decode
  rw [← encode_cut, Response.decode_encode hiid htyp]
  rfl

theorem bit_encode_of_decode {msg : Bytes} {r : Response} (hdecode : Response.decode msg = .ok r) :
    r.encode.length = msg.length ∧
      ∀ index i, bit r.encode index i = (bit msg index i && !decide (index = 0 ∧ (i = 5 ∨ i = 6))) := by
  obtain ⟨b0, b1, b2, code, data, rfl, hversion, hrequest, rfl⟩ := decode_eq_ok.1 hdecode
  have hencode : Response.encode ⟨b0 &&& 0x1f, b1 &&& 0x3f, b2, code, data⟩ =
      (b0 &&& 0x1f) :: b1 :: b2 :: code :: data := by
    have h0 : b0 &&& 0x1f &&& 0x1f = b0 &&& 0x1f := by
      rw [UInt8.and_assoc]
      rfl
    have h1 : b1 &&& 0x3f &&& 0x3f = b1 := by
      rw [Header.and_type_of_version hversion, Header.and_type_of_version hversion]
    unfold Response.encode Header.encode
    simp [h0, h1]
  rw [hencode]
  refine ⟨by simp, fun index i => ?_⟩
  cases index with
  | zero =>
    have hbit := Header.testBit_instanceId hrequest i
    simpa [bit] using hbit
  | succ index => simp [bit]

end Response

/-! ## The result -/

/-- **Requests and responses never mix.** A request is written if its instance ID and its type fit, and is
refused as an invalid argument otherwise; what is written is read as the header and the data of that
request, and not as a response. A response is read back with its instance ID modulo 32 and its type
modulo 64, and its header has no request bit. Bytes are read as a header if there are three and the
version bits are clear, and as a response if moreover the request bit is clear and a completion code
follows; writing that response again gives the bytes, less bits 5 and 6 of the first. -/
theorem Message.requests_apart_from_responses :
    (∀ (r : Request) (iid : InstanceId),
      ((∃ msg, r.encode iid = .ok msg) ↔ iid ≤ 31 ∧ r.typ ≤ 63) ∧
      (¬(iid ≤ 31 ∧ r.typ ≤ 63) → r.encode iid = .error .invalidArgument) ∧
      ∀ msg, r.encode iid = .ok msg →
        Header.decode msg = .ok (⟨true, false, iid, r.typ, r.cmd⟩, r.data) ∧
        ∃ e, Response.decode msg = .error e) ∧
    (∀ r : Response,
      Response.decode r.encode = .ok { r with iid := r.iid % 32, typ := r.typ % 64 } ∧
      (r.iid ≤ 31 → r.typ ≤ 63 → Response.decode r.encode = .ok r) ∧
      ∃ h rest, Header.decode r.encode = .ok (h, rest) ∧ h.request = false) ∧
    ∀ msg : Bytes,
      ((∃ p, Header.decode msg = .ok p) ↔
        3 ≤ msg.length ∧ bit msg 1 6 = false ∧ bit msg 1 7 = false) ∧
      ((∃ r, Response.decode msg = .ok r) ↔
        (3 ≤ msg.length ∧ bit msg 1 6 = false ∧ bit msg 1 7 = false) ∧
          bit msg 0 7 = false ∧ 4 ≤ msg.length) ∧
      ∀ r, Response.decode msg = .ok r →
        r.encode.length = msg.length ∧ ∀ index i,
          bit r.encode index i = (bit msg index i && !decide (index = 0 ∧ (i = 5 ∨ i = 6))) := by
  refine ⟨fun r iid => ⟨?_, ?_, fun msg hencode => ?_⟩, fun r => ⟨r.decode_encode_eq_cut, ?_, ?_⟩,
    fun msg => ⟨Header.exists_decode_iff, ?_, fun r => Response.bit_encode_of_decode⟩⟩
  · constructor
    · rintro ⟨msg, hencode⟩
      obtain ⟨hiid, htyp, -⟩ := Request.encode_eq_ok.1 hencode
      exact ⟨hiid, htyp⟩
    · rintro ⟨hiid, htyp⟩
      exact ⟨_, Request.encode_eq_ok.2 ⟨hiid, htyp, rfl⟩⟩
  · intro hrange
    rcases hencode : r.encode iid with e | msg
    · rw [(Request.encode_eq_error hencode).1]
    · obtain ⟨hiid, htyp, -⟩ := Request.encode_eq_ok.1 hencode
      exact absurd ⟨hiid, htyp⟩ hrange
  · have hheader := Request.decode_encode hencode
    refine ⟨hheader, .protocol .notResponse, ?_⟩
    unfold Response.decode
    rw [hheader]
    rfl
  · intro hiid htyp
    rw [r.decode_encode_eq_cut, Response.cut_eq_self hiid htyp]
  · obtain ⟨hiid, htyp⟩ := r.cut_fits
    have hheader := Response.decode_encode hiid htyp
    rw [r.encode_cut] at hheader
    exact ⟨_, _, hheader, rfl⟩
  · rw [Response.exists_decode_iff, Header.exists_decode_iff]

/-- The datagram bit and the reserved bit of a response do not survive. -/
example : (Response.decode [0x63, 0x02, 0x51, 0, 7]).map Response.encode =
    .ok [0x03, 0x02, 0x51, 0, 7] := by decide

end PlatformMessaging
