import PlatformMessaging.Message.Basic
import Mathlib.Tactic.Common

/-!
# Messages are read as they were written

A header whose fields fit is read back from its three bytes (`Header.decode_encode`). Hence an
endpoint reads from a request what was asked under which instance ID, and a requester reads from a
response what was answered.
-/

namespace PlatformMessaging

theorem exists_fin_of_lt {x : UInt8} {n : Nat} (h : x.toNat < n) :
    ∃ i : Fin n, x = UInt8.ofNat i :=
  ⟨⟨x.toNat, h⟩, by simp⟩

theorem Message.le_maxInstanceId : ∀ i : Fin 32, UInt8.ofNat i ≤ Message.maxInstanceId := by
  decide

theorem Message.exists_instanceId {iid : InstanceId} (h : iid ≤ Message.maxInstanceId) :
    ∃ i : Fin 32, iid = UInt8.ofNat i :=
  exists_fin_of_lt (Nat.lt_succ_of_le (UInt8.le_iff_toNat_le.1 h))

namespace Header

theorem first_byte : ∀ (i : Fin 32) (request datagram : Bool),
    let b : UInt8 := (UInt8.ofNat i &&& 0x1f) ||| (if request then 0x80 else 0) |||
      (if datagram then 0x40 else 0)
    b &&& 0x1f = UInt8.ofNat i ∧ decide (b &&& 0x80 ≠ 0) = request ∧
      decide (b &&& 0x40 ≠ 0) = datagram := by
  decide

theorem second_byte : ∀ i : Fin 64, UInt8.ofNat i &&& 0x3f &&& 0xc0 = 0 ∧
    UInt8.ofNat i &&& 0x3f &&& 0x3f = UInt8.ofNat i := by
  decide

theorem decode_encode {h : Header} (hiid : h.iid ≤ Message.maxInstanceId)
    (htyp : h.typ ≤ Message.maxType) (rest : Bytes) :
    Header.decode (h.encode ++ rest) = .ok (h, rest) := by
  obtain ⟨request, datagram, iid, typ, cmd⟩ := h
  obtain ⟨i, rfl⟩ := Message.exists_instanceId hiid
  obtain ⟨j, rfl⟩ : ∃ j : Fin 64, typ = UInt8.ofNat j :=
    exists_fin_of_lt (Nat.lt_succ_of_le (UInt8.le_iff_toNat_le.1 htyp))
  obtain ⟨hi, hrequest, hdatagram⟩ := first_byte i request datagram
  obtain ⟨hversion, hj⟩ := second_byte j
  unfold Header.decode Header.encode
  dsimp only [List.cons_append, List.nil_append]
  rw [if_neg (by rw [hversion]; decide), hi, hj, hrequest, hdatagram]

theorem decode_bounds {msg rest : Bytes} {h : Header} (hdecode : Header.decode msg = .ok (h, rest)) :
    h.iid ≤ Message.maxInstanceId ∧ h.typ ≤ Message.maxType := by
  have hand : ∀ x mask : UInt8, x &&& mask ≤ mask := by
    intro x mask
    rw [UInt8.le_iff_toNat_le, UInt8.toNat_and]
    exact Nat.and_le_right
  unfold Header.decode at hdecode
  split at hdecode
  · split_ifs at hdecode
    obtain ⟨rfl, -⟩ := Prod.mk.inj (Except.ok.inj hdecode)
    exact ⟨hand _ _, hand _ _⟩
  · cases hdecode

end Header

namespace Request

theorem encode_eq_ok {r : Request} {iid : InstanceId} {msg : Bytes} :
    r.encode iid = .ok msg ↔ iid ≤ Message.maxInstanceId ∧ r.typ ≤ Message.maxType ∧
      msg = Header.encode ⟨true, false, iid, r.typ, r.cmd⟩ ++ r.data := by
  unfold encode
  split_ifs with h
  · constructor
    · intro hok
      cases hok
    · rintro ⟨hiid, htyp, -⟩
      rcases h with h | h
      · exact absurd h (UInt8.not_lt.2 hiid)
      · exact absurd h (UInt8.not_lt.2 htyp)
  · rw [not_or, UInt8.not_lt, UInt8.not_lt] at h
    constructor
    · intro hok
      exact ⟨h.1, h.2, (Except.ok.inj hok).symm⟩
    · rintro ⟨-, -, rfl⟩
      rfl

theorem encode_eq_error {r : Request} {iid : InstanceId} {e : MessageError}
    (h : r.encode iid = .error e) :
    e = .invalidArgument ∧ (Message.maxInstanceId < iid ∨ Message.maxType < r.typ) := by
  unfold encode at h
  split_ifs at h with hbad
  exact ⟨(Except.error.inj h).symm, hbad⟩

theorem encode_of_bounds {r : Request} {iid : InstanceId}
    (h : Message.maxInstanceId < iid ∨ Message.maxType < r.typ) :
    r.encode iid = .error .invalidArgument :=
  if_pos h

/-- An endpoint reads from a request what was asked. -/
theorem decode_encode {r : Request} {iid : InstanceId} {msg : Bytes} (h : r.encode iid = .ok msg) :
    Header.decode msg = .ok (⟨true, false, iid, r.typ, r.cmd⟩, r.data) := by
  obtain ⟨hiid, htyp, rfl⟩ := encode_eq_ok.1 h
  exact Header.decode_encode hiid htyp r.data

end Request

/-- A requester reads from a response what was answered. -/
theorem Response.decode_encode {r : Response} (hiid : r.iid ≤ Message.maxInstanceId)
    (htyp : r.typ ≤ Message.maxType) :
    Header.decode r.encode = .ok (⟨false, false, r.iid, r.typ, r.cmd⟩, r.code :: r.data) :=
  Header.decode_encode hiid htyp (r.code :: r.data)

end PlatformMessaging
