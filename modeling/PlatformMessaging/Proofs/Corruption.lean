import PlatformMessaging.Proofs.Checksum
import PlatformMessaging.Proofs.Control.Versions
import PlatformMessaging.Proofs.Repository.Record

/-!
# A changed byte does not pass

Of two answers to the same question that differ in exactly one byte of the data, at most one is accepted
(`changed_byte_refused`): of two records in several parts under the same checksum byte, whichever byte is
changed, and of two version lists, of which the changed byte may also be one of the checksum.

That a retrieval returns something says which parts it took: as many as it asked for, which the answers
determine (`eq_of_forall_getElem?`). So the checksum is that of all their data, each byte taken once,
wherever the parts are cut.
-/

namespace PlatformMessaging

/-- Lists of the same length are equal if each of their members is determined by its position. -/
theorem eq_of_forall_getElem? {α : Type} {P : Nat → α → Prop} {n : Nat}
    (hunique : ∀ i a b, P i a → P i b → a = b) {as bs : List α} (hlength : as.length = bs.length)
    (has : ∀ (i : Nat) (a : α), as[i]? = some a → P (n + i) a)
    (hbs : ∀ (i : Nat) (b : α), bs[i]? = some b → P (n + i) b) : as = bs := by
  refine List.ext_getElem hlength fun i hi hi' => ?_
  exact hunique _ _ _ (has i _ (List.getElem?_eq_getElem hi)) (hbs i _ (List.getElem?_eq_getElem hi'))

/-! ## Records -/

namespace Repository

/-- The byte after the last part, which is where the checksum of a record in several parts stands. -/
def Arrival.check (parts : List Arrival) : Option UInt8 :=
  parts.getLast?.bind fun a => a.rest.head?

/-- A retrieval of a record that is answered with the parts, one for each of its requests, returns a
record. -/
def Passes (policy : Policy) (eid : EndpointId) (handle : UInt32) (parts : List Arrival) : Prop :=
  ∃ answers requests record, Arrival.Brought answers 0 parts ∧ requests.length = parts.length ∧
    (getRecord policy eid handle).play answers 0 = (requests, .ok record)

variable {policy : Policy} {eid : EndpointId} {handle : UInt32} {parts : List Arrival}

theorem Arrival.ReadFrom.unique {a b : Arrival} {answer : Except RequestError Response}
    (ha : a.ReadFrom answer) (hb : b.ReadFrom answer) : a = b := by
  obtain ⟨r, rfl, -, ha⟩ := ha
  obtain ⟨r', hr, -, hb⟩ := hb
  obtain rfl := Except.ok.inj hr
  obtain ⟨a, rest⟩ := a
  obtain ⟨b, rest'⟩ := b
  obtain ⟨rfl, rfl⟩ := Prod.mk.inj (Except.ok.inj (ha.symm.trans hb))
  rfl

theorem Passes.exists_arrives (h : Passes policy eid handle parts) :
    ∃ record : Record, record.Arrives policy parts := by
  obtain ⟨answers, requests, record, hparts, hasked, hplay⟩ := h
  obtain ⟨parts', harrives, hparts'⟩ := exists_arrives_of_play (congrArg Prod.snd hplay)
  obtain ⟨rfl, -⟩ := Prod.mk.inj (hplay.symm.trans (play_getRecord_of_arrives eid harrives hparts'))
  have hlength : parts.length = parts'.length := by
    have hpos := List.length_pos_iff.2 harrives.nonempty
    simp only [Record.requests, laterRequests, List.length_map, List.length_cons,
      List.length_dropLast] at hasked
    omega
  obtain rfl : parts = parts' := eq_of_forall_getElem? (P := fun i (a : Arrival) =>
    a.ReadFrom (answers i)) (fun _ _ _ => Arrival.ReadFrom.unique) hlength hparts hparts'
  exact ⟨record, harrives⟩

theorem Passes.check_eq (h : Passes policy eid handle parts) (hseveral : 1 < parts.length) :
    Arrival.check parts = some (Crc8.checksum (Arrival.content parts)) := by
  obtain ⟨record, harrives⟩ := h.exists_arrives
  have hlast := List.getLast?_eq_some_getLast harrives.nonempty
  rw [Arrival.check, hlast]
  exact harrives.checksum hseveral _ hlast

end Repository

/-! ## Version lists -/

theorem Part.length_calls (handle : UInt32) (operation : TransferOperation) (parts : List Part) :
    (Part.calls handle operation parts).length = parts.length := by
  induction parts generalizing handle operation with
  | nil => rfl
  | cons p parts ih => exact congrArg (· + 1) (ih p.nextHandle .nextPart)

namespace Control

/-- A retrieval of versions that is answered with the parts, one for each of its requests, returns a
list. -/
def Passes (policy : Policy) (eid : EndpointId) (typ : UInt8) (parts : List Part) : Prop :=
  ∃ answers requests vs, Brings answers 0 parts ∧ requests.length = parts.length ∧
    (getVersions policy eid typ).play answers 0 = (requests, .ok vs)

theorem part_unique {p q : Part} {answer : Except RequestError Response}
    (hp : ∃ r, answer = .ok r ∧ r.code = CompletionCode.success.code ∧ r.data = partData p)
    (hq : ∃ r, answer = .ok r ∧ r.code = CompletionCode.success.code ∧ r.data = partData q) : p = q := by
  obtain ⟨r, rfl, -, hp⟩ := hp
  obtain ⟨r', hr, -, hq⟩ := hq
  obtain rfl := Except.ok.inj hr
  have hread : (versionSource 0).decode r () = (.ok p, ()) := decode_eq_ok.2 hp
  rw [decode_eq_ok.2 hq] at hread
  exact (Except.ok.inj (Prod.mk.inj hread).1).symm

theorem Passes.exists_versions {policy : Policy} {eid : EndpointId} {typ : UInt8} {parts : List Part}
    (h : Passes policy eid typ parts) : ∃ vs, parts.flatMap Part.data = versionData vs := by
  obtain ⟨answers, requests, vs, hparts, hasked, hplay⟩ := h
  rw [play_getVersions] at hplay
  rcases hresult : (((versionSource typ).retrieve policy eid ()).play answers 0).2.1 with e | data
  · rw [hresult] at hplay
    cases (Prod.mk.inj hplay).2
  · rw [hresult] at hplay
    obtain ⟨hrequests, hversions⟩ := Prod.mk.inj hplay
    obtain ⟨rfl, -⟩ := versions_eq_ok.1 hversions
    obtain ⟨parts', _, _, haccepts, hdata⟩ := PartSource.exists_accepts_of_play hresult
    obtain ⟨rfl, hparts'⟩ := exchange_iff.1 haccepts.exchange
    rw [PartSource.play_retrieve_of_accepts haccepts] at hrequests
    have hlength : parts.length = parts'.length := by
      rw [← hasked, ← hrequests, List.length_map, List.length_map, Part.length_calls]
    obtain rfl : parts = parts' := eq_of_forall_getElem? (P := fun i (p : Part) =>
      ∃ r, answers i = .ok r ∧ r.code = CompletionCode.success.code ∧ r.data = partData p)
      (fun _ _ _ => part_unique) hlength hparts hparts'
    exact ⟨vs, hdata.symm⟩

theorem versionData_ne {vs ws : List UInt32} : ¬DifferOnce (versionData vs) (versionData ws) := by
  intro h
  have hlength := h.length_eq
  simp only [versionData, List.length_append, length_flatMap_wordU32,
    LittleEndian.length_wordU32] at hlength
  have hbody : (vs.flatMap LittleEndian.wordU32).length = (ws.flatMap LittleEndian.wordU32).length := by
    rw [length_flatMap_wordU32, length_flatMap_wordU32]
    omega
  rcases h.of_append hbody with ⟨hbody, hcheck⟩ | ⟨hbody, hcheck⟩
  · have hsame := congrArg LittleEndian.readU32 hcheck
    rw [LittleEndian.readU32_wordU32, LittleEndian.readU32_wordU32] at hsame
    exact Crc32.checksum_ne hbody hsame
  · rw [hbody] at hcheck
    exact hcheck.ne rfl

end Control

/-! ## The result -/

/-- **A changed byte does not pass.** Take two records in several parts whose data, put together, differ in
exactly one byte, with the same checksum byte after the last part. At most one of them is returned by a
retrieval, whichever byte differs, how much of it and wherever the parts are cut. The same holds of two
version lists whose data differ in exactly one byte, which may be one of their checksum. -/
theorem changed_byte_refused :
    (∀ policy policy' eid eid' handle handle' parts parts', 2 ≤ parts.length → 2 ≤ parts'.length →
      Repository.Arrival.check parts = Repository.Arrival.check parts' →
      DifferOnce (Repository.Arrival.content parts) (Repository.Arrival.content parts') →
      ¬(Repository.Passes policy eid handle parts ∧ Repository.Passes policy' eid' handle' parts')) ∧
    ∀ policy policy' eid eid' typ typ' parts parts',
      DifferOnce (parts.flatMap Part.data) (parts'.flatMap Part.data) →
      ¬(Control.Passes policy eid typ parts ∧ Control.Passes policy' eid' typ' parts') := by
  constructor
  · rintro policy policy' eid eid' handle handle' parts parts' hseveral hseveral' hcheck hdiffer
      ⟨hpasses, hpasses'⟩
    rw [hpasses.check_eq hseveral, hpasses'.check_eq hseveral'] at hcheck
    exact Crc8.checksum_ne hdiffer (Option.some.inj hcheck)
  · rintro policy policy' eid eid' typ typ' parts parts' hdiffer ⟨hpasses, hpasses'⟩
    obtain ⟨vs, hvs⟩ := hpasses.exists_versions
    obtain ⟨ws, hws⟩ := hpasses'.exists_versions
    rw [hvs, hws] at hdiffer
    exact Control.versionData_ne hdiffer

/-- A record in two parts passes, and with one byte changed in the second part it does not. A version list
in two parts passes, and with one byte changed in its checksum it does not. -/
theorem changed_byte_refused_in_two_parts :
    (Repository.Passes {} 9 1
        [⟨⟨0, 5, TransferFlag.start.code, [1, 0, 0, 0, 1, 2, 7, 0, 3, 0, 0xaa]⟩, []⟩,
          ⟨⟨0, 0, TransferFlag.finish.code, [0xbb, 0xcc]⟩, [0x03]⟩] ∧
      ¬Repository.Passes {} 9 1
        [⟨⟨0, 5, TransferFlag.start.code, [1, 0, 0, 0, 1, 2, 7, 0, 3, 0, 0xaa]⟩, []⟩,
          ⟨⟨0, 0, TransferFlag.finish.code, [0xbb, 0xcd]⟩, [0x03]⟩]) ∧
    Control.Passes {} 9 0 [⟨.start, 17, [0x00, 0xf0, 0xf0, 0xf1, 0xfb, 0x8f]⟩,
        ⟨.finish, 0, [0x86, 0x4a]⟩] ∧
      ¬Control.Passes {} 9 0 [⟨.start, 17, [0x00, 0xf0, 0xf0, 0xf1, 0xfb, 0x8e]⟩,
        ⟨.finish, 0, [0x86, 0x4a]⟩] := by
  have hrecord : Repository.Passes {} 9 1
      [⟨⟨0, 5, TransferFlag.start.code, [1, 0, 0, 0, 1, 2, 7, 0, 3, 0, 0xaa]⟩, []⟩,
        ⟨⟨0, 0, TransferFlag.finish.code, [0xbb, 0xcc]⟩, [0x03]⟩] :=
    ⟨_, [(9, Repository.partRequest 1 0 .firstPart 0), (9, Repository.partRequest 1 5 .nextPart 7)],
      ⟨⟨1, 1, 2, 7, 3⟩, [0xaa, 0xbb, 0xcc], 0⟩, Repository.Arrival.brought_answers (by decide), rfl,
      by decide +kernel⟩
  have hversions : Control.Passes {} 9 0 [⟨.start, 17, [0x00, 0xf0, 0xf0, 0xf1, 0xfb, 0x8f]⟩,
      ⟨.finish, 0, [0x86, 0x4a]⟩] := by
    refine ⟨Dialogue.given ([[17, 0, 0, 0, 1, 0x00, 0xf0, 0xf0, 0xf1, 0xfb, 0x8f],
      [0, 0, 0, 0, 4, 0x86, 0x4a]].map fun data => .ok ⟨0, 0, 3, 0, data⟩),
      [(9, Control.versionRequest 0 (0, .firstPart)), (9, Control.versionRequest 0 (17, .nextPart))],
      [0xf1f0f000], ?_, rfl, by decide +kernel⟩
    exact Control.brings_cons.2 ⟨⟨_, rfl, rfl, rfl⟩,
      Control.brings_cons.2 ⟨⟨_, rfl, rfl, rfl⟩, Control.brings_nil⟩⟩
  refine ⟨⟨hrecord, fun hchanged => ?_⟩, hversions, fun hchanged => ?_⟩
  · refine changed_byte_refused.1 {} {} 9 9 1 1 _ _ ?_ ?_ ?_ ?_ ⟨hrecord, hchanged⟩ <;> decide
  · exact changed_byte_refused.2 {} {} 9 9 0 0 _ _ (by decide) ⟨hversions, hchanged⟩

end PlatformMessaging
