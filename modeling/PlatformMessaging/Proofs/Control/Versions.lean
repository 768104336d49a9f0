import PlatformMessaging.Control.Discovery
import PlatformMessaging.Proofs.Transfer
import PlatformMessaging.Proofs.Wire.Structures

/-!
# Which version lists are accepted

`getVersions` returns exactly the lists whose version data arrives (`Control.getVersions_accepts_exactly`):
the versions, at least one, each in four bytes, and after them the checksum of them all
(`Control.versionData`). How the data is cut into parts does not matter, so that a part may end within a
version or within the checksum.

Whole words are read as they were written (`words_flatMap`) and written as they were read
(`flatMap_words`), which makes `versions` the inverse of `versionData` (`versions_eq_ok`). The source of
the parts has no state: an exchange is the requests for the parts and answers that bring them
(`exchange_iff`).
-/

namespace PlatformMessaging.Control

open LittleEndian

/-- Versions as they are sent: one after another, and then the checksum of them all. -/
def versionData (vs : List UInt32) : Bytes :=
  vs.flatMap wordU32 ++ wordU32 (Crc32.checksum (vs.flatMap wordU32))

/-- The request for a part of the versions of a type, under a handle. -/
def versionRequest (typ : UInt8) (call : UInt32 × TransferOperation) : Request :=
  request .getVersion (VersionRequest.layout.write ⟨call.1, call.2.code, typ⟩)

def partData (p : Part) : Bytes :=
  VersionResponse.layout.write ⟨p.nextHandle, p.flag.code⟩ ++ p.data

/-- The answers from a position on are successful responses that bring the parts. -/
def Brings (answers : Nat → Except RequestError Response) (n : Nat) (parts : List Part) : Prop :=
  ∀ (i : Nat) (p : Part), parts[i]? = some p →
    ∃ r, answers (n + i) = .ok r ∧ r.code = CompletionCode.success.code ∧ r.data = partData p

/-! ## Version data -/

theorem words_append (v : UInt32) (rest : Bytes) : words (wordU32 v ++ rest) = v :: words rest := by
  have hwords : words (wordU32 v ++ rest) = readU32 (wordU32 v) :: words rest := rfl
  rw [hwords, readU32_wordU32]

theorem words_flatMap (vs : List UInt32) : words (vs.flatMap wordU32) = vs := by
  induction vs with
  | nil => rfl
  | cons v vs ih => rw [List.flatMap_cons, words_append, ih]

theorem flatMap_words {b : Bytes} (h : b.length % 4 = 0) : (words b).flatMap wordU32 = b := by
  induction b using words.induct with
  | case1 a b c d rest ih =>
    have hrest : rest.length % 4 = 0 := by
      simp only [List.length_cons] at h
      omega
    rw [words, List.flatMap_cons, wordU32_readU32 rfl, ih hrest]
    rfl
  | case2 b hshort =>
    rcases b with _ | ⟨a, _ | ⟨b, _ | ⟨c, _ | ⟨d, rest⟩⟩⟩⟩
    · rfl
    · cases h
    · cases h
    · cases h
    · exact absurd rfl (hshort a b c d rest)

theorem length_flatMap_wordU32 (vs : List UInt32) : (vs.flatMap wordU32).length = 4 * vs.length := by
  induction vs with
  | nil => rfl
  | cons v vs ih =>
    rw [List.flatMap_cons, List.length_append, length_wordU32, ih, List.length_cons]
    omega

/-- Version data is read as the versions that it was made of, and as nothing else. -/
theorem versions_eq_ok {data : Bytes} {vs : List UInt32} :
    versions data = .ok vs ↔ data = versionData vs ∧ vs ≠ [] := by
  constructor
  · intro h
    unfold versions at h
    dsimp only at h
    split_ifs at h with hlength hcheck
    obtain rfl := Except.ok.inj h
    rw [not_or, Nat.not_lt, not_not] at hlength
    obtain ⟨hlong, hwhole⟩ := hlength
    have hbody : (data.take (data.length - 4)).length = data.length - 4 := by
      rw [List.length_take]
      omega
    have htail : (data.drop (data.length - 4)).length = 4 := by
      rw [List.length_drop]
      omega
    -- The data is whole words and a last one, which is the checksum of the others.
    have hwords := flatMap_words (b := data.take (data.length - 4)) (by omega)
    constructor
    · rw [versionData, hwords, ← hcheck, wordU32_readU32 htail, List.take_append_drop]
    · intro hnil
      rw [hnil] at hwords
      rw [← hwords] at hbody
      simp only [List.flatMap_nil, List.length_nil] at hbody
      omega
  · rintro ⟨rfl, hvs⟩
    have hpos := List.length_pos_iff.2 hvs
    have hbody := length_flatMap_wordU32 vs
    have hlength : (versionData vs).length - 4 = (vs.flatMap wordU32).length := by
      rw [versionData, List.length_append, length_wordU32]
      omega
    have htake : (versionData vs).take ((versionData vs).length - 4) = vs.flatMap wordU32 := by
      rw [hlength, versionData, List.take_left]
    have hdrop : (versionData vs).drop ((versionData vs).length - 4) =
        wordU32 (Crc32.checksum (vs.flatMap wordU32)) := by
      rw [hlength, versionData, List.drop_left]
    unfold versions
    rw [if_neg (by omega)]
    dsimp only
    rw [htake, hdrop, readU32_wordU32, if_pos rfl, words_flatMap]

theorem versions_of_length {data : Bytes} (h : data.length < 8 ∨ data.length % 4 ≠ 0) :
    versions data = .error (.violation (.versionLength data.length)) :=
  if_pos h

theorem versions_of_checksum {data : Bytes} (hlength : ¬(data.length < 8 ∨ data.length % 4 ≠ 0))
    (h : readU32 (data.drop (data.length - 4)) ≠ Crc32.checksum (data.take (data.length - 4))) :
    versions data = .error (.violation .versionChecksum) := by
  unfold versions
  rw [if_neg hlength]
  exact if_neg h

/-! ## The exchange for version data -/

section Exchange

variable {typ : UInt8} {answers : Nat → Except RequestError Response} {n : Nat}

theorem decode_eq_ok {r : Response} {p : Part} :
    (versionSource typ).decode r () = (.ok p, ()) ↔
      r.data = partData p := by
  have hlayout := VersionResponse.layout_fixed.lossless.decodes
  unfold versionSource
  dsimp only
  constructor
  · intro h
    split at h
    · cases (Prod.mk.inj h).1
    · rename_i v data hdecode
      obtain ⟨handle, byte⟩ := v
      split at h
      · cases (Prod.mk.inj h).1
      · rename_i flag hflag
        obtain rfl := Except.ok.inj (Prod.mk.inj h).1
        obtain rfl := TransferFlag.ofByte_eq_ok.1 hflag
        exact (hlayout.write_decode _ _ _ hdecode).symm
  · intro h
    rw [h, partData, hlayout.decode_write _ trivial]
    dsimp only
    rw [TransferFlag.ofByte_code]

theorem brings_nil : Brings answers n [] := by
  intro i p h
  simp at h

theorem brings_cons {p : Part} {parts : List Part} :
    Brings answers n (p :: parts) ↔
      (∃ r, answers n = .ok r ∧ r.code = CompletionCode.success.code ∧ r.data = partData p) ∧
        Brings answers (n + 1) parts :=
  Dialogue.forall_getElem?_cons (P := fun i (p : Part) =>
    ∃ r, answers i = .ok r ∧ r.code = CompletionCode.success.code ∧ r.data = partData p)

theorem exchange_iff {handle : UInt32} {operation : TransferOperation} {parts : List Part}
    {requests : List Request} :
    (versionSource typ).Exchange answers n () (Part.calls handle operation parts) requests parts () ↔
      requests = (Part.calls handle operation parts).map (versionRequest typ) ∧
        Brings answers n parts := by
  induction parts generalizing n handle operation requests with
  | nil =>
    constructor
    · intro h
      cases h
      exact ⟨rfl, brings_nil⟩
    · rintro ⟨rfl, -⟩
      exact .nil
  | cons p parts ih =>
    constructor
    · intro h
      cases h with
      | cons hrequest hanswer hcode hdecode hrest =>
        obtain rfl := Except.ok.inj (Prod.mk.inj hrequest).1
        obtain ⟨rfl, hbrings⟩ := ih.1 hrest
        exact ⟨rfl, brings_cons.2 ⟨⟨_, hanswer, hcode, decode_eq_ok.1 hdecode⟩, hbrings⟩⟩
    · rintro ⟨rfl, hbrings⟩
      obtain ⟨⟨r, hanswer, hcode, hdata⟩, hbrings⟩ := brings_cons.1 hbrings
      exact .cons rfl hanswer hcode (decode_eq_ok.2 hdata) (ih.2 ⟨rfl, hbrings⟩)

end Exchange

/-! ## The result -/

section Result

variable {policy : Policy} {eid : EndpointId} {typ : UInt8}
  {answers : Nat → Except RequestError Response}

theorem play_getVersions :
    (getVersions policy eid typ).play answers 0 =
      ((((versionSource typ).retrieve policy eid ()).play answers 0).1,
        match (((versionSource typ).retrieve policy eid ()).play answers 0).2.1 with
        | .error e => .error e
        | .ok data => versions data) := by
  unfold getVersions
  rw [Dialogue.play_bind]
  rcases ((versionSource typ).retrieve policy eid ()).play answers 0 with ⟨asked, e | data, -⟩
  · exact Prod.ext (List.append_nil _) rfl
  · exact Prod.ext (List.append_nil _) rfl

end Result

/-- **Exactly the checked version lists are accepted.** The versions of a type are returned iff the parts
are reassembled to their version data, and there is at least one. However the data is cut into parts, as
many and as large as the policy allows, the list comes back as it was sent, after the requests for these
parts. Data that is too short or does not consist of whole words, or whose last word is not the checksum
of the others, ends in an error, and so does a transfer that fails. -/
theorem getVersions_accepts_exactly (policy : Policy) (eid : EndpointId) (typ : UInt8)
    (answers : Nat → Except RequestError Response) :
    (∀ vs, ((getVersions policy eid typ).play answers 0).2 = .ok vs ↔
      (((versionSource typ).retrieve policy eid ()).play answers 0).2.1 = .ok (versionData vs) ∧
        vs ≠ []) ∧
    (∀ vs parts, vs ≠ [] → parts.flatMap Part.data = versionData vs →
      Part.Complete policy.maxRecordSize parts → parts.length ≤ policy.maxParts →
      Brings answers 0 parts →
      (getVersions policy eid typ).play answers 0 =
        ((Part.calls 0 .firstPart parts).map fun call => (eid, versionRequest typ call), .ok vs)) ∧
    (∀ data, (((versionSource typ).retrieve policy eid ()).play answers 0).2.1 = .ok data →
      (data.length < 8 ∨ data.length % 4 ≠ 0 →
        ((getVersions policy eid typ).play answers 0).2 =
          .error (.violation (.versionLength data.length))) ∧
      (¬(data.length < 8 ∨ data.length % 4 ≠ 0) →
        readU32 (data.drop (data.length - 4)) ≠ Crc32.checksum (data.take (data.length - 4)) →
        ((getVersions policy eid typ).play answers 0).2 = .error (.violation .versionChecksum))) ∧
    ∀ e, (((versionSource typ).retrieve policy eid ()).play answers 0).2.1 = .error e →
      ((getVersions policy eid typ).play answers 0).2 = .error e := by
  refine ⟨fun vs => ?_, fun vs parts hvs hdata hcomplete hfew hbrings => ?_, fun data hdata => ?_,
    fun e he => ?_⟩
  · rw [play_getVersions]
    cases hresult : (((versionSource typ).retrieve policy eid ()).play answers 0).2.1 with
    | error e => simp
    | ok data =>
      rw [Except.ok.injEq]
      exact versions_eq_ok
  · have haccepts : (versionSource typ).Accepts policy answers () parts
        ((Part.calls 0 .firstPart parts).map (versionRequest typ)) () :=
      ⟨hfew, hcomplete, exchange_iff.2 ⟨rfl, hbrings⟩⟩
    rw [play_getVersions, PartSource.play_retrieve_of_accepts haccepts, hdata, List.map_map]
    exact Prod.ext rfl (versions_eq_ok.2 ⟨rfl, hvs⟩)
  · rw [play_getVersions, hdata]
    exact ⟨versions_of_length, versions_of_checksum⟩
  · rw [play_getVersions, he]

/-- Two versions in three parts. The first cut is within a version, the second within the checksum. -/
theorem getVersions_accepts_three_parts :
    (getVersions {} 9 0).play (Dialogue.given (
        [[17, 0, 0, 0, 1, 0x00, 0xf0, 0xf0], [18, 0, 0, 0, 2, 0xf1, 0x00, 0xf1, 0xf1, 0xf1, 0xd5],
          [0, 0, 0, 0, 4, 0x8e, 0x81, 0x12]].map fun data => .ok ⟨0, 0, 3, 0, data⟩)) 0 =
      ([(9, versionRequest 0 (0, .firstPart)), (9, versionRequest 0 (17, .nextPart)),
        (9, versionRequest 0 (18, .nextPart))], .ok [0xf1f0f000, 0xf1f1f100]) := by
  have hcomplete : Part.Complete 65536 [⟨.start, 17, [0x00, 0xf0, 0xf0]⟩,
      ⟨.middle, 18, [0xf1, 0x00, 0xf1, 0xf1, 0xf1, 0xd5]⟩, ⟨.finish, 0, [0x8e, 0x81, 0x12]⟩] := by
    constructor <;> decide +kernel
  refine (getVersions_accepts_exactly {} 9 0 _).2.1 _ _ (by decide) (by decide +kernel) hcomplete
    (by decide) ?_
  exact brings_cons.2 ⟨⟨_, rfl, rfl, rfl⟩, brings_cons.2 ⟨⟨_, rfl, rfl, rfl⟩,
    brings_cons.2 ⟨⟨_, rfl, rfl, rfl⟩, brings_nil⟩⟩⟩

end PlatformMessaging.Control
