import PlatformMessaging.Proofs.Transfer
import PlatformMessaging.Proofs.Wire.Structures
import PlatformMessaging.Repository.Record

/-!
# Which records are accepted

`getRecord` accepts exactly the valid records: those that come in well-formed parts
(`Record.Arrives`), with a header that tells the length of the data, and, if there is more than one
part, with the checksum of the whole record after the last.

A part that was read is an `Arrival`, and `RecordProgress.note` is characterised once for each flag
(`note_start`, `note_middle`, `note_finish`, `note_startAndEnd`). The parts after the first are an
`Ending`: by induction on them, an ending is an exchange without fault (`exchange_of_ending`) and
every such exchange is an ending (`ending_of_exchange`). The checksum goes on from part to part
(`Crc8.update_append`).
-/

namespace PlatformMessaging

theorem TransferFlag.map_eq_sequence {α β : Type} {f : α → β} {g : TransferFlag → β} {a z : α}
    {xs : List α} :
    (a :: (xs ++ [z])).map f = (sequence (a :: (xs ++ [z])).length).map g ↔
      f a = g .start ∧ (∀ x ∈ xs, f x = g .middle) ∧ f z = g .finish := by
  have hlength : (a :: (xs ++ [z])).length = xs.length + 2 := by simp
  rw [hlength]
  simp only [sequence, opening, List.map_cons, List.map_append, List.map_nil, List.map_replicate,
    List.cons_append, List.cons.injEq]
  refine and_congr_right fun _ => ⟨fun h => ?_, ?_⟩
  · obtain ⟨hxs, hlast⟩ := List.append_inj' h rfl
    exact ⟨List.forall_mem_map.1 (List.eq_replicate_iff.1 hxs).2, by simpa using hlast⟩
  · rintro ⟨hxs, hlast⟩
    rw [hlast, List.eq_replicate_iff.2 ⟨List.length_map f, List.forall_mem_map.2 hxs⟩]

theorem Part.flags_eq_sequence {first last : Part} {middle : List Part} :
    (first :: (middle ++ [last])).map flag =
        TransferFlag.sequence (first :: (middle ++ [last])).length ↔
      first.flag = .start ∧ (∀ p ∈ middle, p.flag = .middle) ∧ last.flag = .finish := by
  rw [← List.map_id (TransferFlag.sequence _)]
  exact TransferFlag.map_eq_sequence

namespace Repository

/-- A part of a record as a message brings it, with what follows it there. -/
structure Arrival where
  response : RecordResponse
  rest : Bytes

namespace Arrival

/-- The record data of parts, in order. -/
def content (parts : List Arrival) : Bytes :=
  parts.flatMap fun a => a.response.data

/-- The answer to a request is a successful response that brings the part. -/
def ReadFrom (a : Arrival) (answer : Except RequestError Response) : Prop :=
  ∃ r, answer = .ok r ∧ r.code = CompletionCode.success.code ∧
    RecordResponse.layout.decode r.data = .ok (a.response, a.rest)

/-- The part by itself, under a flag. -/
def part (flag : TransferFlag) (a : Arrival) : Part :=
  ⟨flag, a.response.nextTransferHandle, a.response.data⟩

/-- The answers from a position on bring the parts. -/
def Brought (answers : Nat → Except RequestError Response) (n : Nat) (parts : List Arrival) : Prop :=
  ∀ (i : Nat) (a : Arrival), parts[i]? = some a → a.ReadFrom (answers (n + i))

end Arrival

def partRequest (handle transferHandle : UInt32) (operation : TransferOperation)
    (changeNumber : UInt16) : Request :=
  ⟨messageType, Command.getRecord.code, RecordRequest.layout.write
    ⟨handle, transferHandle, operation.code, requestCount, changeNumber⟩⟩

/-- The requests for the parts after given ones, each under the handle that came with the one
before it. -/
def laterRequests (handle : UInt32) (changeNumber : UInt16) (parts : List Arrival) : List Request :=
  parts.map fun a => partRequest handle a.response.nextTransferHandle .nextPart changeNumber

namespace Record

/-- The requests for the parts of a record: the first part is asked for under transfer handle and
change number zero, each later one under the handle that came with the one before it and the change
number of the header. -/
def requests (record : Record) (handle : UInt32) (parts : List Arrival) : List Request :=
  partRequest handle 0 .firstPart 0 ::
    laterRequests handle record.header.changeNumber parts.dropLast

/-- A valid record in its parts, within the limits of a policy. -/
structure Arrives (policy : Policy) (record : Record) (parts : List Arrival) : Prop where
  nonempty : parts ≠ []
  few : parts.length ≤ policy.maxParts
  flags : parts.map (fun a => a.response.flag) =
    (TransferFlag.sequence parts.length).map TransferFlag.code
  linked : ∀ a ∈ parts.dropLast, a.response.data ≠ [] ∧ a.response.nextTransferHandle ≠ 0
  size : (Arrival.content parts).length ≤ policy.maxRecordSize
  bytes : Arrival.content parts = RecordHeader.layout.write record.header ++ record.data
  length : record.header.dataLength.toNat = record.data.length
  next : ∀ a ∈ parts.getLast?, a.response.nextRecordHandle = record.nextRecordHandle
  /-- Of several parts, the first has the whole header. -/
  header : 1 < parts.length → ∀ a ∈ parts.head?, recordHeaderLength ≤ a.response.data.length
  /-- After the last of several parts comes the checksum of the record. -/
  checksum : 1 < parts.length → ∀ a ∈ parts.getLast?,
    a.rest.head? = some (Crc8.checksum (Arrival.content parts))

end Record

/-! ## Answers that bring parts -/

/-- The response that brings a part. -/
def Arrival.reply (a : Arrival) : Response :=
  ⟨0, messageType, Command.getRecord.code, CompletionCode.success.code,
    RecordResponse.layout.write a.response ++ a.rest⟩

/-- The parts one after another. -/
def Arrival.answers (parts : List Arrival) : Nat → Except RequestError Response :=
  Dialogue.given (parts.map fun a => .ok a.reply)

theorem RecordResponse.decode_write {r : RecordResponse} (h : r.data.length < 2 ^ 16)
    (rest : Bytes) :
    RecordResponse.layout.decode (RecordResponse.layout.write r ++ rest) = .ok (r, rest) :=
  RecordResponse.layout_lossless.decodes.decode_write r h rest

theorem Arrival.brought_answers {parts : List Arrival}
    (h : ∀ a ∈ parts, a.response.data.length < 2 ^ 16) : Brought (answers parts) 0 parts := by
  intro i a ha
  refine ⟨a.reply, ?_, rfl, RecordResponse.decode_write (h a (List.mem_of_getElem? ha)) a.rest⟩
  simp [answers, Dialogue.given, ha]

/-! ## What a part changes -/

namespace RecordProgress

variable {p p' : RecordProgress} {r : RecordResponse} {rest : Bytes}

theorem note_start :
    p.note .start r rest = .ok p' ↔
      ∃ header tail, RecordHeader.layout.read r.data = some (header, tail) ∧
        p' = ⟨header.changeNumber, r.nextRecordHandle, some (Crc8.checksum r.data)⟩ := by
  unfold note begin
  cases hread : RecordHeader.layout.read r.data with
  | none => simp [Layout.decode, hread]
  | some q =>
    obtain ⟨header, tail⟩ := q
    simp [Layout.decode, hread, take, verify, Crc8.checksum, eq_comm]

theorem note_middle :
    p.note .middle r rest = .ok p' ↔
      p' = ⟨p.changeNumber, r.nextRecordHandle, p.checksum.map fun c => Crc8.update c r.data⟩ := by
  simp [note, begin, take, verify, eq_comm]

theorem note_startAndEnd :
    p.note .startAndEnd r rest = .ok p' ↔
      p' = ⟨p.changeNumber, r.nextRecordHandle, p.checksum.map fun c => Crc8.update c r.data⟩ := by
  simp [note, begin, take, verify, eq_comm]

theorem note_finish :
    p.note .finish r rest = .ok p' ↔ ∃ c, rest.head? = some c ∧
      (p.checksum.map fun c => Crc8.update c r.data) = some c ∧
      p' = ⟨p.changeNumber, r.nextRecordHandle, none⟩ := by
  cases rest with
  | nil => simp [note, begin, verify]
  | cons c tail =>
    simp only [note, begin, take, verify]
    by_cases hc : p.checksum.map (fun c => Crc8.update c r.data) = some c
    · simp [hc, eq_comm]
    · simp only [hc, if_false, reduceCtorEq, List.head?_cons, Option.some.injEq, false_iff,
        not_exists, not_and]
      rintro d rfl hd
      exact absurd hd hc

end RecordProgress

/-! ## The exchange for a record -/

namespace Arrival

variable {answers : Nat → Except RequestError Response} {n : Nat} {a : Arrival} {parts : List Arrival}

theorem brought_nil : Brought answers n [] := by
  intro i b h
  simp at h

theorem brought_cons :
    Brought answers n (a :: parts) ↔ a.ReadFrom (answers n) ∧ Brought answers (n + 1) parts :=
  Dialogue.forall_getElem?_cons (P := fun i (a : Arrival) => a.ReadFrom (answers i))

end Arrival

/-- The parts of a record after the first: middle parts and a last one, which is followed by the
checksum that goes on from `c`. -/
structure Ending (answers : Nat → Except RequestError Response) (n : Nat) (c : UInt8)
    (middle : List Arrival) (last : Arrival) : Prop where
  read : Arrival.Brought answers n (middle ++ [last])
  flags : ∀ a ∈ middle, a.response.flag = TransferFlag.middle.code
  flag : last.response.flag = TransferFlag.finish.code
  checksum : last.rest.head? = some (Crc8.update c (Arrival.content (middle ++ [last])))

section Exchange

variable {handle transferHandle : UInt32} {operation : TransferOperation}
  {p told after : RecordProgress}
  {answers : Nat → Except RequestError Response} {n : Nat} {request : Request}
  {requests : List Request}

theorem decode_eq_ok {r : Response} {x : Part} :
    (recordSource handle).decode r p = (.ok x, told) ↔ ∃ a : Arrival, ∃ flag : TransferFlag,
      RecordResponse.layout.decode r.data = .ok (a.response, a.rest) ∧
      a.response.flag = flag.code ∧ p.note flag a.response a.rest = .ok told ∧ x = a.part flag := by
  unfold recordSource
  dsimp only
  cases hdecode : RecordResponse.layout.decode r.data with
  | error e => simp
  | ok q =>
    obtain ⟨v, rest⟩ := q
    dsimp only
    constructor
    · intro h
      split at h
      · cases h
      · rename_i flag hflag
        split at h
        · cases h
        · rename_i told' hnote
          obtain ⟨hx, rfl⟩ := Prod.mk.inj h
          obtain rfl := Except.ok.inj hx
          exact ⟨⟨v, rest⟩, flag, rfl, TransferFlag.ofByte_eq_ok.1 hflag, hnote, rfl⟩
    · rintro ⟨⟨v', rest'⟩, flag, hread, hflag, hnote, rfl⟩
      obtain ⟨rfl, rfl⟩ := Prod.mk.inj (Except.ok.inj hread)
      dsimp only at hflag hnote
      rw [TransferFlag.ofByte_eq_ok.2 hflag]
      dsimp only
      rw [hnote]
      rfl

theorem exchange_cons {x : Part} {xs : List Part}
    (hrequest : (recordSource handle).request transferHandle operation p = (.ok request, p)) :
    (recordSource handle).Exchange answers n p (Part.calls transferHandle operation (x :: xs)) requests
        (x :: xs) after ↔
      ∃ a : Arrival, ∃ flag : TransferFlag, ∃ told later, a.ReadFrom (answers n) ∧
        a.response.flag = flag.code ∧ p.note flag a.response a.rest = .ok told ∧ x = a.part flag ∧
        requests = request :: later ∧
        (recordSource handle).Exchange answers (n + 1) told (Part.calls x.nextHandle .nextPart xs) later
          xs after := by
  constructor
  · intro h
    rcases h with _ | ⟨hasked, hanswer, hcode, hdecode, hrest⟩
    rw [hrequest] at hasked
    obtain ⟨hok, rfl⟩ := Prod.mk.inj hasked
    obtain rfl := Except.ok.inj hok
    obtain ⟨a, flag, hread, hflag, hnote, hx⟩ := decode_eq_ok.1 hdecode
    exact ⟨a, flag, _, _, ⟨_, hanswer, hcode, hread⟩, hflag, hnote, hx, rfl, hrest⟩
  · rintro ⟨a, flag, told, later, ⟨r, hanswer, hcode, hread⟩, hflag, hnote, hx, rfl, hrest⟩
    exact .cons hrequest hanswer hcode (decode_eq_ok.2 ⟨a, flag, hread, hflag, hnote, hx⟩) hrest

theorem exchange_of_ending {middle : List Arrival} {last : Arrival} {c : UInt8} {change : UInt16}
    {next : UInt32} (h : Ending answers n c middle last) :
    (recordSource handle).Exchange answers n ⟨change, next, some c⟩
      (Part.calls transferHandle .nextPart (middle.map (·.part .middle) ++ [last.part .finish]))
      (partRequest handle transferHandle .nextPart change :: laterRequests handle change middle)
      (middle.map (·.part .middle) ++ [last.part .finish])
      ⟨change, last.response.nextRecordHandle, none⟩ := by
  induction middle generalizing n c next transferHandle with
  | nil =>
    obtain ⟨hread, -⟩ := Arrival.brought_cons.1 h.read
    refine (exchange_cons rfl).2 ⟨last, .finish, _, [], hread, h.flag, ?_, rfl, rfl, .nil⟩
    refine RecordProgress.note_finish.2 ⟨_, h.checksum, ?_, rfl⟩
    simp [Arrival.content]
  | cons a middle ih =>
    obtain ⟨hread, hrest⟩ := Arrival.brought_cons.1 h.read
    refine (exchange_cons rfl).2 ⟨a, .middle, _, _, hread, h.flags a List.mem_cons_self,
      RecordProgress.note_middle.2 rfl, rfl, rfl, ih ⟨hrest, ?_, h.flag, ?_⟩⟩
    · exact fun b hb => h.flags b (List.mem_cons_of_mem _ hb)
    · rw [h.checksum, ← Crc8.update_append]
      rfl

theorem ending_of_exchange {xs : List Part} {y : Part} {c : UInt8} {change : UInt16} {next : UInt32}
    (hxs : ∀ x ∈ xs, x.flag = .middle) (hy : y.flag = .finish)
    (h : (recordSource handle).Exchange answers n ⟨change, next, some c⟩
      (Part.calls transferHandle .nextPart (xs ++ [y])) requests (xs ++ [y]) after) :
    ∃ middle last, Ending answers n c middle last ∧ xs = middle.map (·.part .middle) ∧
      y = last.part .finish ∧ after.nextRecordHandle = last.response.nextRecordHandle := by
  induction xs generalizing n c next transferHandle requests with
  | nil =>
    obtain ⟨a, flag, told, later, hread, hflag, hnote, rfl, -, hrest⟩ := (exchange_cons rfl).1 h
    obtain rfl : flag = .finish := hy
    cases hrest
    obtain ⟨d, hd, hc, rfl⟩ := RecordProgress.note_finish.1 hnote
    refine ⟨[], a, ⟨?_, by simp, hflag, ?_⟩, rfl, rfl, rfl⟩
    · exact Arrival.brought_cons.2 ⟨hread, Arrival.brought_nil⟩
    · rw [hd, ← hc]
      simp [Arrival.content]
  | cons x xs ih =>
    obtain ⟨a, flag, told, later, hread, hflag, hnote, rfl, -, hrest⟩ := (exchange_cons rfl).1 h
    obtain rfl : flag = .middle := hxs _ List.mem_cons_self
    obtain rfl := RecordProgress.note_middle.1 hnote
    obtain ⟨middle, last, hending, rfl, rfl, hnext⟩ :=
      ih (fun x hx => hxs x (List.mem_cons_of_mem _ hx)) hrest
    refine ⟨a :: middle, last, ⟨?_, ?_, hending.flag, ?_⟩, rfl, rfl, hnext⟩
    · exact Arrival.brought_cons.2 ⟨hread, hending.read⟩
    · exact List.forall_mem_cons.2 ⟨hflag, hending.flags⟩
    · rw [hending.checksum, ← Crc8.update_append]
      rfl

end Exchange

/-! ## The whole record -/

theorem Record.ofBytes_eq_ok {bytes : Bytes} {next : UInt32} {record : Record} :
    Record.ofBytes bytes next = .ok record ↔
      bytes = RecordHeader.layout.write record.header ++ record.data ∧
        record.header.dataLength.toNat = record.data.length ∧ next = record.nextRecordHandle := by
  unfold ofBytes
  constructor
  · intro h
    split at h
    · cases h
    · rename_i header data hdecode
      split_ifs at h with hlength
      obtain rfl := Except.ok.inj h
      have hbytes := RecordHeader.layout_fixed.write_read _ _ _ (Layout.decode_eq_ok.1 hdecode)
      exact ⟨hbytes.symm, (not_not.1 hlength).symm, rfl⟩
  · rintro ⟨rfl, hlength, rfl⟩
    rw [Layout.decode_eq_ok.2 (RecordHeader.layout_fixed.read_write record.header record.data)]
    dsimp only
    rw [if_neg (not_not.2 hlength.symm)]

theorem read_header {data rest tail : Bytes} {header : RecordHeader}
    (hlength : recordHeaderLength ≤ data.length)
    (h : data ++ rest = RecordHeader.layout.write header ++ tail) :
    ∃ start, RecordHeader.layout.read data = some (header, start) := by
  cases hread : RecordHeader.layout.read data with
  | none => exact absurd ((RecordHeader.layout_fixed.read_eq_none data).1 hread) (Nat.not_lt.2 hlength)
  | some q =>
    obtain ⟨header', start⟩ := q
    have hdata := RecordHeader.layout_fixed.write_read _ _ _ hread
    rw [← hdata, List.append_assoc] at h
    have hsame := RecordHeader.layout_fixed.read_write header tail
    rw [← h, RecordHeader.layout_fixed.read_write] at hsame
    obtain ⟨rfl, -⟩ := Prod.mk.inj (Option.some.inj hsame)
    exact ⟨start, rfl⟩

section Whole

variable {policy : Policy} {handle : UInt32} {answers : Nat → Except RequestError Response}
  {record : Record} {parts : List Arrival}

theorem Record.Arrives.accepts_single {a : Arrival} (h : record.Arrives policy [a])
    (hread : a.ReadFrom (answers 0)) :
    (recordSource handle).Accepts policy answers {} [a.part .startAndEnd]
      (record.requests handle [a]) ⟨0, record.nextRecordHandle, none⟩ := by
  have hflag : a.response.flag = TransferFlag.startAndEnd.code := by
    simpa [TransferFlag.sequence] using h.flags
  have hnext : a.response.nextRecordHandle = record.nextRecordHandle := h.next a rfl
  refine ⟨h.few, ⟨by simp, rfl, by simp, ?_⟩, ?_⟩
  · simpa [Arrival.content, Arrival.part] using h.size
  · rw [← hnext]
    exact (exchange_cons rfl).2 ⟨a, .startAndEnd, _, [], hread, hflag,
      RecordProgress.note_startAndEnd.2 rfl, rfl, rfl, .nil⟩

theorem Record.Arrives.accepts_several {a last : Arrival} {middle : List Arrival}
    (h : record.Arrives policy (a :: (middle ++ [last])))
    (hparts : Arrival.Brought answers 0 (a :: (middle ++ [last]))) :
    (recordSource handle).Accepts policy answers {}
      (a.part .start :: (middle.map (·.part .middle) ++ [last.part .finish]))
      (record.requests handle (a :: (middle ++ [last])))
      ⟨record.header.changeNumber, record.nextRecordHandle, none⟩ := by
  obtain ⟨hread, hrest⟩ := Arrival.brought_cons.1 hparts
  obtain ⟨hstart, hmiddle, hfinish⟩ := TransferFlag.map_eq_sequence.1 h.flags
  have hseveral : 1 < (a :: (middle ++ [last])).length := by simp
  have hlast : (a :: (middle ++ [last])).getLast? = some last := by
    rw [← List.cons_append, List.getLast?_concat]
  have hlinked : ∀ b ∈ a :: middle, b.response.data ≠ [] ∧ b.response.nextTransferHandle ≠ 0 := by
    have hlinked := h.linked
    rwa [← List.cons_append, List.dropLast_concat] at hlinked
  obtain ⟨start, hheader⟩ := read_header (h.header hseveral a rfl) h.bytes
  have hending : Ending answers 1 (Crc8.checksum a.response.data) middle last := by
    refine ⟨hrest, hmiddle, hfinish, ?_⟩
    rw [h.checksum hseveral last hlast, Crc8.checksum, Crc8.checksum, ← Crc8.update_append]
    rfl
  refine ⟨by simpa using h.few, ⟨by simp, ?_, ?_, ?_⟩, ?_⟩
  · exact Part.flags_eq_sequence.2 ⟨rfl, by simp [Arrival.part], rfl⟩
  · rw [← List.cons_append, List.dropLast_concat]
    refine List.forall_mem_cons.2 ⟨hlinked a List.mem_cons_self, List.forall_mem_map.2 ?_⟩
    exact fun b hb => hlinked b (List.mem_cons_of_mem _ hb)
  · simpa [Arrival.content, Arrival.part, List.flatMap_map] using h.size
  · have hrequests : record.requests handle (a :: (middle ++ [last])) =
        partRequest handle 0 .firstPart 0 ::
          partRequest handle a.response.nextTransferHandle .nextPart record.header.changeNumber ::
            laterRequests handle record.header.changeNumber middle := by
      rw [Record.requests, ← List.cons_append, List.dropLast_concat]
      rfl
    rw [hrequests, ← h.next last hlast]
    exact (exchange_cons rfl).2 ⟨a, .start, _, _, hread, hstart,
      RecordProgress.note_start.2 ⟨_, _, hheader, rfl⟩, rfl, rfl, exchange_of_ending hending⟩

/-- The parts of an accepted transfer are those of the record that is read from it. -/
theorem exists_arrives_of_accepts {xs : List Part} {requests : List Request} {after : RecordProgress}
    (h : (recordSource handle).Accepts policy answers {} xs requests after)
    (hrecord : Record.ofBytes (xs.flatMap Part.data) after.nextRecordHandle = .ok record) :
    ∃ parts, record.Arrives policy parts ∧ Arrival.Brought answers 0 parts := by
  obtain ⟨hbytes, hlength, hnext⟩ := Record.ofBytes_eq_ok.1 hrecord
  obtain ⟨hfew, ⟨hnonempty, hflags, hlinked, hsize⟩, hexchange⟩ := h
  rcases xs with _ | ⟨x, rest⟩
  · exact absurd rfl hnonempty
  obtain ⟨a, flag, told, later, hread, hflag, hnote, rfl, -, hrest⟩ := (exchange_cons rfl).1 hexchange
  -- One part alone, or a first one, some in the middle and a last one.
  rcases List.eq_nil_or_concat rest with rfl | ⟨ys, y, rfl⟩
  · obtain rfl : flag = .startAndEnd := by
      simpa [TransferFlag.sequence, Arrival.part] using hflags
    obtain rfl := RecordProgress.note_startAndEnd.1 hnote
    cases hrest
    refine ⟨[a], ⟨by simp, hfew, ?_, by simp, ?_, ?_, hlength, ?_, by simp, by simp⟩, ?_⟩
    · simpa [TransferFlag.sequence] using hflag
    · simpa [Arrival.content, Arrival.part] using hsize
    · simpa [Arrival.content, Arrival.part] using hbytes
    · simpa using hnext
    · exact Arrival.brought_cons.2 ⟨hread, Arrival.brought_nil⟩
  · rw [List.concat_eq_append] at *
    obtain ⟨rfl, hys, hy⟩ := Part.flags_eq_sequence.1 hflags
    obtain ⟨header, tail, hheader, rfl⟩ := RecordProgress.note_start.1 hnote
    obtain ⟨middle, last, hending, rfl, rfl, hlast⟩ := ending_of_exchange hys hy hrest
    have hcontent : (a.part .start :: (middle.map (·.part .middle) ++ [last.part .finish])).flatMap
        Part.data = Arrival.content (a :: (middle ++ [last])) := by
      simp [Arrival.content, Arrival.part, List.flatMap_map]
    have hgetLast : (a :: (middle ++ [last])).getLast? = some last := by
      rw [← List.cons_append, List.getLast?_concat]
    refine ⟨a :: (middle ++ [last]), ⟨by simp, by simpa using hfew, ?_, ?_, hcontent ▸ hsize,
      hcontent ▸ hbytes, hlength, ?_, ?_, ?_⟩, Arrival.brought_cons.2 ⟨hread, hending.read⟩⟩
    · exact TransferFlag.map_eq_sequence.2 ⟨hflag, hending.flags, hending.flag⟩
    · rw [← List.cons_append, List.dropLast_concat] at hlinked ⊢
      obtain ⟨ha, hmiddle⟩ := List.forall_mem_cons.1 hlinked
      exact List.forall_mem_cons.2 ⟨ha, List.forall_mem_map.1 hmiddle⟩
    · intro b hb
      rw [hgetLast] at hb
      obtain rfl := Option.some.inj hb
      exact hlast ▸ hnext
    · intro _ b hb
      obtain rfl := Option.some.inj hb
      refine Nat.le_of_not_lt fun hshort => ?_
      rw [(RecordHeader.layout_fixed.read_eq_none _).2 hshort] at hheader
      cases hheader
    · intro _ b hb
      rw [hgetLast] at hb
      obtain rfl := Option.some.inj hb
      rw [hending.checksum, Crc8.checksum, Crc8.checksum, ← Crc8.update_append]
      rfl

theorem play_getRecord_of_arrives (eid : EndpointId) (h : record.Arrives policy parts)
    (hparts : Arrival.Brought answers 0 parts) :
    (getRecord policy eid handle).play answers 0 =
      ((record.requests handle parts).map (Prod.mk eid), .ok record) := by
  have haccepts : ∃ xs change, (recordSource handle).Accepts policy answers {} xs
      (record.requests handle parts) ⟨change, record.nextRecordHandle, none⟩ ∧
      xs.flatMap Part.data = Arrival.content parts := by
    rcases parts with _ | ⟨a, rest⟩
    · exact absurd rfl h.nonempty
    rcases List.eq_nil_or_concat rest with rfl | ⟨middle, last, rfl⟩
    · refine ⟨_, 0, h.accepts_single (Arrival.brought_cons.1 hparts).1, ?_⟩
      simp [Arrival.content, Arrival.part]
    · rw [List.concat_eq_append] at *
      refine ⟨_, _, h.accepts_several hparts, ?_⟩
      simp [Arrival.content, Arrival.part, List.flatMap_map]
  obtain ⟨xs, change, haccepts, hcontent⟩ := haccepts
  have hrecord : Record.ofBytes (Arrival.content parts) record.nextRecordHandle = .ok record :=
    Record.ofBytes_eq_ok.2 ⟨h.bytes, h.length, rfl⟩
  unfold getRecord
  rw [Dialogue.play_bind, PartSource.play_retrieve_of_accepts haccepts, hcontent]
  simp [hrecord]

theorem exists_arrives_of_play {eid : EndpointId}
    (h : ((getRecord policy eid handle).play answers 0).2 = .ok record) :
    ∃ parts, record.Arrives policy parts ∧ Arrival.Brought answers 0 parts := by
  unfold getRecord at h
  rw [Dialogue.play_bind] at h
  rcases hresult : (((recordSource handle).retrieve policy eid {}).play answers 0).2.1 with e | bytes
  · rw [hresult] at h
    cases h
  · obtain ⟨xs, requests, after, haccepts, rfl⟩ := PartSource.exists_accepts_of_play hresult
    rw [PartSource.play_retrieve_of_accepts haccepts] at h
    exact exists_arrives_of_accepts haccepts h

end Whole

/-! ## The result -/

/-- **Exactly the valid records are accepted.** Asking for a record returns it iff the answers bring
its parts (`Record.Arrives`), whatever is answered afterwards. What was asked is then the requests for
its parts, and in every other case it ends with an error. -/
theorem getRecord_accepts_exactly (policy : Policy) (eid : EndpointId) (handle : UInt32)
    (answers : Nat → Except RequestError Response) (record : Record) :
    (((getRecord policy eid handle).play answers 0).2 = .ok record ↔
      ∃ parts, record.Arrives policy parts ∧ Arrival.Brought answers 0 parts) ∧
    ∀ parts, record.Arrives policy parts → Arrival.Brought answers 0 parts →
      (getRecord policy eid handle).play answers 0 =
        ((record.requests handle parts).map (Prod.mk eid), .ok record) := by
  refine ⟨⟨exists_arrives_of_play, ?_⟩, fun parts => play_getRecord_of_arrives eid⟩
  rintro ⟨parts, harrives, hparts⟩
  rw [play_getRecord_of_arrives eid harrives hparts]

/-- A record in two parts, cut in its data. -/
theorem getRecord_accepts_two_parts :
    (getRecord {} 9 1).play (Arrival.answers
        [⟨⟨0, 5, TransferFlag.start.code, [1, 0, 0, 0, 1, 2, 7, 0, 3, 0, 0xaa]⟩, []⟩,
          ⟨⟨0, 0, TransferFlag.finish.code, [0xbb, 0xcc]⟩, [0x03]⟩]) 0 =
      ([(9, partRequest 1 0 .firstPart 0), (9, partRequest 1 5 .nextPart 7)],
        .ok ⟨⟨1, 1, 2, 7, 3⟩, [0xaa, 0xbb, 0xcc], 0⟩) := by
  have harrives : Record.Arrives {} ⟨⟨1, 1, 2, 7, 3⟩, [0xaa, 0xbb, 0xcc], 0⟩
      [⟨⟨0, 5, TransferFlag.start.code, [1, 0, 0, 0, 1, 2, 7, 0, 3, 0, 0xaa]⟩, []⟩,
        ⟨⟨0, 0, TransferFlag.finish.code, [0xbb, 0xcc]⟩, [0x03]⟩] := by
    constructor <;> decide +kernel
  exact (getRecord_accepts_exactly {} 9 1 _ _).2 _ harrives (Arrival.brought_answers (by decide))

end Repository

end PlatformMessaging
