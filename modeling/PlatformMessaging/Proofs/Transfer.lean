import PlatformMessaging.Proofs.Dialogue
import PlatformMessaging.Transfer.Assembly
import Mathlib.Tactic.Common

/-!
# Which transfers are accepted

`PartSource.retrieve` accepts exactly the transfers whose parts are well formed (`Part.Complete`):
one part flagged as start and end, or a start, any number of middles and an end; no part but the
last empty or without the handle of the next; all parts together within the size limit, and not more
parts than the limit allows. What it returns is then their concatenation.

The proof follows the loop. `Assembly.add` is characterised once for parts that end a record
(`add_eq_complete`) and once for parts that leave it open (`add_eq_more`). `Part.Goes`
says of the parts from a position of the loop on that they leave the record open: it recurses as the
loop does, and from the start it is `Part.Incomplete` (`goes_zero`).
-/

namespace PlatformMessaging

/-! ## Well-formed transfers -/

namespace TransferFlag

/-- The flags of the first parts of a record of which more is to come. -/
def opening : Nat → List TransferFlag
  | 0 => []
  | n + 1 => start :: List.replicate n middle

/-- The flags of a record in a given number of parts. -/
def sequence : Nat → List TransferFlag
  | 0 => []
  | 1 => [startAndEnd]
  | n + 2 => opening (n + 1) ++ [finish]

/-- The flag of the part of a given number, counted from zero, that is the last or not. -/
def ofPosition (number : Nat) (last : Bool) : TransferFlag :=
  match number, last with
  | 0, true => startAndEnd
  | 0, false => start
  | _ + 1, true => finish
  | _ + 1, false => middle

theorem ofByte_eq_ok {b : UInt8} {f : TransferFlag} : ofByte b = .ok f ↔ b = f.code := by
  constructor
  · intro h
    unfold ofByte at h
    split at h
    · rename_i g hg
      obtain rfl := Except.ok.inj h
      have hcode := List.find?_some hg
      simpa [eq_comm] using hcode
    · cases h
  · rintro rfl
    exact ofByte_code f

theorem eq_ofPosition {f : TransferFlag} {number : Nat} {last : Bool} :
    f = ofPosition number last ↔ f.isStart = (number == 0) ∧ f.isEnd = last := by
  cases number <;> cases last <;> cases f <;> simp [ofPosition, isStart, isEnd]

theorem opening_eq (n : Nat) :
    opening n = (List.range' 0 n).map (.ofPosition · false) := by
  cases n with
  | zero => rfl
  | succ n =>
    simp only [opening, List.range'_succ, List.map_cons]
    refine congrArg (List.cons _) (List.eq_replicate_iff.2 ⟨by simp, ?_⟩).symm
    intro f hf
    obtain ⟨i, hi, rfl⟩ := List.mem_map.1 hf
    obtain ⟨k, -, rfl⟩ := List.mem_range'.1 hi
    rw [Nat.zero_add, Nat.one_mul, Nat.add_comm]
    rfl

end TransferFlag

namespace Part

/-- A whole record, in order: every part but the last brings data and tells the handle of the next,
and all of them fit the size limit. -/
structure Complete (maxSize : Nat) (parts : List Part) : Prop where
  nonempty : parts ≠ []
  flags : parts.map flag = TransferFlag.sequence parts.length
  linked : ∀ p ∈ parts.dropLast, p.data ≠ [] ∧ p.nextHandle ≠ 0
  size : (parts.flatMap data).length ≤ maxSize

/-- The first parts of a record of which more is to come, in order and without fault. -/
structure Incomplete (maxSize : Nat) (parts : List Part) : Prop where
  flags : parts.map flag = TransferFlag.opening parts.length
  linked : ∀ p ∈ parts, p.data ≠ [] ∧ p.nextHandle ≠ 0
  size : (parts.flatMap data).length ≤ maxSize

/-- The handles and operations under which parts are asked for: the first part under the given ones,
each later one under the handle that came with the part before it. -/
def calls (handle : UInt32) (operation : TransferOperation) :
    List Part → List (UInt32 × TransferOperation)
  | [] => []
  | p :: rest => (handle, operation) :: calls p.nextHandle .nextPart rest

end Part

namespace PartSource

variable {s : Type}

/-- An exchange without fault: each call is made into a request, the answer to it (from the given
position on) is a successful response, and that is read as a part. The state of the source goes from
one to the next. -/
inductive Exchange (source : PartSource s) (answers : Nat → Except RequestError Response) :
    Nat → s → List (UInt32 × TransferOperation) → List Request → List Part → s → Prop
  | nil {n : Nat} {state : s} : Exchange source answers n state [] [] [] state
  | cons {n : Nat} {state asked told after : s} {handle : UInt32} {operation : TransferOperation}
      {request : Request} {r : Response} {part : Part} {calls : List (UInt32 × TransferOperation)}
      {requests : List Request} {parts : List Part}
      (hrequest : source.request handle operation state = (.ok request, asked))
      (hanswer : answers n = .ok r) (hcode : r.code = CompletionCode.success.code)
      (hdecode : source.decode r asked = (.ok part, told))
      (rest : Exchange source answers (n + 1) told calls requests parts after) :
      Exchange source answers n state ((handle, operation) :: calls) (request :: requests)
        (part :: parts) after

/-- A transfer that is accepted: its parts, the requests for them and the state that they leave. -/
structure Accepts (source : PartSource s) (policy : Policy)
    (answers : Nat → Except RequestError Response) (state : s) (parts : List Part)
    (requests : List Request) (after : s) : Prop where
  few : parts.length ≤ policy.maxParts
  complete : Part.Complete policy.maxRecordSize parts
  exchange :
    source.Exchange answers 0 state (Part.calls 0 .firstPart parts) requests parts after

/-- The first `count` responses bring the first parts of a record, without fault. -/
def Underway (source : PartSource s) (maxSize : Nat) (state : s)
    (answers : Nat → Except RequestError Response) (count : Nat) : Prop :=
  ∃ parts requests after, parts.length = count ∧ Part.Incomplete maxSize parts ∧
    source.Exchange answers 0 state (Part.calls 0 .firstPart parts) requests parts after

end PartSource

/-! ## One part -/

namespace Assembly

variable {maxSize number : Nat} {received record : Bytes} {p : Part}

theorem add_eq_complete :
    add maxSize number received p = .ok (.complete record) ↔
      p.flag = .ofPosition number true ∧ received.length + p.data.length ≤ maxSize ∧
        record = received ++ p.data := by
  rw [TransferFlag.eq_ofPosition]
  unfold add
  split_ifs with hstart hempty hsize hend hnext
  · simp [hstart]
  · simp [hempty.1]
  · simp only [false_iff]
    omega
  · simp only [Except.ok.injEq, complete.injEq, not_not.1 hstart, hend, true_and]
    exact ⟨fun h => ⟨by omega, h.symm⟩, fun h => h.2.symm⟩
  · simp [hend]
  · simp [hend]

theorem add_eq_more {handle : UInt32} :
    add maxSize number received p = .ok (.more record handle) ↔
      p.flag = .ofPosition number false ∧ p.data ≠ [] ∧ p.nextHandle ≠ 0 ∧
        received.length + p.data.length ≤ maxSize ∧ record = received ++ p.data ∧
        handle = p.nextHandle := by
  rw [TransferFlag.eq_ofPosition]
  unfold add
  split_ifs with hstart hempty hsize hend hnext
  · simp [hstart]
  · simp [hempty.2]
  · simp only [false_iff]
    omega
  · simp [hend]
  · simp [hnext]
  · simp only [Except.ok.injEq, more.injEq, not_not.1 hstart, true_and]
    have hflag : p.flag.isEnd = false := by simpa using hend
    have hdata : p.data ≠ [] := fun h => hempty ⟨hflag, h⟩
    exact ⟨fun ⟨hrecord, hhandle⟩ =>
        ⟨hflag, hdata, hnext, by omega, hrecord.symm, hhandle.symm⟩,
      fun ⟨_, _, _, _, hrecord, hhandle⟩ => ⟨hrecord.symm, hhandle.symm⟩⟩

end Assembly

namespace PartSource

variable {s : Type} {source : PartSource s} {maxSize number : Nat} {received : Bytes}

theorem receive_eq_ok {state told : s} {answer : Except RequestError Response} {a : Assembly} :
    source.receive maxSize number received state answer = (.ok a, told) ↔
      ∃ r part, answer = .ok r ∧ r.code = CompletionCode.success.code ∧
        source.decode r state = (.ok part, told) ∧
        Assembly.add maxSize number received part = .ok a := by
  unfold receive
  cases answer with
  | error e => simp
  | ok r =>
    by_cases hcode : r.code = CompletionCode.success.code
    · cases hdecode : source.decode r state with
      | mk part told' => cases part <;> simp [hcode, hdecode, and_comm]
    · simp [hcode]

end PartSource

/-! ## The rest of a transfer -/

namespace Part

variable {maxSize number size : Nat} {parts : List Part}

/-- The parts, from the one of the given number on, leave a record open of which `size` bytes came
before them. -/
def Goes (maxSize : Nat) : Nat → Nat → List Part → Prop
  | _, _, [] => True
  | number, size, p :: rest =>
    (p.flag = .ofPosition number false ∧ p.data ≠ [] ∧ p.nextHandle ≠ 0 ∧
      size + p.data.length ≤ maxSize) ∧ Goes maxSize (number + 1) (size + p.data.length) rest

theorem goes_iff (h : size ≤ maxSize) :
    Goes maxSize number size parts ↔
      parts.map flag = (List.range' number parts.length).map (.ofPosition · false) ∧
        (∀ p ∈ parts, p.data ≠ [] ∧ p.nextHandle ≠ 0) ∧
        size + (parts.flatMap data).length ≤ maxSize := by
  induction parts generalizing number size with
  | nil => simp [Goes, h]
  | cons p rest ih =>
    simp only [Goes, List.map_cons, List.length_cons, List.range'_succ, List.cons.injEq,
      List.forall_mem_cons, List.flatMap_cons, List.length_append]
    constructor
    · rintro ⟨⟨hflag, hdata, hnext, hsize⟩, hrest⟩
      obtain ⟨hflags, hlinked, hall⟩ := (ih hsize).1 hrest
      exact ⟨⟨hflag, hflags⟩, ⟨⟨hdata, hnext⟩, hlinked⟩, by omega⟩
    · rintro ⟨⟨hflag, hflags⟩, ⟨⟨hdata, hnext⟩, hlinked⟩, hall⟩
      have hsize : size + p.data.length ≤ maxSize := by omega
      exact ⟨⟨hflag, hdata, hnext, hsize⟩, (ih hsize).2 ⟨hflags, hlinked, by omega⟩⟩

theorem goes_zero : Goes maxSize 0 0 parts ↔ Incomplete maxSize parts := by
  rw [goes_iff (Nat.zero_le _), ← TransferFlag.opening_eq, Nat.zero_add]
  exact ⟨fun ⟨hflags, hlinked, hsize⟩ => ⟨hflags, hlinked, hsize⟩,
    fun h => ⟨h.flags, h.linked, h.size⟩⟩

theorem complete_append {last : Part} :
    Complete maxSize (parts ++ [last]) ↔
      Goes maxSize 0 0 parts ∧ last.flag = .ofPosition parts.length true ∧
        (parts.flatMap data).length + last.data.length ≤ maxSize := by
  have hflags : (parts ++ [last]).map flag = TransferFlag.sequence (parts ++ [last]).length ↔
      parts.map flag = TransferFlag.opening parts.length ∧
        last.flag = .ofPosition parts.length true := by
    cases parts with
    | nil => simp [TransferFlag.sequence, TransferFlag.opening, TransferFlag.ofPosition]
    | cons p rest =>
      simp only [List.map_append, List.map_cons, List.map_nil, List.length_append, List.length_cons,
        List.length_nil, TransferFlag.sequence, TransferFlag.ofPosition]
      constructor
      · intro h
        obtain ⟨hinit, hlast⟩ := List.append_inj' h rfl
        exact ⟨hinit, by simpa using hlast⟩
      · rintro ⟨hinit, hlast⟩
        rw [hinit, hlast]
  rw [goes_zero]
  constructor
  · intro h
    obtain ⟨hinit, hlast⟩ := hflags.1 h.flags
    have hsize := h.size
    simp only [List.flatMap_append, List.flatMap_singleton, List.length_append] at hsize
    exact ⟨⟨hinit, by simpa using h.linked, by omega⟩, hlast, hsize⟩
  · rintro ⟨hinit, hlast, hsize⟩
    exact ⟨by simp, hflags.2 ⟨hinit.flags, hlast⟩, by simpa using hinit.linked, by simpa using hsize⟩

end Part

/-! ## The loop -/

namespace PartSource

variable {s : Type} {source : PartSource s} {answers : Nat → Except RequestError Response}
  {maxSize : Nat} {eid : EndpointId} {left number : Nat} {received : Bytes} {handle : UInt32}
  {operation : TransferOperation} {state : s}

theorem play_retrieveFrom_of_refused {e : MessageError} {asked : s}
    (hrequest : source.request handle operation state = (.error e, asked)) :
    (source.retrieveFrom maxSize eid (left + 1) number received handle operation state).play
      answers number = ([], .error (.messaging e), asked) := by
  simp [retrieveFrom, hrequest]

theorem play_retrieveFrom_of_error {request : Request} {asked told : s} {e : TransferError}
    (hrequest : source.request handle operation state = (.ok request, asked))
    (hreceive : source.receive maxSize number received asked (answers number) = (.error e, told)) :
    (source.retrieveFrom maxSize eid (left + 1) number received handle operation state).play answers
      number = ([(eid, request)], .error e, told) := by
  simp [retrieveFrom, hrequest, Dialogue.play_ask, hreceive]

theorem play_retrieveFrom_of_complete {request : Request} {asked told : s} {record : Bytes}
    (hrequest : source.request handle operation state = (.ok request, asked))
    (hreceive : source.receive maxSize number received asked (answers number) =
      (.ok (.complete record), told)) :
    (source.retrieveFrom maxSize eid (left + 1) number received handle operation state).play answers
      number = ([(eid, request)], .ok record, told) := by
  simp [retrieveFrom, hrequest, Dialogue.play_ask, hreceive]

theorem play_retrieveFrom_of_more {request : Request} {asked told : s} {so : Bytes} {next : UInt32}
    (hrequest : source.request handle operation state = (.ok request, asked))
    (hreceive : source.receive maxSize number received asked (answers number) =
      (.ok (.more so next), told)) :
    (source.retrieveFrom maxSize eid (left + 1) number received handle operation state).play answers
        number =
      let rest := (source.retrieveFrom maxSize eid left (number + 1) so next .nextPart told).play
        answers (number + 1)
      ((eid, request) :: rest.1, rest.2) := by
  simp [retrieveFrom, hrequest, Dialogue.play_ask, hreceive]

theorem play_retrieveFrom_of_exchange {parts : List Part} {last : Part} {requests : List Request}
    {after : s} (hleft : parts.length < left) (hgoes : Part.Goes maxSize number received.length parts)
    (hflag : last.flag = .ofPosition (number + parts.length) true)
    (hsize : received.length + (parts.flatMap Part.data).length + last.data.length ≤ maxSize)
    (h : source.Exchange answers number state (Part.calls handle operation (parts ++ [last]))
      requests (parts ++ [last]) after) :
    (source.retrieveFrom maxSize eid left number received handle operation state).play answers
        number =
      (requests.map (Prod.mk eid), .ok (received ++ (parts ++ [last]).flatMap Part.data), after) := by
  induction left generalizing number received handle operation state parts requests with
  | zero => omega
  | succ left ih =>
    cases parts with
    | nil =>
      simp only [List.nil_append, Part.calls] at h
      rcases h with _ | ⟨hrequest, hanswer, hcode, hdecode, rest⟩
      cases rest
      have hadd : Assembly.add maxSize number received last =
          .ok (.complete (received ++ last.data)) :=
        Assembly.add_eq_complete.2 ⟨hflag, by simpa using hsize, rfl⟩
      rw [play_retrieveFrom_of_complete hrequest
        (receive_eq_ok.2 ⟨_, _, hanswer, hcode, hdecode, hadd⟩)]
      simp
    | cons p rest =>
      simp only [List.cons_append, Part.calls] at h
      rcases h with _ | ⟨hrequest, hanswer, hcode, hdecode, hrest⟩
      obtain ⟨⟨hpflag, hdata, hnext, hpsize⟩, hgoes⟩ := hgoes
      have hadd : Assembly.add maxSize number received p =
          .ok (.more (received ++ p.data) p.nextHandle) :=
        Assembly.add_eq_more.2 ⟨hpflag, hdata, hnext, hpsize, rfl, rfl⟩
      simp only [List.length_cons] at hleft hflag
      simp only [List.flatMap_cons, List.length_append] at hsize
      have hgoes : Part.Goes maxSize (number + 1) (received ++ p.data).length rest := by
        simpa using hgoes
      rw [play_retrieveFrom_of_more hrequest
        (receive_eq_ok.2 ⟨_, _, hanswer, hcode, hdecode, hadd⟩)]
      rw [ih (by omega) hgoes (by rw [hflag]; congr 1; omega)
        (by simp only [List.length_append]; omega) hrest]
      simp

theorem exists_exchange_of_play {record : Bytes}
    (h : ((source.retrieveFrom maxSize eid left number received handle operation state).play answers
      number).2.1 = .ok record) :
    ∃ parts last requests after, parts.length < left ∧
      Part.Goes maxSize number received.length parts ∧
      last.flag = .ofPosition (number + parts.length) true ∧
      received.length + (parts.flatMap Part.data).length + last.data.length ≤ maxSize ∧
      source.Exchange answers number state (Part.calls handle operation (parts ++ [last])) requests
        (parts ++ [last]) after ∧
      record = received ++ (parts ++ [last]).flatMap Part.data := by
  -- On the parts that may still come; what was received goes along as `received`.
  induction left generalizing number received handle operation state with
  | zero => simp [retrieveFrom] at h
  | succ left ih =>
    rcases hrequest : source.request handle operation state with ⟨e | request, asked⟩
    · rw [play_retrieveFrom_of_refused hrequest] at h
      cases h
    · rcases hreceive : source.receive maxSize number received asked (answers number) with
        ⟨e | a, told⟩
      · rw [play_retrieveFrom_of_error hrequest hreceive] at h
        cases h
      · obtain ⟨r, p, hanswer, hcode, hdecode, hadd⟩ := receive_eq_ok.1 hreceive
        cases a with
        | complete whole =>
          obtain ⟨hflag, hsize, rfl⟩ := Assembly.add_eq_complete.1 hadd
          rw [play_retrieveFrom_of_complete hrequest hreceive] at h
          cases h
          exact ⟨[], p, [request], told, by simp, trivial, hflag, by simpa using hsize,
            .cons hrequest hanswer hcode hdecode .nil, by simp⟩
        | more so next =>
          obtain ⟨hflag, hdata, hnext, hsize, rfl, rfl⟩ := Assembly.add_eq_more.1 hadd
          rw [play_retrieveFrom_of_more hrequest hreceive] at h
          obtain ⟨parts, last, requests, after, hlen, hgoes, hlast, hall, hrest, rfl⟩ := ih h
          simp only [List.length_append] at hgoes hall
          refine ⟨p :: parts, last, request :: requests, after, by simpa using hlen,
            ⟨⟨hflag, hdata, hnext, hsize⟩, hgoes⟩, ?_, ?_,
            .cons hrequest hanswer hcode hdecode hrest, by simp⟩
          · rw [hlast, List.length_cons]
            congr 1
            omega
          · simp only [List.flatMap_cons, List.length_append]
            omega

theorem goes_of_lt_length_play {count : Nat}
    (h : count < ((source.retrieveFrom maxSize eid left number received handle operation
      state).play answers number).1.length) :
    ∃ parts requests after, parts.length = count ∧ Part.Goes maxSize number received.length parts ∧
      source.Exchange answers number state (Part.calls handle operation parts) requests parts
        after := by
  induction left generalizing number received handle operation state count with
  | zero => simp [retrieveFrom] at h
  | succ left ih =>
    cases count with
    | zero => exact ⟨[], [], state, rfl, trivial, .nil⟩
    | succ count =>
      rcases hrequest : source.request handle operation state with ⟨e | request, asked⟩
      · rw [play_retrieveFrom_of_refused hrequest] at h
        simp at h
      · rcases hreceive : source.receive maxSize number received asked (answers number) with
          ⟨_ | _ | ⟨so, next⟩, told⟩
        · rw [play_retrieveFrom_of_error hrequest hreceive] at h
          simp at h
        · rw [play_retrieveFrom_of_complete hrequest hreceive] at h
          simp at h
        · rw [play_retrieveFrom_of_more hrequest hreceive] at h
          obtain ⟨r, p, hanswer, hcode, hdecode, hadd⟩ := receive_eq_ok.1 hreceive
          obtain ⟨hflag, hdata, hnext, hsize, rfl, rfl⟩ := Assembly.add_eq_more.1 hadd
          obtain ⟨parts, requests, after, rfl, hgoes, hrest⟩ := ih (Nat.succ_lt_succ_iff.1 h)
          rw [List.length_append] at hgoes
          exact ⟨p :: parts, request :: requests, after, rfl,
            ⟨⟨hflag, hdata, hnext, hsize⟩, hgoes⟩, .cons hrequest hanswer hcode hdecode hrest⟩

theorem length_play_retrieveFrom_le :
    ((source.retrieveFrom maxSize eid left number received handle operation state).play answers
      number).1.length ≤ left := by
  induction left generalizing number received handle operation state with
  | zero => simp [retrieveFrom]
  | succ left ih =>
    rcases hrequest : source.request handle operation state with ⟨e | request, asked⟩
    · rw [play_retrieveFrom_of_refused hrequest]
      simp
    · rcases hreceive : source.receive maxSize number received asked (answers number) with
        ⟨_ | _ | ⟨so, next⟩, told⟩
      · simp [play_retrieveFrom_of_error hrequest hreceive]
      · simp [play_retrieveFrom_of_complete hrequest hreceive]
      · simpa [play_retrieveFrom_of_more hrequest hreceive] using ih

theorem play_retrieve_of_accepts {policy : Policy} {parts : List Part} {requests : List Request}
    {after : s} (h : source.Accepts policy answers state parts requests after) :
    (source.retrieve policy eid state).play answers 0 =
      (requests.map (Prod.mk eid), .ok (parts.flatMap Part.data), after) := by
  have hparts := List.dropLast_concat_getLast h.complete.nonempty
  have hcomplete := h.complete
  rw [← hparts] at hcomplete
  obtain ⟨hgoes, hflag, hsize⟩ := Part.complete_append.1 hcomplete
  have hexchange := h.exchange
  rw [← hparts] at hexchange
  have hpos := List.length_pos_iff.2 h.complete.nonempty
  have hleft : parts.dropLast.length < policy.maxParts := by
    have := h.few
    rw [List.length_dropLast]
    omega
  rw [retrieve, play_retrieveFrom_of_exchange hleft hgoes (by simpa using hflag)
    (by simpa using hsize) hexchange, List.nil_append, hparts]

theorem exists_accepts_of_play {policy : Policy} {record : Bytes}
    (h : ((source.retrieve policy eid state).play answers 0).2.1 = .ok record) :
    ∃ parts requests after, source.Accepts policy answers state parts requests after ∧
      record = parts.flatMap Part.data := by
  obtain ⟨parts, last, requests, after, hleft, hgoes, hflag, hsize, hexchange, rfl⟩ :=
    exists_exchange_of_play h
  refine ⟨parts ++ [last], requests, after, ⟨?_, ?_, hexchange⟩, rfl⟩
  · rw [List.length_append]
    exact hleft
  · exact Part.complete_append.2 ⟨hgoes, by simpa using hflag, by simpa using hsize⟩

/-- **Exactly the well-formed transfers are accepted.** A retrieval returns a record iff its
responses make an accepted transfer: for some number of parts within the limit, that many responses
come first, are successful and are read as the parts of a whole record. The record is then made of
the parts in order, and what was asked is the requests for them, the first under handle zero and
each later one under the handle that came before it (`Part.calls`). Otherwise it ends with an error.
Nothing is asked once a response has been at fault or has ended the record, and never more than the
limit of parts. -/
theorem retrieve_accepts_exactly (source : PartSource s) (policy : Policy) (eid : EndpointId)
    (state : s) (answers : Nat → Except RequestError Response) :
    (∀ record, ((source.retrieve policy eid state).play answers 0).2.1 = .ok record ↔
      ∃ parts requests after, source.Accepts policy answers state parts requests after ∧
        record = parts.flatMap Part.data) ∧
    (∀ parts requests after, source.Accepts policy answers state parts requests after →
      (source.retrieve policy eid state).play answers 0 =
        (requests.map (Prod.mk eid), .ok (parts.flatMap Part.data), after)) ∧
    ((¬∃ parts requests after, source.Accepts policy answers state parts requests after) →
      ∃ e, ((source.retrieve policy eid state).play answers 0).2.1 = .error e) ∧
    (∀ count < ((source.retrieve policy eid state).play answers 0).1.length,
      source.Underway policy.maxRecordSize state answers count) ∧
    ((source.retrieve policy eid state).play answers 0).1.length ≤ policy.maxParts := by
  refine ⟨fun record => ⟨exists_accepts_of_play, ?_⟩, fun _ _ _ => play_retrieve_of_accepts, ?_, ?_,
    length_play_retrieveFrom_le⟩
  · rintro ⟨parts, requests, after, haccepts, rfl⟩
    rw [play_retrieve_of_accepts haccepts]
  · intro hnone
    rcases hresult : ((source.retrieve policy eid state).play answers 0).2.1 with e | record
    · exact ⟨e, rfl⟩
    · obtain ⟨parts, requests, after, haccepts, -⟩ := exists_accepts_of_play hresult
      exact absurd ⟨parts, requests, after, haccepts⟩ hnone
  · intro count hcount
    obtain ⟨parts, requests, after, rfl, hgoes, hexchange⟩ := goes_of_lt_length_play hcount
    exact ⟨parts, requests, after, rfl, Part.goes_zero.1 hgoes, hexchange⟩

end PartSource

end PlatformMessaging
