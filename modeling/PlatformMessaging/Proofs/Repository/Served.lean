import PlatformMessaging.Proofs.Repository.Walk
import PlatformMessaging.Proofs.Requester.Alone

/-!
# Walks of a repository that is served

A terminus `Serves` a record if its answers to the requests for the parts bring these. It `Offers` a
repository if it serves each record under its handle, the first one under handle zero, and each record
tells the handle of the next.

Along such a repository a walk retrieves the records one after another (`answered_walkFrom`, by
induction on them), and so a requester at rest ends with exactly these records, as far as the limit
allows and unless the last one leads back to one of them (`getRepository_retrieves_exactly`).
-/

namespace PlatformMessaging.Repository

/-- The requests for the parts of a record are answered with them. -/
def Serves (f : Terminus) (policy : Policy) (eid : EndpointId) (handle : UInt32)
    (record : Record) : Prop :=
  ∃ parts, record.Arrives policy parts ∧
    List.Forall₂ (fun request a => a.ReadFrom (.ok (f.response eid 0 request)))
      (record.requests handle parts) parts

/-- A repository with the given records, the last of which tells a given handle as the next. -/
structure Offers (f : Terminus) (policy : Policy) (eid : EndpointId) (records : List Record)
    (last : UInt32) : Prop where
  nonempty : records ≠ []
  distinct : (records.map Record.handle).Nodup
  nonzero : ∀ r ∈ records, r.handle ≠ 0
  linked : records.map Record.nextRecordHandle = (records.map Record.handle).tail ++ [last]
  first : ∀ r ∈ records.head?, Serves f policy eid 0 r
  served : ∀ r ∈ records.tail, Serves f policy eid r.handle r

/-- What a walk with room for so many records comes to along records, after those that it has. -/
def outcome (left : Nat) (before records : List Record) (last : UInt32) :
    Except TransferError (List Record) :=
  if left < records.length then .error .overflow
  else if last = 0 then .ok (before ++ records)
  else .error (.violation (.repeatedHandle last))

section

variable {f : Terminus} {policy : Policy} {eid : EndpointId}

/-! ## Records that are served -/

theorem Record.typ_of_mem_requests {record : Record} {handle : UInt32} {parts : List Arrival}
    {request : Request} (h : request ∈ record.requests handle parts) : request.typ = messageType := by
  unfold requests laterRequests at h
  rcases List.mem_cons.1 h with rfl | h
  · rfl
  · obtain ⟨a, -, rfl⟩ := List.mem_map.1 h
    rfl

theorem Serves.answered {handle : UInt32} {record : Record} (h : Serves f policy eid handle record) :
    (getRecord policy eid handle).Answered f (.ok record) := by
  obtain ⟨parts, harrives, hserved⟩ := h
  have hanswer : ∀ i request, (record.requests handle parts)[i]? = some request →
      Dialogue.given ((record.requests handle parts).map fun r => .ok (f.response eid 0 r)) i =
        .ok (f.response eid 0 request) := by
    intro i request hi
    simp [Dialogue.given, hi]
  have hbrought : Arrival.Brought
      (Dialogue.given ((record.requests handle parts).map fun r => .ok (f.response eid 0 r))) 0
      parts := by
    intro i a ha
    obtain ⟨hi, rfl⟩ := List.getElem?_eq_some_iff.1 ha
    have hi' : i < (record.requests handle parts).length := hserved.length_eq ▸ hi
    rw [Nat.zero_add, hanswer i _ (List.getElem?_eq_getElem hi')]
    exact hserved.get hi' hi
  have hplay : (getRecord policy eid handle).play _ 0 = _ :=
    play_getRecord_of_arrives eid harrives hbrought
  suffices hanswered : (getRecord policy eid handle).Answered f ((getRecord policy eid handle).play
      (Dialogue.given ((record.requests handle parts).map fun r => .ok (f.response eid 0 r))) 0).2 by
    rwa [hplay] at hanswered
  refine Dialogue.answered_play fun i eid' request hasked => ?_
  rw [hplay, List.getElem?_map] at hasked
  obtain ⟨request', hrequest, heq⟩ := Option.map_eq_some_iff.1 hasked
  obtain ⟨rfl, rfl⟩ := Prod.mk.inj heq
  refine ⟨?_, 0, ?_⟩
  · rw [Record.typ_of_mem_requests (List.mem_of_getElem? hrequest)]
    decide
  · rw [Nat.zero_add, hanswer i _ hrequest]
    rfl

theorem outcome_cons (left : Nat) (before : List Record) (r : Record) (rest : List Record)
    (last : UInt32) :
    outcome (left + 1) before (r :: rest) last = outcome left (before ++ [r]) rest last := by
  simp [outcome]

/-! ## Walking along records that are served -/

/-- A walk along records that are served, each under the handle that the one before it tells. The
induction is on the records after the first; `seen` has the handles of those that the walk has. -/
theorem answered_walkFrom {left : Nat} {before : List Record} {seen : List UInt32} {handle : UInt32}
    {record : Record} {rest : List Record} {last : UInt32}
    (hfirst : Serves f policy eid handle record)
    (hserved : ∀ r ∈ rest, Serves f policy eid r.handle r)
    (hnonzero : ∀ r ∈ rest, r.handle ≠ 0) (hunseen : ∀ r ∈ rest, r.handle ∉ seen)
    (hdistinct : ((record :: rest).map Record.handle).Nodup)
    (hlinked : (record :: rest).map Record.nextRecordHandle = rest.map Record.handle ++ [last])
    (hlast : last = 0 ∨ last ∈ (record :: rest).map Record.handle ∨ last ∈ seen) :
    (walkFrom policy eid left before.reverse seen handle).Answered f
      (outcome left before (record :: rest) last) := by
  -- By induction on the records ahead; those behind are in `before`, their handles in `seen`.
  induction rest generalizing left before seen handle record with
  | nil =>
    obtain rfl : record.nextRecordHandle = last := by simpa using hlinked
    cases left with
    | zero => exact .done _
    | succ left =>
      refine hfirst.answered.andThen ?_
      have hroom : ¬left + 1 < [record].length := by simp
      dsimp only
      unfold outcome
      rw [if_neg hroom]
      by_cases hzero : record.nextRecordHandle = 0
      · rw [if_pos hzero, if_pos hzero, List.reverse_cons, List.reverse_reverse]
        exact .done _
      · have hseen : record.nextRecordHandle ∈ record.header.recordHandle :: seen := by
          simpa [hzero, Record.handle] using hlast
        rw [if_neg hzero, if_neg hzero, if_pos hseen]
        exact .done _
  | cons r rest ih =>
    obtain ⟨hnext, hlinked⟩ := List.cons.inj hlinked
    obtain ⟨hserves, hserved⟩ := List.forall_mem_cons.1 hserved
    obtain ⟨hzero, hnonzero⟩ := List.forall_mem_cons.1 hnonzero
    obtain ⟨hr, hunseen⟩ := List.forall_mem_cons.1 hunseen
    obtain ⟨hnew, hdistinct⟩ := List.nodup_cons.1 hdistinct
    cases left with
    | zero => exact .done _
    | succ left =>
      refine hfirst.answered.andThen ?_
      have hne : ∀ x ∈ r :: rest, x.handle ≠ record.handle :=
        fun x hx heq => hnew (heq ▸ List.mem_map_of_mem hx)
      have hgoes : r.handle ∉ record.header.recordHandle :: seen :=
        List.not_mem_cons_of_ne_of_not_mem (hne r List.mem_cons_self) hr
      have hunseen' : ∀ x ∈ rest, x.handle ∉ record.handle :: seen := fun x hx =>
        List.not_mem_cons_of_ne_of_not_mem (hne x (List.mem_cons_of_mem r hx)) (hunseen x hx)
      -- From the next record on, the handle of this one is among those seen.
      have hback : last = 0 ∨ last ∈ (r :: rest).map Record.handle ∨
          last ∈ record.handle :: seen := by
        rcases hlast with hlast | hlast | hlast
        · exact .inl hlast
        · rcases List.mem_cons.1 hlast with rfl | hlast
          · exact .inr (.inr List.mem_cons_self)
          · exact .inr (.inl hlast)
        · exact .inr (.inr (List.mem_cons_of_mem _ hlast))
      have hwalk : (walkFrom policy eid left (before ++ [record]).reverse (record.handle :: seen)
          r.handle).Answered f (outcome left (before ++ [record]) (r :: rest) last) :=
        ih hserves hserved hnonzero hunseen' hdistinct hlinked hback
      dsimp only
      rw [outcome_cons, hnext, if_neg hzero, if_neg hgoes, ← List.reverse_concat]
      exact hwalk

theorem Offers.answered {records : List Record} {last : UInt32}
    (h : Offers f policy eid records last)
    (hlast : last = 0 ∨ last ∈ records.map Record.handle) :
    (getRepository policy eid).Answered f (outcome maxRecords [] records last) := by
  obtain ⟨record, rest, rfl⟩ := List.exists_cons_of_ne_nil h.nonempty
  have hlast' : last = 0 ∨ last ∈ (record :: rest).map Record.handle ∨ last ∈ [] :=
    hlast.imp_right Or.inl
  have hwalk : (walkFrom policy eid maxRecords ([] : List Record).reverse [] 0).Answered f
      (outcome maxRecords [] (record :: rest) last) :=
    answered_walkFrom (h.first record rfl) h.served
      (fun r hr => h.nonzero r (List.mem_cons_of_mem record hr)) (by simp) h.distinct h.linked hlast'
  exact hwalk

/-! ## How much is asked -/

theorem Trail.exists_retrievals {answers : Nat → Except RequestError Response}
    {trail : List Retrieval} {requests : List (EndpointId × Request)} {next : UInt32}
    (h : Trail policy eid answers trail requests next) :
    ∃ retrievals : List (UInt32 × Nat), retrievals.length = trail.length ∧
      requests = retrievals.flatMap fun p => ((getRecord policy eid p.1).play answers p.2).1 := by
  induction h with
  | start => exact ⟨[], rfl, rfl⟩
  | @next trail requests asked handle record _ hplay ih =>
    obtain ⟨retrievals, hlength, hrequests⟩ := ih
    refine ⟨retrievals ++ [(handle, requests.length)], ?_, ?_⟩
    · rw [List.length_append, List.length_append, hlength]
      rfl
    · rw [List.flatMap_append, List.flatMap_singleton, hplay, hrequests]

end

theorem exists_retrievals (policy : Policy) (eid : EndpointId)
    (answers : Nat → Except RequestError Response) :
    ∃ retrievals : List (UInt32 × Nat), retrievals.length ≤ maxRecords ∧
      ((getRepository policy eid).play answers 0).1 =
        retrievals.flatMap fun p => ((getRecord policy eid p.1).play answers p.2).1 := by
  obtain ⟨trail, requests, next, htrail, -, hlength, hends⟩ := exists_trail policy eid answers
  obtain ⟨retrievals, heq, hrequests⟩ := htrail.exists_retrievals
  generalize (getRepository policy eid).play answers 0 = played at hends ⊢
  cases hends with
  | complete | repeats | full => exact ⟨retrievals, heq ▸ hlength, hrequests⟩
  | fails hfew _ _ hplay =>
    refine ⟨retrievals ++ [(next, requests.length)], ?_, ?_⟩
    · rw [List.length_append, heq]
      exact hfew
    · rw [List.flatMap_append, List.flatMap_singleton, hplay, hrequests]

/-! ## The result -/

/-- **Exactly the repository is retrieved.** If a terminus offers a repository, in any parts, a
requester at rest ends a walk of it with its records in order, if the last one tells that there are no
more; with a violation, if it leads back to one of them; and with an overflow, if there are more than
the limit allows. Whatever is answered, a walk asks for no more records than that. -/
theorem getRepository_retrieves_exactly {ι : Type} (policy : Policy) (eid : EndpointId) :
    (∀ f records last, Offers f policy eid records last →
      ∀ q : Requester Outbox ι, q.Idle policy →
        (last = 0 → records.length ≤ maxRecords → ∀ result,
          q.EndsAlone f (.ready (getRepository policy eid)) result ↔ result = .ok records) ∧
        (last = 0 → maxRecords < records.length → ∀ result,
          q.EndsAlone f (.ready (getRepository policy eid)) result ↔ result = .error .overflow) ∧
        (last ∈ records.map Record.handle → records.length ≤ maxRecords → ∀ result,
          q.EndsAlone f (.ready (getRepository policy eid)) result ↔
            result = .error (.violation (.repeatedHandle last)))) ∧
    ∀ answers, ∃ retrievals : List (UInt32 × Nat), retrievals.length ≤ maxRecords ∧
      ((getRepository policy eid).play answers 0).1 =
        retrievals.flatMap fun p => ((getRecord policy eid p.1).play answers p.2).1 := by
  refine ⟨fun f records last hoffers q hq => ?_, exists_retrievals policy eid⟩
  have hends : last = 0 ∨ last ∈ records.map Record.handle → ∀ result,
      q.EndsAlone f (.ready (getRepository policy eid)) result ↔
        result = outcome maxRecords [] records last := by
    intro hlast result
    obtain ⟨a, halone, hanswered⟩ := hq.exists_endsAlone f (getRepository policy eid)
    obtain rfl := hanswered.answered.unique (blind_walkFrom ..) (hoffers.answered hlast)
    exact ⟨fun h => h.unique halone, fun h => h ▸ halone⟩
  refine ⟨fun hlast hfew => ?_, fun hlast hmany => ?_, fun hback hfew => ?_⟩
  · rw [outcome, if_neg (Nat.not_lt.2 hfew), if_pos hlast] at hends
    exact hends (.inl hlast)
  · rw [outcome, if_pos hmany] at hends
    exact hends (.inl hlast)
  · obtain ⟨r, hr, rfl⟩ := List.mem_map.1 hback
    rw [outcome, if_neg (Nat.not_lt.2 hfew), if_neg (hoffers.nonzero r hr)] at hends
    exact hends (.inr hback)

/-- A terminus that brings parts out of a table, and has no other records. -/
def tabled (table : List (Request × Arrival)) : Terminus := fun _ typ cmd data =>
  match table.lookup ⟨typ, cmd, data⟩ with
  | some a => (CompletionCode.success.code, RecordResponse.layout.write a.response ++ a.rest)
  | none => (invalidRecordHandle, [])

theorem readFrom_tabled {table : List (Request × Arrival)} {request : Request} {a : Arrival}
    (h : table.lookup request = some a) (hlength : a.response.data.length < 2 ^ 16)
    (eid : EndpointId) : a.ReadFrom (.ok ((tabled table).response eid 0 request)) := by
  have hanswer : tabled table eid request.typ request.cmd request.data =
      (CompletionCode.success.code, RecordResponse.layout.write a.response ++ a.rest) := by
    unfold tabled
    rw [show (⟨request.typ, request.cmd, request.data⟩ : Request) = request from rfl, h]
  refine ⟨_, rfl, ?_, ?_⟩
  · rw [Terminus.response, hanswer]
  · rw [Terminus.response, hanswer]
    exact RecordResponse.decode_write hlength a.rest

/-- A repository of two records, the second of which comes in two parts and leads back to the
first. -/
theorem getRepository_retrieves_two_records :
    ∃ q : Requester Outbox Unit, Requester.create {} {} = .ok (q, []) ∧ ∀ result,
      q.EndsAlone (tabled
        [(partRequest 0 0 .firstPart 0, .bare 1 2),
          (partRequest 2 0 .firstPart 0,
            ⟨⟨1, 5, TransferFlag.start.code, [2, 0, 0, 0, 1, 2, 7, 0, 3, 0, 0xaa]⟩, []⟩),
          (partRequest 2 5 .nextPart 7, ⟨⟨1, 0, TransferFlag.finish.code, [0xbb, 0xcc]⟩, [0xb8]⟩)])
        (.ready (getRepository {} 8)) result ↔ result = .error (.violation (.repeatedHandle 1)) := by
  refine ⟨_, rfl, ?_⟩
  refine ((getRepository_retrieves_exactly {} 8).1 _
    [⟨⟨1, 1, 1, 0, 0⟩, [], 2⟩, ⟨⟨2, 1, 2, 7, 3⟩, [0xaa, 0xbb, 0xcc], 1⟩] 1 ?_ _
    (Requester.idle_create rfl)).2.2 (by decide) (by decide)
  refine ⟨by decide, by decide, by decide, by decide, ?_, ?_⟩
  · intro r hr
    obtain rfl := Option.some.inj hr
    refine ⟨[.bare 1 2], ?_, .cons (readFrom_tabled rfl (by decide) 8) .nil⟩
    constructor <;> decide +kernel
  · intro r hr
    obtain rfl := List.mem_singleton.1 hr
    refine ⟨[⟨⟨1, 5, TransferFlag.start.code, [2, 0, 0, 0, 1, 2, 7, 0, 3, 0, 0xaa]⟩, []⟩,
      ⟨⟨1, 0, TransferFlag.finish.code, [0xbb, 0xcc]⟩, [0xb8]⟩], ?_,
      .cons (readFrom_tabled rfl (by decide) 8) (.cons (readFrom_tabled rfl (by decide) 8) .nil)⟩
    constructor <;> decide +kernel

end PlatformMessaging.Repository
