import PlatformMessaging.Proofs.Repository.Record
import PlatformMessaging.Repository.Walk

/-!
# Where a walk goes

The records that a walk retrieves are a `Trail`: each is asked for under the handle that came with the
one before it. `WalkEnds` has the ways in which a walk ends after a trail.

A walk only follows a handle that no header of a record before it has (`Trail.Fresh`), and the first
handle that one has ends it (`getRepository_follows_unseen`). Handles that were asked for are not
compared. Where the headers have the handles under which their records are asked for, that comes to
the same: then no record is asked for twice, and every loop is told. Where they do not, a walk may be
led in a circle (`getRepository_asks_twice`).
-/

namespace PlatformMessaging.Repository

def Record.handle (r : Record) : UInt32 :=
  r.header.recordHandle

/-- A record that a walk retrieved, with the handle under which it was asked for. -/
structure Retrieval where
  asked : UInt32
  record : Record
  deriving DecidableEq

def Retrieval.handle (x : Retrieval) : UInt32 :=
  x.record.handle

/-- Records retrieved one after another, the first under handle zero and each later one under the
handle that came with the one before it; with all that was asked for them, and the handle that came
with the last. -/
inductive Trail (policy : Policy) (eid : EndpointId)
    (answers : Nat → Except RequestError Response) :
    List Retrieval → List (EndpointId × Request) → UInt32 → Prop
  | start : Trail policy eid answers [] [] 0
  | next {trail : List Retrieval} {requests asked : List (EndpointId × Request)} {handle : UInt32}
      {record : Record} (h : Trail policy eid answers trail requests handle)
      (hplay : (getRecord policy eid handle).play answers requests.length = (asked, .ok record)) :
      Trail policy eid answers (trail ++ [⟨handle, record⟩]) (requests ++ asked)
        record.nextRecordHandle

/-- Every handle that was followed is that of a record, and not that in the header of a record
before. -/
structure Trail.Fresh (trail : List Retrieval) : Prop where
  nonzero : ∀ x ∈ trail.tail, x.asked ≠ 0
  unseen : trail.Pairwise fun x y => y.asked ≠ x.handle

/-- How a walk ends after a trail: it is told that there are no more records, it is led back to a
header that it has seen, it has as many records as it may have, or the next one is not retrieved. -/
inductive WalkEnds (policy : Policy) (eid : EndpointId)
    (answers : Nat → Except RequestError Response) (trail : List Retrieval)
    (requests : List (EndpointId × Request)) (next : UInt32) :
    List (EndpointId × Request) × Except TransferError (List Record) → Prop
  | complete (hsome : trail ≠ []) (hnext : next = 0) :
      WalkEnds policy eid answers trail requests next (requests, .ok (trail.map Retrieval.record))
  | repeats (hnext : next ≠ 0) (hseen : next ∈ trail.map Retrieval.handle) :
      WalkEnds policy eid answers trail requests next
        (requests, .error (.violation (.repeatedHandle next)))
  | full (hlength : trail.length = maxRecords) (hnext : next ≠ 0)
      (hunseen : next ∉ trail.map Retrieval.handle) :
      WalkEnds policy eid answers trail requests next (requests, .error .overflow)
  | fails {asked : List (EndpointId × Request)} {e : TransferError}
      (hlength : trail.length < maxRecords) (hnext : trail ≠ [] → next ≠ 0)
      (hunseen : next ∉ trail.map Retrieval.handle)
      (hplay : (getRecord policy eid next).play answers requests.length = (asked, .error e)) :
      WalkEnds policy eid answers trail requests next (requests ++ asked, .error e)

section

variable {policy : Policy} {eid : EndpointId} {answers : Nat → Except RequestError Response}
  {trail : List Retrieval} {requests : List (EndpointId × Request)} {next : UInt32}

/-! ## Fresh trails -/

theorem Trail.Fresh.append {x : Retrieval} (h : Fresh trail) (hasked : trail ≠ [] → x.asked ≠ 0)
    (hunseen : x.asked ∉ trail.map Retrieval.handle) : Fresh (trail ++ [x]) := by
  constructor
  · cases trail with
    | nil => simp
    | cons y rest =>
      intro z hz
      rcases List.mem_append.1 hz with hz | hz
      · exact h.nonzero z hz
      · obtain rfl := List.mem_singleton.1 hz
        exact hasked (List.cons_ne_nil y rest)
  · refine List.pairwise_append.2 ⟨h.unseen, List.pairwise_singleton _ _, ?_⟩
    intro y hy z hz hsame
    obtain rfl := List.mem_singleton.1 hz
    exact hunseen (hsame ▸ List.mem_map_of_mem hy)

/-- The headers have the handles under which their records were asked for. -/
def Trail.Consistent (trail : List Retrieval) : Prop :=
  ∀ x ∈ trail, x.asked ≠ 0 → x.handle = x.asked

theorem Trail.Consistent.mem_handles (h : Consistent trail) {handle : UInt32} (hhandle : handle ≠ 0)
    (hasked : handle ∈ trail.map Retrieval.asked) : handle ∈ trail.map Retrieval.handle := by
  obtain ⟨x, hx, rfl⟩ := List.mem_map.1 hasked
  rw [← h x hx hhandle]
  exact List.mem_map_of_mem hx

theorem Trail.Fresh.nodup_asked (h : Fresh trail) (hconsistent : Consistent trail) :
    (trail.map Retrieval.asked).Nodup := by
  cases trail with
  | nil => exact List.nodup_nil
  | cons x rest =>
    obtain ⟨hfirst, hrest⟩ := List.pairwise_cons.1 h.unseen
    refine List.nodup_cons.2 ⟨fun hmem => ?_, List.pairwise_map.2 ?_⟩
    · obtain ⟨y, hy, heq⟩ := List.mem_map.1 hmem
      have hasked : x.asked ≠ 0 := heq ▸ h.nonzero y hy
      exact hfirst y hy (heq.trans (hconsistent x List.mem_cons_self hasked).symm)
    · refine hrest.imp_of_mem fun {y z} hy _ hne heq => hne ?_
      have hhandle := hconsistent y (List.mem_cons_of_mem x hy) (h.nonzero y hy)
      exact heq.symm.trans hhandle.symm

/-! ## From a trail to the end of the walk -/

theorem Trail.walkFrom_ends (h : Trail policy eid answers trail requests next) (hfresh : Fresh trail)
    (hnext : trail ≠ [] → next ≠ 0) (hunseen : next ∉ trail.map Retrieval.handle) {left : Nat}
    (hleft : trail.length + left = maxRecords) :
    ∃ trail' requests' next', Trail policy eid answers trail' requests' next' ∧ Fresh trail' ∧
      trail'.length ≤ maxRecords ∧ WalkEnds policy eid answers trail' requests' next'
        (requests ++ ((walkFrom policy eid left (trail.map Retrieval.record).reverse
            (trail.map Retrieval.handle).reverse next).play answers requests.length).1,
          ((walkFrom policy eid left (trail.map Retrieval.record).reverse
            (trail.map Retrieval.handle).reverse next).play answers requests.length).2) := by
  induction left generalizing trail requests next with
  | zero =>
    have hsome : trail ≠ [] := by
      rintro rfl
      cases hleft
    refine ⟨trail, requests, next, h, hfresh, Nat.le_of_eq hleft, ?_⟩
    rw [walkFrom, Dialogue.play_done, List.append_nil]
    exact .full hleft (hnext hsome) hunseen
  | succ left ih =>
    have hlength : trail.length < maxRecords := by omega
    rcases hplay : (getRecord policy eid next).play answers requests.length with ⟨asked, e | record⟩
    -- The walk ends at a record that fails; else the trail is longer by one, and what the next
    -- handle is decides how it goes on.
    · refine ⟨trail, requests, next, h, hfresh, Nat.le_of_lt hlength, ?_⟩
      rw [walkFrom, Dialogue.play_andThen_error hplay]
      exact .fails hlength hnext hunseen hplay
    · have htrail := h.next hplay
      have hfresh' : Fresh (trail ++ [⟨next, record⟩]) := hfresh.append hnext hunseen
      have hlength' : (trail ++ [(⟨next, record⟩ : Retrieval)]).length = trail.length + 1 :=
        List.length_append
      have hrecords : ((trail ++ [(⟨next, record⟩ : Retrieval)]).map Retrieval.record).reverse =
          record :: (trail.map Retrieval.record).reverse := by simp
      have hhandles : ((trail ++ [(⟨next, record⟩ : Retrieval)]).map Retrieval.handle).reverse =
          record.header.recordHandle :: (trail.map Retrieval.handle).reverse := by
        simp [Retrieval.handle, Record.handle]
      rw [walkFrom, Dialogue.play_andThen_ok hplay]
      dsimp only
      rw [← hrecords, ← hhandles]
      simp only [List.reverse_reverse, List.mem_reverse]
      by_cases hzero : record.nextRecordHandle = 0
      · refine ⟨_, _, _, htrail, hfresh', by omega, ?_⟩
        rw [if_pos hzero, Dialogue.play_done, List.append_nil]
        exact .complete (by simp) hzero
      · rw [if_neg hzero]
        by_cases hseen : record.nextRecordHandle ∈
            (trail ++ [(⟨next, record⟩ : Retrieval)]).map Retrieval.handle
        · refine ⟨_, _, _, htrail, hfresh', by omega, ?_⟩
          rw [if_pos hseen, Dialogue.play_done, List.append_nil]
          exact .repeats hzero hseen
        · rw [if_neg hseen]
          have hends := ih htrail hfresh' (fun _ => hzero) hseen (by omega)
          rwa [List.length_append, List.append_assoc] at hends

/-- A walk retrieves the records of a trail, and then ends. -/
theorem exists_trail (policy : Policy) (eid : EndpointId)
    (answers : Nat → Except RequestError Response) :
    ∃ trail requests next, Trail policy eid answers trail requests next ∧ Trail.Fresh trail ∧
      trail.length ≤ maxRecords ∧
      WalkEnds policy eid answers trail requests next ((getRepository policy eid).play answers 0) :=
  Trail.start.walkFrom_ends ⟨by simp, List.Pairwise.nil⟩ (fun h => absurd rfl h) (by simp) rfl

end

/-! ## The result -/

/-- **What a walk follows.** Whatever is answered, the records that a walk retrieves are a trail on
which each handle followed is not zero and not in the header of a record before, and a further handle
that is in one of these headers ends the walk with a violation. If the headers have the handles under
which their records are asked for, the handles asked for are distinct, and a further one that was
asked for ends the walk with a violation. -/
theorem getRepository_follows_unseen (policy : Policy) (eid : EndpointId)
    (answers : Nat → Except RequestError Response) :
    ∃ trail requests next, Trail policy eid answers trail requests next ∧
      Trail.Fresh trail ∧ trail.length ≤ maxRecords ∧
      WalkEnds policy eid answers trail requests next
        ((getRepository policy eid).play answers 0) ∧
      (next ≠ 0 → next ∈ trail.map Retrieval.handle → (getRepository policy eid).play answers 0 =
        (requests, .error (.violation (.repeatedHandle next)))) ∧
      (Trail.Consistent trail → (trail.map Retrieval.asked).Nodup ∧
        (next ≠ 0 → next ∈ trail.map Retrieval.asked → (getRepository policy eid).play answers 0 =
          (requests, .error (.violation (.repeatedHandle next))))) := by
  obtain ⟨trail, requests, next, htrail, hfresh, hlength, hends⟩ := exists_trail policy eid answers
  have hreports : next ≠ 0 → next ∈ trail.map Retrieval.handle →
      (getRepository policy eid).play answers 0 =
        (requests, .error (.violation (.repeatedHandle next))) := by
    intro hnext hseen
    generalize (getRepository policy eid).play answers 0 = played at hends
    cases hends with
    | complete _ hzero => exact absurd hzero hnext
    | repeats => rfl
    | full _ _ hunseen => exact absurd hseen hunseen
    | fails _ _ hunseen => exact absurd hseen hunseen
  refine ⟨trail, requests, next, htrail, hfresh, hlength, hends, hreports,
    fun hconsistent => ⟨hfresh.nodup_asked hconsistent, fun hnext hasked => ?_⟩⟩
  exact hreports hnext (hconsistent.mem_handles hnext hasked)

/-- A part that is a whole record without data, with the handle of the next. -/
def Arrival.bare (handle next : UInt32) : Arrival :=
  ⟨⟨next, 0, TransferFlag.startAndEnd.code, RecordHeader.layout.write ⟨handle, 1, 1, 0, 0⟩⟩, []⟩

/-- A walk may be led in a circle: handle 5 is asked for and leads to itself, the headers have other
handles, and the walk asks for it again and succeeds. -/
theorem getRepository_asks_twice :
    (getRepository {} 8).play
        (Arrival.answers [.bare 1 5, .bare 2 5, .bare 3 0]) 0 =
      ([0, 5, 5].map fun handle => (8, partRequest handle 0 .firstPart 0),
        .ok [⟨⟨1, 1, 1, 0, 0⟩, [], 5⟩, ⟨⟨2, 1, 1, 0, 0⟩, [], 5⟩, ⟨⟨3, 1, 1, 0, 0⟩, [], 0⟩]) := by
  decide +kernel

end PlatformMessaging.Repository
