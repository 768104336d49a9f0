import PlatformMessaging.Transaction.Error

/-!
# Instance IDs

At most 32 requests to an endpoint can be under way, each under its own instance ID. `InstanceIds`
records which IDs are taken, for up to 32 endpoints at once.

* The search for a free ID goes on from the one handed out last, so that an ID just given back is
  not handed out again at once, and a late response to it meets no newer request.
* A further endpoint takes the place of one that holds no ID: the row of the earliest such endpoint
  is removed, and the last row fills the gap.
-/

namespace PlatformMessaging

/-- The instance IDs of one endpoint: which are taken, and where the search goes on. -/
structure IdRow where
  eid : EndpointId
  taken : Vector Bool 32
  next : Fin 32
  deriving DecidableEq

namespace IdRow

/-- An endpoint that holds no ID. -/
def fresh (eid : EndpointId) : IdRow :=
  ⟨eid, Vector.replicate 32 false, 0⟩

def searchOrder (r : IdRow) : List (Fin 32) :=
  (List.finRange 32).map fun n => r.next + n

/-- The ID that is handed out next. -/
def free? (r : IdRow) : Option (Fin 32) :=
  r.searchOrder.find? fun i => !r.taken[i]

def take (r : IdRow) (i : Fin 32) : IdRow :=
  { r with taken := r.taken.set i true, next := i + 1 }

def release (r : IdRow) (i : Fin 32) : IdRow :=
  { r with taken := r.taken.set i false }

def count (r : IdRow) : Nat :=
  r.taken.toList.count true

@[simp] theorem eid_take (r : IdRow) (i : Fin 32) : (r.take i).eid = r.eid := rfl

@[simp] theorem eid_release (r : IdRow) (i : Fin 32) : (r.release i).eid = r.eid := rfl

theorem taken_take (r : IdRow) (i j : Fin 32) :
    (r.take i).taken[j] = if i = j then true else r.taken[j] := by
  simp [take, Vector.getElem_set, Fin.ext_iff]

theorem taken_release (r : IdRow) (i j : Fin 32) :
    (r.release i).taken[j] = if i = j then false else r.taken[j] := by
  simp [release, Vector.getElem_set, Fin.ext_iff]

theorem taken_fresh (eid : EndpointId) (i : Fin 32) : (fresh eid).taken[i] = false := by
  simp [fresh]

theorem mem_searchOrder (r : IdRow) (i : Fin 32) : i ∈ r.searchOrder := by
  refine List.mem_map.2 ⟨i - r.next, List.mem_finRange _, ?_⟩
  omega

theorem taken_of_free? {r : IdRow} {i : Fin 32} (h : r.free? = some i) : r.taken[i] = false := by
  simpa using List.find?_some h

theorem free?_eq_none {r : IdRow} : r.free? = none ↔ ∀ i : Fin 32, r.taken[i] = true := by
  simp [free?, List.find?_eq_none, mem_searchOrder]

end IdRow

/-- The instance IDs that are taken, by endpoint. -/
structure InstanceIds where
  rows : List IdRow := []
  deriving DecidableEq

namespace InstanceIds

/-- The largest number of endpoints that hold IDs at the same time. -/
def maxEndpoints : Nat := 32

def index? (iid : InstanceId) : Option (Fin 32) :=
  if h : iid.toNat < 32 then some ⟨iid.toNat, h⟩ else none

def row? (ids : InstanceIds) (eid : EndpointId) : Option IdRow :=
  ids.rows.find? fun r => r.eid = eid

def modify (ids : InstanceIds) (eid : EndpointId) (f : IdRow → IdRow) : InstanceIds :=
  ⟨ids.rows.map fun r => if r.eid = eid then f r else r⟩

/-- Removes the row at an index; the last row takes its place. -/
def swapRemove (rows : List IdRow) (i : Nat) : List IdRow :=
  match rows.getLast? with
  | none => []
  | some last => (rows.set i last).dropLast

/-- The rows with room for one more: all of them, or all but the first that holds no ID. -/
def room? (rows : List IdRow) : Option (List IdRow) :=
  if rows.length < maxEndpoints then some rows
  else (rows.findIdx? fun r => r.count = 0).map (swapRemove rows)

/-- Hands out an ID that is free for an endpoint. -/
def allocate (ids : InstanceIds) (eid : EndpointId) :
    Except RequestError InstanceId × InstanceIds :=
  match ids.row? eid with
  | some row =>
    match row.free? with
    | some i => (.ok (UInt8.ofNat i), ids.modify eid fun r => r.take i)
    | none => (.error .poolExhausted, ids)
  | none =>
    match room? ids.rows with
    | some rows => (.ok 0, ⟨rows ++ [(IdRow.fresh eid).take 0]⟩)
    | none => (.error .poolExhausted, ids)

/-- Takes an ID back. Nothing changes if it is not taken. -/
def release (ids : InstanceIds) (eid : EndpointId) (iid : InstanceId) : InstanceIds :=
  match index? iid with
  | some i => ids.modify eid fun r => r.release i
  | none => ids

def isTaken (ids : InstanceIds) (eid : EndpointId) (iid : InstanceId) : Bool :=
  match index? iid, ids.row? eid with
  | some i, some row => row.taken[i]
  | _, _ => false

def count (ids : InstanceIds) (eid : EndpointId) : Nat :=
  match ids.row? eid with
  | some row => row.count
  | none => 0

/-- The IDs of an endpoint that are taken, in ascending order. -/
def held (ids : InstanceIds) (eid : EndpointId) : List InstanceId :=
  ((List.range 256).map UInt8.ofNat).filter fun iid => ids.isTaken eid iid

@[simp] theorem index?_ofNat (i : Fin 32) : index? (UInt8.ofNat i) = some i := by
  revert i
  decide

end InstanceIds

end PlatformMessaging
