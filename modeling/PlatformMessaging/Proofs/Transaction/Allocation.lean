import PlatformMessaging.Proofs.Message
import PlatformMessaging.Proofs.Transaction.InstanceIds
import Mathlib.Data.Fintype.Fin
import Mathlib.Data.Set.Card

/-!
# An allocator of instance IDs as a set of pairs

Whatever an allocator was used for, all that its users can see of it is the set of the pairs of an
endpoint and an ID that are taken (`InstanceIds.pairs`). The rows add one restriction: they are at
most 32, one for each endpoint (`InstanceIds.Bounded`), so that an endpoint with nothing taken can
find no room (`Crowded`). A row that holds nothing never stands in the way, since it is the one that
goes; this is why the restriction can be said of the pairs alone.

Main statement: `refines_pairs`.
-/

namespace PlatformMessaging

namespace IdRow

theorem count_eq_card (r : IdRow) :
    r.count = (Finset.univ.filter fun i : Fin 32 => r.taken.get i = true).card := by
  let v : List.Vector Bool 32 := ⟨r.taken.toList, Vector.length_toList⟩
  have hget : ∀ i, v.get i = r.taken.get i := fun i => rfl
  simp only [← hget]
  exact (Fin.card_filter_univ_eq_vector_get_eq_count true v).symm

theorem exists_holds {r : IdRow} (h : r.count ≠ 0) : ∃ iid, r.Holds iid := by
  by_contra hnone
  push Not at hnone
  refine h (count_eq_zero.2 fun i => ?_)
  by_contra hi
  exact hnone (UInt8.ofNat i) ⟨i, InstanceIds.index?_ofNat i, by simpa using hi⟩

theorem release_of_free {r : IdRow} {i : Fin 32} (h : r.taken.get i = false) : r.release i = r := by
  have hset : r.taken.set i false = r.taken := by
    rw [← h]
    exact Vector.set_getElem_self _
  unfold release
  rw [hset]

end IdRow

namespace InstanceIds

variable {ids : InstanceIds} {eid : EndpointId} {iid : InstanceId}

/-- The pairs of an endpoint and an ID of it that are taken. -/
def pairs (ids : InstanceIds) : Set (EndpointId × InstanceId) :=
  {p | ids.isTaken p.1 p.2 = true}

/-- All IDs of the endpoint are among the pairs. -/
def Full (taken : Set (EndpointId × InstanceId)) (eid : EndpointId) : Prop :=
  ∀ iid ≤ Message.maxInstanceId, (eid, iid) ∈ taken

/-- The endpoint has no ID among the pairs, and as many others as there can be have one. -/
def Crowded (taken : Set (EndpointId × InstanceId)) (eid : EndpointId) : Prop :=
  (∀ iid, (eid, iid) ∉ taken) ∧
    ∃ others : Finset EndpointId, others.card = maxEndpoints ∧ eid ∉ others ∧
      ∀ other ∈ others, ∃ iid, (other, iid) ∈ taken

inductive Use where
  | allocate (eid : EndpointId)
  | release (eid : EndpointId) (iid : InstanceId)

def use (ids : InstanceIds) : Use → InstanceIds
  | .allocate eid => (ids.allocate eid).2
  | .release eid iid => ids.release eid iid

/-- An allocator after a list of uses, with nothing taken at first. -/
def after (uses : List Use) : InstanceIds :=
  uses.foldl use {}

@[simp] theorem mem_pairs : (eid, iid) ∈ ids.pairs ↔ ids.isTaken eid iid = true :=
  Iff.rfl

theorem isTaken_of_row? {r : IdRow} (hrow : ids.row? eid = some r) (i : Fin 32) :
    ids.isTaken eid (UInt8.ofNat i) = r.taken.get i := by
  unfold isTaken
  rw [index?_ofNat, hrow]
  rfl

theorem isTaken_of_row?_none (hrow : ids.row? eid = none) : ids.isTaken eid iid = false := by
  unfold isTaken
  rw [hrow]
  split
  · rename_i hsome
    cases hsome
  · rfl

theorem exists_index_of_mem (h : (eid, iid) ∈ ids.pairs) : ∃ i : Fin 32, iid = UInt8.ofNat i := by
  rw [mem_pairs] at h
  unfold isTaken at h
  split at h
  · rename_i i r hi hrow
    exact ⟨i, index?_eq_some.1 hi⟩
  · cases h

/-! ## What every use keeps -/

/-- Every endpoint has at most one row, and there are not too many. -/
structure Bounded (ids : InstanceIds) : Prop where
  sound : ids.Sound
  length : ids.rows.length ≤ maxEndpoints

theorem length_modify (f : IdRow → IdRow) : (ids.modify eid f).rows.length = ids.rows.length := by
  simp [InstanceIds.modify]

theorem length_release : (ids.release eid iid).rows.length = ids.rows.length := by
  unfold InstanceIds.release
  split
  · exact length_modify _
  · rfl

theorem length_of_room? {rows rows' : List IdRow} (hlength : rows.length ≤ maxEndpoints)
    (h : room? rows = some rows') : rows'.length < maxEndpoints := by
  unfold room? at h
  split_ifs at h with hroom
  · obtain rfl := Option.some.inj h
    exact hroom
  · obtain ⟨i, hi, rfl⟩ := Option.map_eq_some_iff.1 h
    obtain ⟨hlt, -, -⟩ := List.findIdx?_eq_some_iff_getElem.1 hi
    have hperm := (perm_swapRemove hlt).length_eq
    rw [List.length_cons] at hperm
    omega

theorem Bounded.allocate (h : ids.Bounded) (eid : EndpointId) : (ids.allocate eid).2.Bounded := by
  rcases hres : ids.allocate eid with ⟨iid | iid, ids'⟩
  · obtain ⟨-, rfl⟩ := allocate_error hres
    exact h
  · refine ⟨(h.sound.hands_allocate hres).sound, ?_⟩
    rcases allocate_ok hres with ⟨r, i, -, -, -, rfl⟩ | ⟨rows, -, hroom, -, rfl⟩
    · exact (length_modify _).trans_le h.length
    · have := length_of_room? h.length hroom
      simpa using this

theorem Bounded.use (h : ids.Bounded) (u : Use) : (ids.use u).Bounded := by
  cases u with
  | allocate eid => exact h.allocate eid
  | release eid iid => exact ⟨h.sound.release, length_release.trans_le h.length⟩

theorem bounded_after (uses : List Use) : (after uses).Bounded := by
  suffices hrun : ∀ ids : InstanceIds, ids.Bounded → (uses.foldl InstanceIds.use ids).Bounded from
    hrun {} ⟨sound_nil, Nat.zero_le _⟩
  induction uses with
  | nil => exact fun _ h => h
  | cons u rest ih => exact fun ids h => ih (ids.use u) (h.use u)

/-! ## What is refused -/

theorem Sound.card_le (h : ids.Sound) {others : Finset EndpointId}
    (hrows : ∀ other ∈ others, ∃ r ∈ ids.rows, r.eid = other) :
    others.card ≤ ids.rows.length := by
  have hsub : others ⊆ (ids.rows.map IdRow.eid).toFinset := by
    intro other hother
    exact List.mem_toFinset.2 (List.mem_map.2 (hrows other hother))
  calc others.card ≤ (ids.rows.map IdRow.eid).toFinset.card := Finset.card_le_card hsub
    _ = ids.rows.length := by rw [List.toFinset_card_of_nodup h, List.length_map]

theorem Bounded.mem_of_card (h : ids.Bounded) {others : Finset EndpointId}
    (hcard : others.card = maxEndpoints) (hheld : ∀ other ∈ others, ∃ iid, (other, iid) ∈ ids.pairs)
    {r : IdRow} (hr : r ∈ ids.rows) : r.eid ∈ others := by
  by_contra hnot
  have hrows : ∀ other ∈ insert r.eid others, ∃ r ∈ ids.rows, r.eid = other := by
    intro other hother
    rcases Finset.mem_insert.1 hother with rfl | hother
    · exact ⟨r, hr, rfl⟩
    · obtain ⟨iid, htaken⟩ := hheld other hother
      obtain ⟨r', hr', heid, -⟩ := h.sound.isTaken_iff.1 htaken
      exact ⟨r', hr', heid⟩
  have hle := (h.sound.card_le hrows).trans h.length
  rw [Finset.card_insert_of_notMem hnot, hcard] at hle
  exact Nat.not_succ_le_self _ hle

theorem full_iff {r : IdRow} (hrow : ids.row? eid = some r) :
    Full ids.pairs eid ↔ r.free? = none := by
  rw [IdRow.free?_eq_none]
  constructor
  · intro hfull i
    exact (isTaken_of_row? hrow i).symm.trans (hfull _ (Message.le_maxInstanceId i))
  · intro hall iid hle
    obtain ⟨i, rfl⟩ : ∃ i : Fin 32, iid = UInt8.ofNat i :=
      ⟨⟨iid.toNat, Nat.lt_succ_of_le hle⟩, UInt8.toNat.inj (by simp)⟩
    exact (isTaken_of_row? hrow i).trans (hall i)

theorem not_full_of_row?_none (hrow : ids.row? eid = none) : ¬Full ids.pairs eid := by
  intro hfull
  have htaken : ids.isTaken eid 0 = true := hfull 0 (by decide)
  rw [isTaken_of_row?_none hrow] at htaken
  cases htaken

theorem Bounded.crowded_iff (h : ids.Bounded) (hrow : ids.row? eid = none) :
    Crowded ids.pairs eid ↔ room? ids.rows = none := by
  have hnone : ∀ r ∈ ids.rows, r.eid ≠ eid := by
    intro r hr
    simpa using List.find?_eq_none.1 hrow r hr
  constructor
  -- As many endpoints as there can be rows hold an ID, so every row is that of one of them.
  · rintro ⟨-, others, hcard, -, hheld⟩
    have hfull : ids.rows.length = maxEndpoints := by
      refine le_antisymm h.length (hcard.symm.trans_le (h.sound.card_le ?_))
      intro other hother
      obtain ⟨iid, htaken⟩ := hheld other hother
      obtain ⟨r, hr, heid, -⟩ := h.sound.isTaken_iff.1 htaken
      exact ⟨r, hr, heid⟩
    unfold room?
    rw [if_neg hfull.not_lt, Option.map_eq_none_iff, List.findIdx?_eq_none_iff]
    intro r hr
    obtain ⟨iid, htaken⟩ := hheld _ (h.mem_of_card hcard hheld hr)
    obtain ⟨r', hr', heid, hholds⟩ := h.sound.isTaken_iff.1 htaken
    obtain rfl := h.sound.eq_of_mem hr' hr heid
    rw [decide_eq_false_iff_not]
    exact fun hcount => IdRow.not_holds_of_count hcount iid hholds
  · intro hroom
    unfold room? at hroom
    split_ifs at hroom with hlt
    rw [Option.map_eq_none_iff, List.findIdx?_eq_none_iff] at hroom
    refine ⟨?_, (ids.rows.map IdRow.eid).toFinset, ?_, ?_, ?_⟩
    · intro iid htaken
      obtain ⟨r, hr, heid, -⟩ := h.sound.isTaken_iff.1 htaken
      exact hnone r hr heid
    · rw [List.toFinset_card_of_nodup h.sound, List.length_map]
      exact le_antisymm h.length (not_lt.1 hlt)
    · rw [List.mem_toFinset, List.mem_map]
      rintro ⟨r, hr, heid⟩
      exact hnone r hr heid
    · intro other hother
      obtain ⟨r, hr, rfl⟩ := List.mem_map.1 (List.mem_toFinset.1 hother)
      obtain ⟨iid, hholds⟩ := IdRow.exists_holds (of_decide_eq_false (hroom r hr))
      exact ⟨iid, h.sound.isTaken_iff.2 ⟨r, hr, rfl, hholds⟩⟩

theorem allocate_of_row? {r : IdRow} (hrow : ids.row? eid = some r) :
    (∃ e, (ids.allocate eid).1 = .error e) ↔ r.free? = none := by
  unfold InstanceIds.allocate
  rw [hrow]
  dsimp only
  cases r.free? <;> simp

theorem allocate_of_row?_none (hrow : ids.row? eid = none) :
    (∃ e, (ids.allocate eid).1 = .error e) ↔ room? ids.rows = none := by
  unfold InstanceIds.allocate
  rw [hrow]
  dsimp only
  cases room? ids.rows <;> simp

theorem Bounded.allocate_fails_iff (h : ids.Bounded) (eid : EndpointId) :
    (∃ e, (ids.allocate eid).1 = .error e) ↔ Full ids.pairs eid ∨ Crowded ids.pairs eid := by
  cases hrow : ids.row? eid with
  | some r =>
    have hcrowded : ¬Crowded ids.pairs eid := by
      rintro ⟨-, others, hcard, hother, hheld⟩
      obtain ⟨hr, rfl⟩ := h.sound.row?_eq_some.1 hrow
      exact hother (h.mem_of_card hcard hheld hr)
    rw [allocate_of_row? hrow, full_iff hrow, or_iff_left hcrowded]
  | none =>
    rw [allocate_of_row?_none hrow, h.crowded_iff hrow, or_iff_right (not_full_of_row?_none hrow)]

/-! ## What is taken back and counted -/

theorem Sound.release_of_free (h : ids.Sound) (hfree : (eid, iid) ∉ ids.pairs) :
    ids.release eid iid = ids := by
  unfold InstanceIds.release
  split
  · rename_i i hi
    obtain rfl := index?_eq_some.1 hi
    have hsame : ∀ r ∈ ids.rows, (if r.eid = eid then r.release i else r) = r := by
      intro r hr
      split_ifs with heid
      · have hrow := h.row?_eq_some.2 ⟨hr, heid⟩
        rw [mem_pairs, isTaken_of_row? hrow, Bool.not_eq_true] at hfree
        exact IdRow.release_of_free hfree
      · rfl
    unfold InstanceIds.modify
    exact congrArg InstanceIds.mk ((List.map_congr_left hsame).trans (List.map_id' _))
  · rfl

theorem Sound.pairs_release (h : ids.Sound) :
    (ids.release eid iid).pairs = ids.pairs \ {(eid, iid)} := by
  ext ⟨eid', iid'⟩
  simpa [pairs] using h.isTaken_release eid' iid'

theorem Hands.pairs {ids' : InstanceIds} (h : ids.Hands eid iid ids') :
    ids'.pairs = insert (eid, iid) ids.pairs := by
  ext ⟨eid', iid'⟩
  simpa [InstanceIds.pairs, or_comm] using h.isTaken eid' iid'

theorem count_eq_ncard (ids : InstanceIds) (eid : EndpointId) :
    ids.count eid = {iid | (eid, iid) ∈ ids.pairs}.ncard := by
  unfold InstanceIds.count
  cases hrow : ids.row? eid with
  | none =>
    have hempty : {iid | (eid, iid) ∈ ids.pairs} = ∅ := by
      ext iid
      simp [isTaken_of_row?_none hrow]
    rw [hempty, Set.ncard_empty]
  | some r =>
    have himage : {iid | (eid, iid) ∈ ids.pairs} =
        (Finset.univ.filter fun i : Fin 32 => r.taken.get i = true).image
          fun i : Fin 32 => UInt8.ofNat i := by
      ext iid
      simp only [Set.mem_ofPred_eq, Finset.coe_image, Finset.coe_filter, Finset.mem_univ, true_and,
        Set.mem_image]
      constructor
      · intro htaken
        obtain ⟨i, rfl⟩ := exists_index_of_mem htaken
        exact ⟨i, (isTaken_of_row? hrow i).symm.trans htaken, rfl⟩
      · rintro ⟨i, htaken, rfl⟩
        exact (isTaken_of_row? hrow i).trans htaken
    have hinj : Function.Injective fun i : Fin 32 => UInt8.ofNat i := by
      decide
    rw [himage, Set.ncard_coe_finset, Finset.card_image_of_injective _ hinj]
    exact r.count_eq_card

/-! ## The allocator and its pairs -/

/-- Whatever it was used for, an allocator keeps a set of pairs. Handing out an ID adds a pair that
was not taken and no other; it is refused exactly if the endpoint has all its IDs taken, or has none
and 32 others have one, and then nothing changes. Taking an ID back removes its pair and no other,
and changes nothing if it was not taken. The count is that of the endpoint's pairs. -/
theorem refines_pairs (uses : List Use) :
    (∀ eid iid ids', (after uses).allocate eid = (.ok iid, ids') →
      iid ≤ Message.maxInstanceId ∧ (eid, iid) ∉ (after uses).pairs ∧
        ids'.pairs = insert (eid, iid) (after uses).pairs) ∧
    (∀ eid, (∃ e, ((after uses).allocate eid).1 = .error e) ↔
      Full (after uses).pairs eid ∨ Crowded (after uses).pairs eid) ∧
    (∀ eid e ids', (after uses).allocate eid = (.error e, ids') →
      e = .poolExhausted ∧ ids' = after uses) ∧
    (∀ eid iid, ((after uses).release eid iid).pairs = (after uses).pairs \ {(eid, iid)} ∧
      ((eid, iid) ∉ (after uses).pairs → (after uses).release eid iid = after uses)) ∧
    ∀ eid, (after uses).count eid = {iid | (eid, iid) ∈ (after uses).pairs}.ncard := by
  have hbounded := bounded_after uses
  refine ⟨?_, hbounded.allocate_fails_iff, fun eid e ids' => allocate_error, ?_,
    (after uses).count_eq_ncard⟩
  · intro eid iid ids' hres
    have hands := hbounded.sound.hands_allocate hres
    obtain ⟨i, rfl⟩ := hands.index
    refine ⟨Message.le_maxInstanceId i, ?_, hands.pairs⟩
    rw [mem_pairs, hands.free]
    exact Bool.false_ne_true
  · exact fun eid iid => ⟨hbounded.sound.pairs_release, hbounded.sound.release_of_free⟩

/-- With one ID taken for each of 32 endpoints there is none for another one, and there is one again
once any of them is taken back. -/
example :
    let uses := (List.finRange 32).map fun i => Use.allocate (UInt8.ofNat i)
    ((after uses).allocate 32).1.toOption = none ∧
      ((after (uses ++ [.release 7 0])).allocate 32).1.toOption = some 0 := by
  decide +kernel

end InstanceIds

end PlatformMessaging
