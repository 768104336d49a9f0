import PlatformMessaging.Transaction.InstanceIds
import Mathlib.Tactic.Common
import Mathlib.Data.List.Perm.Basic
import Mathlib.Data.List.Nodup

/-!
# Instance IDs as a set

What an allocator holds is the set of the IDs that are taken, whatever the order of its rows. With
at most one row for each endpoint (`InstanceIds.Sound`), handing out an ID adds a free one to the set
(`hands_allocate`), taking one back removes it (`isTaken_release`), and nothing else changes; in
particular an endpoint that makes room for another one held nothing. No row is opened later except
through these lemmas.
-/

namespace PlatformMessaging

namespace IdRow

theorem get_take (r : IdRow) (i j : Fin 32) :
    (r.take i).taken.get j = if i = j then true else r.taken.get j :=
  r.taken_take i j

theorem get_release (r : IdRow) (i j : Fin 32) :
    (r.release i).taken.get j = if i = j then false else r.taken.get j :=
  r.taken_release i j

theorem get_fresh (eid : EndpointId) (i : Fin 32) : (fresh eid).taken.get i = false :=
  taken_fresh eid i

/-- The ID is taken in the row. -/
def Holds (r : IdRow) (iid : InstanceId) : Prop :=
  ∃ i, InstanceIds.index? iid = some i ∧ r.taken.get i = true

theorem holds_take (r : IdRow) (i : Fin 32) (iid : InstanceId) :
    (r.take i).Holds iid ↔ r.Holds iid ∨ InstanceIds.index? iid = some i := by
  constructor
  · rintro ⟨j, hj, htaken⟩
    rw [get_take] at htaken
    by_cases hij : i = j
    · right
      rw [hj, hij]
    · left
      rw [if_neg hij] at htaken
      exact ⟨j, hj, htaken⟩
  · rintro (⟨j, hj, htaken⟩ | hi)
    · refine ⟨j, hj, ?_⟩
      rw [get_take, htaken]
      split_ifs <;> rfl
    · refine ⟨i, hi, ?_⟩
      rw [get_take, if_pos rfl]

theorem holds_release (r : IdRow) (i : Fin 32) (iid : InstanceId) :
    (r.release i).Holds iid ↔ r.Holds iid ∧ InstanceIds.index? iid ≠ some i := by
  constructor
  · rintro ⟨j, hj, htaken⟩
    rw [get_release] at htaken
    by_cases hij : i = j
    · rw [if_pos hij] at htaken
      cases htaken
    · rw [if_neg hij] at htaken
      refine ⟨⟨j, hj, htaken⟩, fun hi => hij ?_⟩
      exact Option.some.inj (hi.symm.trans hj)
  · rintro ⟨⟨j, hj, htaken⟩, hne⟩
    have hij : i ≠ j := fun h => hne (h ▸ hj)
    refine ⟨j, hj, ?_⟩
    rw [get_release, if_neg hij]
    exact htaken

theorem not_holds_fresh (eid : EndpointId) (iid : InstanceId) : ¬(fresh eid).Holds iid := by
  rintro ⟨i, -, htaken⟩
  rw [get_fresh] at htaken
  cases htaken

theorem count_eq_zero {r : IdRow} : r.count = 0 ↔ ∀ i : Fin 32, r.taken.get i = false := by
  unfold count
  rw [List.count_eq_zero]
  constructor
  · intro h i
    rw [Bool.eq_false_iff]
    intro htaken
    apply h
    rw [← htaken]
    exact Vector.mem_toList_iff.2 (Vector.getElem_mem i.isLt)
  · intro h hmem
    obtain ⟨i, hi, htaken⟩ := Vector.mem_iff_getElem.1 (Vector.mem_toList_iff.1 hmem)
    have hfree := h ⟨i, hi⟩
    exact Bool.noConfusion (hfree.symm.trans htaken)

theorem free?_eq_next {r : IdRow} (h : r.taken.get r.next = false) : r.free? = some r.next := by
  have horder : r.searchOrder = r.next :: ((List.finRange 31).map Fin.succ).map (r.next + ·) := by
    unfold searchOrder
    rw [List.finRange_succ, List.map_cons, Fin.add_zero]
  unfold free?
  rw [horder, List.find?_cons]
  have hfree : (!r.taken[r.next]) = true := by
    show (!r.taken.get r.next) = true
    rw [h]
    rfl
  rw [hfree]

theorem not_holds_of_count {r : IdRow} (h : r.count = 0) (iid : InstanceId) : ¬r.Holds iid := by
  rintro ⟨i, -, htaken⟩
  rw [count_eq_zero.1 h i] at htaken
  cases htaken

theorem release_comm (r : IdRow) (i j : Fin 32) :
    (r.release i).release j = (r.release j).release i := by
  unfold release
  congr 1
  ext k hk
  simp only [Vector.getElem_set]
  split_ifs <;> rfl

theorem release_release (r : IdRow) (i : Fin 32) : (r.release i).release i = r.release i := by
  unfold release
  congr 1
  exact Vector.set_set ..

end IdRow

namespace InstanceIds

variable {ids : InstanceIds} {eid : EndpointId} {iid : InstanceId}

theorem index?_eq_some {i : Fin 32} : index? iid = some i ↔ iid = UInt8.ofNat i := by
  constructor
  · intro h
    unfold index? at h
    split_ifs at h with hlt
    obtain rfl := Option.some.inj h
    exact UInt8.toNat.inj (by simp)
  · rintro rfl
    exact index?_ofNat i

/-- Every endpoint has at most one row. -/
def Sound (ids : InstanceIds) : Prop :=
  (ids.rows.map IdRow.eid).Nodup

theorem Sound.eq_of_mem (h : ids.Sound) {r r' : IdRow} (hr : r ∈ ids.rows) (hr' : r' ∈ ids.rows)
    (heid : r.eid = r'.eid) : r = r' :=
  List.inj_on_of_nodup_map h hr hr' heid

theorem Sound.row?_eq_some (h : ids.Sound) {r : IdRow} :
    ids.row? eid = some r ↔ r ∈ ids.rows ∧ r.eid = eid := by
  constructor
  · intro hrow
    exact ⟨List.mem_of_find?_eq_some hrow, by simpa using List.find?_some hrow⟩
  · rintro ⟨hmem, rfl⟩
    rcases hrow : ids.row? r.eid with _ | r'
    · have hnone := List.find?_eq_none.1 hrow r hmem
      simp at hnone
    · have hmem' := List.mem_of_find?_eq_some hrow
      have heid' : r'.eid = r.eid := by simpa using List.find?_some hrow
      rw [h.eq_of_mem hmem' hmem heid']

theorem Sound.isTaken_iff (h : ids.Sound) :
    ids.isTaken eid iid = true ↔ ∃ r ∈ ids.rows, r.eid = eid ∧ r.Holds iid := by
  unfold isTaken
  constructor
  · intro htaken
    split at htaken
    · rename_i i r hi hrow
      obtain ⟨hmem, heid⟩ := h.row?_eq_some.1 hrow
      exact ⟨r, hmem, heid, i, hi, htaken⟩
    · cases htaken
  · rintro ⟨r, hmem, heid, i, hi, htaken⟩
    rw [hi, h.row?_eq_some.2 ⟨hmem, heid⟩]
    exact htaken

/-! ## Changing a row -/

theorem eids_modify {f : IdRow → IdRow} (hf : ∀ r, (f r).eid = r.eid) :
    (ids.modify eid f).rows.map IdRow.eid = ids.rows.map IdRow.eid := by
  unfold InstanceIds.modify
  rw [List.map_map]
  refine List.map_congr_left fun r _ => ?_
  simp only [Function.comp_apply]
  split_ifs
  · exact hf r
  · rfl

theorem row?_modify {f : IdRow → IdRow} (hf : ∀ r, (f r).eid = r.eid) (other : EndpointId) :
    (ids.modify other f).row? eid =
      (ids.row? eid).map fun r => if r.eid = other then f r else r := by
  unfold row? InstanceIds.modify
  rw [List.find?_map]
  congr 2
  funext r
  simp only [Function.comp_apply]
  split_ifs
  · rw [hf]
  · rfl

theorem Sound.modify (h : ids.Sound) {f : IdRow → IdRow} (hf : ∀ r, (f r).eid = r.eid) :
    (ids.modify eid f).Sound := by
  unfold Sound
  rw [eids_modify hf]
  exact h

theorem Sound.isTaken_modify (h : ids.Sound) {f : IdRow → IdRow} (hf : ∀ r, (f r).eid = r.eid)
    {eid' : EndpointId} :
    (ids.modify eid f).isTaken eid' iid = true ↔
      ∃ r ∈ ids.rows, r.eid = eid' ∧ (if eid' = eid then f r else r).Holds iid := by
  rw [(h.modify hf).isTaken_iff]
  unfold InstanceIds.modify
  constructor
  · rintro ⟨r', hmem, heid, hholds⟩
    obtain ⟨r, hr, rfl⟩ := List.mem_map.1 hmem
    have hreid : r.eid = eid' := by
      rw [← heid]
      split_ifs
      · exact (hf r).symm
      · rfl
    exact ⟨r, hr, hreid, hreid ▸ hholds⟩
  · rintro ⟨r, hr, rfl, hholds⟩
    refine ⟨_, List.mem_map.2 ⟨r, hr, rfl⟩, ?_, hholds⟩
    split_ifs
    · exact hf r
    · rfl

theorem Sound.release (h : ids.Sound) : (ids.release eid iid).Sound := by
  unfold InstanceIds.release
  split
  · exact h.modify fun r => r.eid_release _
  · exact h

/-- Taking an ID back frees it and no other. -/
theorem Sound.isTaken_release (h : ids.Sound) (eid' : EndpointId) (iid' : InstanceId) :
    (ids.release eid iid).isTaken eid' iid' = true ↔
      ids.isTaken eid' iid' = true ∧ ¬(eid' = eid ∧ iid' = iid) := by
  rw [h.isTaken_iff]
  -- A number that is no instance ID is never taken, and releasing it does nothing.
  rcases hi : index? iid with _ | i
  · have hrelease : ids.release eid iid = ids := by
      unfold InstanceIds.release
      rw [hi]
    rw [hrelease, h.isTaken_iff]
    constructor
    · rintro ⟨r, hr, heid, hholds⟩
      refine ⟨⟨r, hr, heid, hholds⟩, ?_⟩
      rintro ⟨-, rfl⟩
      obtain ⟨j, hj, -⟩ := hholds
      rw [hi] at hj
      cases hj
    · exact And.left
  · have hrelease : ids.release eid iid = ids.modify eid fun r => r.release i := by
      unfold InstanceIds.release
      rw [hi]
    rw [hrelease, h.isTaken_modify fun r => r.eid_release i]
    have hother : index? iid' ≠ some i ↔ iid' ≠ iid := by
      rw [ne_eq, ne_eq, index?_eq_some, index?_eq_some.1 hi]
    constructor
    · rintro ⟨r, hr, rfl, hholds⟩
      split_ifs at hholds with heid
      · rw [IdRow.holds_release, hother] at hholds
        exact ⟨⟨r, hr, rfl, hholds.1⟩, fun hsame => hholds.2 hsame.2⟩
      · exact ⟨⟨r, hr, rfl, hholds⟩, fun hsame => heid hsame.1⟩
    · rintro ⟨⟨r, hr, rfl, hholds⟩, hsame⟩
      refine ⟨r, hr, rfl, ?_⟩
      split_ifs with heid
      · rw [IdRow.holds_release, hother]
        exact ⟨hholds, fun hiid => hsame ⟨heid, hiid⟩⟩
      · exact hholds

/-! ## Making room -/

theorem perm_swapRemove {rows : List IdRow} {i : Nat} (h : i < rows.length) :
    rows.Perm (rows[i] :: swapRemove rows i) := by
  obtain ⟨init, last, rfl⟩ : ∃ init last, rows = init ++ [last] :=
    ⟨rows.dropLast, rows.getLast (List.ne_nil_of_length_pos (by omega)),
      (List.dropLast_append_getLast _).symm⟩
  unfold swapRemove
  rw [List.getLast?_concat]
  dsimp only
  rw [List.length_append, List.length_singleton] at h
  by_cases hi : i < init.length
  · rw [List.set_append_left _ _ hi, List.dropLast_concat, List.getElem_append_left hi,
      List.set_eq_take_append_cons_drop, if_pos hi]
    have hinit : init.Perm (init[i] :: (init.take i ++ init.drop (i + 1))) := by
      conv => left; rw [← List.take_append_drop i init, ← List.getElem_cons_drop hi]
      exact List.perm_middle
    have hlast := List.perm_append_singleton last init
    have hswap := (hinit.cons last).trans (List.Perm.swap init[i] last _)
    have hplace : (init[i] :: last :: (init.take i ++ init.drop (i + 1))).Perm
        (init[i] :: (init.take i ++ last :: init.drop (i + 1))) :=
      List.perm_middle.symm.cons _
    exact hlast.trans (hswap.trans hplace)
  · have hlast : i = init.length := by omega
    subst hlast
    simp

theorem perm_of_room? {rows rows' : List IdRow} (h : room? rows = some rows') :
    ∃ idle, rows.Perm (idle ++ rows') ∧ ∀ r ∈ idle, r.count = 0 := by
  unfold room? at h
  split_ifs at h
  · obtain rfl := Option.some.inj h
    exact ⟨[], List.Perm.refl _, by simp⟩
  · obtain ⟨i, hi, rfl⟩ := Option.map_eq_some_iff.1 h
    obtain ⟨hlt, hcount, -⟩ := List.findIdx?_eq_some_iff_getElem.1 hi
    exact ⟨[rows[i]], perm_swapRemove hlt, by simpa using hcount⟩

/-! ## Handing out an ID -/

theorem allocate_error {e : RequestError} {ids' : InstanceIds}
    (h : ids.allocate eid = (.error e, ids')) : e = .poolExhausted ∧ ids' = ids := by
  unfold allocate at h
  split at h
  · split at h
    · cases h
    · cases h
      exact ⟨rfl, rfl⟩
  · split at h
    · cases h
    · cases h
      exact ⟨rfl, rfl⟩

theorem allocate_ok {ids' : InstanceIds} (h : ids.allocate eid = (.ok iid, ids')) :
    (∃ r i, ids.row? eid = some r ∧ r.free? = some i ∧ iid = UInt8.ofNat i ∧
      ids' = ids.modify eid fun r => r.take i) ∨
    ∃ rows, ids.row? eid = none ∧ room? ids.rows = some rows ∧ iid = 0 ∧
      ids' = ⟨rows ++ [(IdRow.fresh eid).take 0]⟩ := by
  unfold allocate at h
  split at h
  · rename_i r hrow
    split at h
    · rename_i i hfree
      cases h
      exact .inl ⟨r, i, hrow, hfree, rfl, rfl⟩
    · cases h
  · rename_i hrow
    split at h
    · rename_i rows hroom
      cases h
      exact .inr ⟨rows, hrow, hroom, rfl, rfl⟩
    · cases h

/-- What is handed out is an ID that was free, and is taken from now on. -/
structure Hands (ids : InstanceIds) (eid : EndpointId) (iid : InstanceId) (ids' : InstanceIds) :
    Prop where
  sound : ids'.Sound
  index : ∃ i : Fin 32, iid = UInt8.ofNat i
  free : ids.isTaken eid iid = false
  isTaken : ∀ eid' iid', ids'.isTaken eid' iid' = true ↔
    ids.isTaken eid' iid' = true ∨ (eid' = eid ∧ iid' = iid)

theorem Sound.hands_take (h : ids.Sound) {r : IdRow} {i : Fin 32} (hrow : ids.row? eid = some r)
    (hfree : r.taken.get i = false) :
    ids.Hands eid (UInt8.ofNat i) (ids.modify eid fun r => r.take i) := by
  obtain ⟨hmem, heid⟩ := h.row?_eq_some.1 hrow
  refine ⟨h.modify fun r => r.eid_take i, ⟨i, rfl⟩, ?_, ?_⟩
  · unfold InstanceIds.isTaken
    rw [index?_ofNat, hrow]
    exact hfree
  · intro eid' iid'
    rw [h.isTaken_modify fun r => r.eid_take i, h.isTaken_iff]
    constructor
    · rintro ⟨r', hr', rfl, hholds⟩
      split_ifs at hholds with hsame
      · rcases (IdRow.holds_take ..).1 hholds with hold | hi
        · exact .inl ⟨r', hr', rfl, hold⟩
        · exact .inr ⟨hsame, index?_eq_some.1 hi⟩
      · exact .inl ⟨r', hr', rfl, hholds⟩
    · rintro (⟨r', hr', rfl, hholds⟩ | ⟨rfl, rfl⟩)
      · refine ⟨r', hr', rfl, ?_⟩
        split_ifs
        · exact (IdRow.holds_take ..).2 (.inl hholds)
        · exact hholds
      · refine ⟨r, hmem, heid, ?_⟩
        rw [if_pos rfl]
        exact (IdRow.holds_take ..).2 (.inr (index?_ofNat i))

theorem Sound.hands_append (h : ids.Sound) {rows : List IdRow} (hrow : ids.row? eid = none)
    (hroom : room? ids.rows = some rows) :
    ids.Hands eid 0 ⟨rows ++ [(IdRow.fresh eid).take 0]⟩ := by
  obtain ⟨idle, hperm, hidle⟩ := perm_of_room? hroom
  have hnone : ∀ r ∈ ids.rows, r.eid ≠ eid := by
    intro r hr
    simpa using List.find?_eq_none.1 hrow r hr
  have hsub : ∀ r ∈ rows, r ∈ ids.rows :=
    fun r hr => hperm.mem_iff.2 (List.mem_append_right _ hr)
  have hsound : Sound ⟨rows ++ [(IdRow.fresh eid).take 0]⟩ := by
    unfold Sound
    rw [List.map_append]
    refine List.Nodup.append ?_ (List.nodup_singleton _) ?_
    · have hnodup := ((hperm.map IdRow.eid).nodup_iff).1 h
      rw [List.map_append] at hnodup
      exact hnodup.of_append_right
    · intro eid' hold hnew
      obtain ⟨r, hr, rfl⟩ := List.mem_map.1 hold
      exact hnone r (hsub r hr) (List.mem_singleton.1 hnew)
  refine ⟨hsound, ⟨0, rfl⟩, ?_, ?_⟩
  · rw [Bool.eq_false_iff]
    intro htaken
    obtain ⟨r, hr, heid, -⟩ := h.isTaken_iff.1 htaken
    exact hnone r hr heid
  · intro eid' iid'
    rw [hsound.isTaken_iff, h.isTaken_iff]
    constructor
    · rintro ⟨r, hr, rfl, hholds⟩
      rcases List.mem_append.1 hr with hold | hnew
      · exact .inl ⟨r, hsub r hold, rfl, hholds⟩
      · obtain rfl := List.mem_singleton.1 hnew
        rcases (IdRow.holds_take ..).1 hholds with hfresh | hi
        · exact (IdRow.not_holds_fresh _ _ hfresh).elim
        · exact .inr ⟨rfl, index?_eq_some.1 hi⟩
    · rintro (⟨r, hr, rfl, hholds⟩ | ⟨rfl, rfl⟩)
      · rcases List.mem_append.1 (hperm.mem_iff.1 hr) with hgone | hkept
        · exact absurd hholds (IdRow.not_holds_of_count (hidle r hgone) _)
        · exact ⟨r, List.mem_append_left _ hkept, rfl, hholds⟩
      · exact ⟨_, List.mem_append_right _ (List.mem_singleton.2 rfl), rfl,
          (IdRow.holds_take ..).2 (.inr rfl)⟩

theorem Sound.hands_allocate (h : ids.Sound) {ids' : InstanceIds}
    (hok : ids.allocate eid = (.ok iid, ids')) : ids.Hands eid iid ids' := by
  rcases allocate_ok hok with ⟨r, i, hrow, hfree, rfl, rfl⟩ | ⟨rows, hrow, hroom, rfl, rfl⟩
  · exact h.hands_take hrow (IdRow.taken_of_free? hfree)
  · exact h.hands_append hrow hroom

theorem Sound.exists_allocate (h : ids.Sound) (hfree : ∀ eid iid, ids.isTaken eid iid = false)
    (eid : EndpointId) : ∃ iid ids', ids.allocate eid = (.ok iid, ids') := by
  have hidle : ∀ r ∈ ids.rows, r.count = 0 := by
    intro r hr
    apply IdRow.count_eq_zero.2
    intro i
    by_contra hi
    have htaken : ids.isTaken r.eid (UInt8.ofNat i) = true :=
      h.isTaken_iff.2 ⟨r, hr, rfl, i, index?_ofNat i, Bool.not_eq_false _ ▸ hi⟩
    rw [hfree] at htaken
    cases htaken
  unfold allocate
  cases hrow : ids.row? eid with
  | some r =>
    have hr := hidle r (h.row?_eq_some.1 hrow).1
    dsimp only
    cases hid : r.free? with
    | some i => exact ⟨_, _, rfl⟩
    | none =>
      have htaken := IdRow.free?_eq_none.1 hid 0
      exact Bool.noConfusion (htaken.symm.trans (IdRow.count_eq_zero.1 hr 0))
  | none =>
    obtain ⟨rows, hrows⟩ : ∃ rows, room? ids.rows = some rows := by
      unfold room?
      split_ifs with hlength
      · exact ⟨_, rfl⟩
      · cases hindex : ids.rows.findIdx? fun r => r.count = 0 with
        | some i => exact ⟨_, rfl⟩
        | none =>
          -- Every row can give way, so that room is wanting only if there is no row, and then there is.
          have hnone := List.findIdx?_eq_none_iff.1 hindex
          exfalso
          apply hlength
          have hnil : ids.rows = [] := by
            apply List.eq_nil_iff_forall_not_mem.2
            intro r hr
            simpa [hidle r hr] using hnone r hr
          rw [hnil]
          decide
    dsimp only
    rw [hrows]
    exact ⟨_, _, rfl⟩

/-- Handing out an ID and taking it back changes nothing. -/
theorem Hands.isTaken_release {ids' : InstanceIds} (h : ids.Hands eid iid ids')
    (eid' : EndpointId) (iid' : InstanceId) :
    (ids'.release eid iid).isTaken eid' iid' = true ↔ ids.isTaken eid' iid' = true := by
  rw [h.sound.isTaken_release, h.isTaken]
  constructor
  · rintro ⟨hold | hnew, hother⟩
    · exact hold
    · exact absurd hnew hother
  · intro hold
    refine ⟨.inl hold, ?_⟩
    rintro ⟨rfl, rfl⟩
    exact Bool.noConfusion (h.free.symm.trans hold)

theorem sound_nil : Sound {} := List.nodup_nil

theorem count_eq_zero (h : ∀ iid, ids.isTaken eid iid = false) : ids.count eid = 0 := by
  unfold count
  rcases hrow : ids.row? eid with _ | r
  · rfl
  · refine IdRow.count_eq_zero.2 fun i => ?_
    have hfree := h (UInt8.ofNat i)
    unfold isTaken at hfree
    rwa [index?_ofNat, hrow] at hfree

/-! ## Taking back twice -/

section Release

variable (ids : InstanceIds) (eid eid' : EndpointId) (iid iid' : InstanceId)

theorem modify_comm {f g : IdRow → IdRow} (hf : ∀ r, (f r).eid = r.eid) (hg : ∀ r, (g r).eid = r.eid)
    (hcomm : ∀ r, g (f r) = f (g r)) :
    (ids.modify eid f).modify eid' g = (ids.modify eid' g).modify eid f := by
  unfold modify
  rw [List.map_map, List.map_map]
  congr 1
  refine List.map_congr_left fun r _ => ?_
  by_cases h : r.eid = eid <;> by_cases h' : r.eid = eid'
  · simp [h, hf, hg, ← h', hcomm]
  · have hne : eid ≠ eid' := h ▸ h'
    simp [h, hne, hf]
  · have hne : eid' ≠ eid := h' ▸ h
    simp [h', hne, hg]
  · simp [h, h']

theorem modify_modify {f : IdRow → IdRow} (hf : ∀ r, (f r).eid = r.eid) (hsame : ∀ r, f (f r) = f r) :
    (ids.modify eid f).modify eid f = ids.modify eid f := by
  unfold modify
  rw [List.map_map]
  congr 1
  refine List.map_congr_left fun r _ => ?_
  by_cases h : r.eid = eid
  · simp [h, hf, hsame]
  · simp [h]

theorem release_comm :
    (ids.release eid iid).release eid' iid' = (ids.release eid' iid').release eid iid := by
  unfold release
  cases index? iid with
  | none => rfl
  | some i =>
    cases index? iid' with
    | none => rfl
    | some j =>
      exact ids.modify_comm eid eid' (fun r => r.eid_release i) (fun r => r.eid_release j)
        fun r => r.release_comm i j

theorem release_release : (ids.release eid iid).release eid iid = ids.release eid iid := by
  unfold release
  cases index? iid with
  | none => rfl
  | some i => exact ids.modify_modify eid (fun r => r.eid_release i) fun r => r.release_release i

end Release

end InstanceIds

end PlatformMessaging
