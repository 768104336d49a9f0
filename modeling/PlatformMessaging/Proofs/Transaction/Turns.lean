import PlatformMessaging.Proofs.Transaction.Allocation
import Mathlib.Data.List.TakeWhile

/-!
# The turn that the instance IDs take

An ID that was taken back is handed out again only after a full turn: each of the 31 others was handed
out in between, or a search came across it and found it taken (`reused_after_full_turn`). This is what
keeps a late response away from the requests made after its own.

The argument is an invariant over the uses that follow (`Covers`): the search has come some number of
steps on from the ID, possibly more than once around, and every ID on its way was met in one of the two
manners. Handing out an ID extends the way by what the search passes over, all of which is taken; a use
for another endpoint leaves the row as it is, unless it removes it, and it is removed only if too many
endpoints are used. When the ID is handed out again, the way has come around to it, which takes at least
31 steps.
-/

namespace PlatformMessaging

namespace IdRow

/-- The search for a free ID passes over the ID, which is taken. -/
def PassesOver (r : IdRow) (i : Fin 32) : Prop :=
  i ∈ r.searchOrder.takeWhile r.taken.get

theorem exists_passesOver {r : IdRow} {i : Fin 32} (h : r.free? = some i) :
    ∃ n : Fin 32, i = r.next + n ∧ ∀ m < n, r.PassesOver (r.next + m) := by
  obtain ⟨hfree, passed, others, horder, htaken⟩ := List.find?_eq_some_iff_append.1 h
  have hlength : passed.length < 32 := by
    have := congrArg List.length horder
    simp only [searchOrder, List.length_map, List.length_finRange, List.length_append,
      List.length_cons] at this
    omega
  have hget : ∀ n : Fin 32, r.searchOrder[(n : Nat)]? = some (r.next + n) := by
    intro n
    simp [searchOrder]
  refine ⟨⟨passed.length, hlength⟩, ?_, fun m hm => ?_⟩
  · have hat := hget ⟨passed.length, hlength⟩
    rw [horder, List.getElem?_append_right le_rfl, Nat.sub_self] at hat
    exact Option.some.inj hat
  · have hat := hget m
    rw [horder, List.getElem?_append_left hm] at hat
    unfold PassesOver
    rw [horder, List.takeWhile_append_of_pos]
    · exact List.mem_append_left _ (List.mem_of_getElem? hat)
    · exact fun j hj => (Bool.not_not _).symm.trans (htaken j hj)

end IdRow

namespace InstanceIds

variable {ids ids' start : InstanceIds} {eid : EndpointId} {iid : InstanceId} {uses : List Use}

/-! ## Uses and what they ask for -/

/-- An ID for the endpoint is sought, and the search passes over the ID, which is taken. -/
def FindsTaken (ids : InstanceIds) (eid : EndpointId) (iid : InstanceId) : Prop :=
  ∃ (r : IdRow) (i : Fin 32), ids.row? eid = some r ∧ iid = UInt8.ofNat i ∧ r.PassesOver i

/-- The allocators of which an ID of the endpoint is asked, in the course of a list of uses. -/
def asked (eid : EndpointId) : InstanceIds → List Use → List InstanceIds
  | _, [] => []
  | ids, .allocate other :: rest =>
    if other = eid then ids :: asked eid (ids.use (.allocate other)) rest
    else asked eid (ids.use (.allocate other)) rest
  | ids, .release other iid :: rest => asked eid (ids.use (.release other iid)) rest

/-- The IDs of the endpoint that are handed out, in order, in the course of a list of uses. -/
def returned (eid : EndpointId) (ids : InstanceIds) (uses : List Use) : List InstanceId :=
  (asked eid ids uses).filterMap fun ids => (ids.allocate eid).1.toOption

/-- The endpoint has a row throughout a list of uses. -/
def Kept (eid : EndpointId) (ids : InstanceIds) (uses : List Use) : Prop :=
  ∀ l, l <+: uses → (l.foldl use ids).row? eid ≠ none

/-- The endpoints of which an ID is asked for. -/
def endpoints (uses : List Use) : Finset EndpointId :=
  (uses.filterMap fun
    | .allocate eid => some eid
    | .release .. => none).toFinset

theorem FindsTaken.isTaken (h : ids.FindsTaken eid iid) : ids.isTaken eid iid = true := by
  obtain ⟨r, i, hrow, rfl, hi⟩ := h
  rw [isTaken_of_row? hrow]
  exact List.mem_takeWhile_imp hi

theorem mem_endpoints : eid ∈ endpoints uses ↔ .allocate eid ∈ uses := by
  unfold endpoints
  rw [List.mem_toFinset, List.mem_filterMap]
  constructor
  · rintro ⟨u, hu, heid⟩
    cases u with
    | allocate other =>
      obtain rfl := Option.some.inj heid
      exact hu
    | release other iid => cases heid
  · exact fun h => ⟨_, h, rfl⟩

theorem asked_append (l l' : List Use) :
    asked eid ids (l ++ l') = asked eid ids l ++ asked eid (l.foldl use ids) l' := by
  induction l generalizing ids with
  | nil => rfl
  | cons u rest ih =>
    cases u with
    | allocate other =>
      simp only [List.cons_append, asked, List.foldl_cons, ih]
      split_ifs <;> rfl
    | release other iid => simp only [List.cons_append, asked, List.foldl_cons, ih]

theorem asked_concat :
    asked eid ids (uses ++ [.allocate eid]) = asked eid ids uses ++ [uses.foldl use ids] := by
  rw [asked_append]
  simp only [asked, if_true]

theorem returned_concat (h : ((uses.foldl use ids).allocate eid).1 = .ok iid) :
    returned eid ids (uses ++ [.allocate eid]) = returned eid ids uses ++ [iid] := by
  unfold returned
  rw [asked_concat, List.filterMap_append, List.filterMap_cons, h]
  rfl

/-! ## Where the search goes on -/

/-- Where the search for an ID of the endpoint goes on. -/
def next? (ids : InstanceIds) (eid : EndpointId) : Option (Fin 32) :=
  (ids.row? eid).map IdRow.next

theorem next?_modify_take {r : IdRow} {i : Fin 32} (hrow : ids.row? eid = some r) :
    (ids.modify eid fun r => r.take i).next? eid = some (i + 1) := by
  have heid : r.eid = eid := by simpa using List.find?_some hrow
  unfold next?
  rw [row?_modify (fun r => r.eid_take i), hrow, Option.map_some, Option.map_some, if_pos heid]
  rfl

theorem next?_of_allocate (h : ids.allocate eid = (.ok iid, ids')) :
    ∃ i : Fin 32, iid = UInt8.ofNat i ∧ ids'.next? eid = some (i + 1) := by
  rcases allocate_ok h with ⟨r, i, hrow, -, rfl, rfl⟩ | ⟨rows, hrow, hroom, rfl, rfl⟩
  · exact ⟨i, rfl, next?_modify_take hrow⟩
  · obtain ⟨idle, hperm, -⟩ := perm_of_room? hroom
    have hnone : rows.find? (fun r => r.eid = eid) = none :=
      List.find?_eq_none.2 fun r hr =>
        List.find?_eq_none.1 hrow r (hperm.mem_iff.2 (List.mem_append_right _ hr))
    refine ⟨0, rfl, ?_⟩
    unfold next? row?
    rw [List.find?_append, hnone]
    simp [IdRow.fresh, IdRow.take]

theorem Sound.next?_use (h : ids.Sound) {u : Use}
    (hu : u = .allocate eid → ∀ iid, (ids.allocate eid).1 ≠ .ok iid)
    (hbefore : ids.row? eid ≠ none) (hkept : (ids.use u).row? eid ≠ none) :
    (ids.use u).next? eid = ids.next? eid := by
  obtain ⟨r, hrow⟩ := Option.ne_none_iff_exists'.1 hbefore
  obtain ⟨hr, heid⟩ := h.row?_eq_some.1 hrow
  cases u with
  | release other iid =>
    show (ids.release other iid).next? eid = ids.next? eid
    unfold InstanceIds.release next?
    split
    · rename_i i hi
      rw [row?_modify (fun r => r.eid_release i), hrow, Option.map_some, Option.map_some]
      split_ifs <;> rfl
    · rfl
  | allocate other =>
    change (ids.allocate other).2.row? eid ≠ none at hkept
    show (ids.allocate other).2.next? eid = ids.next? eid
    rcases hres : ids.allocate other with ⟨e | iid, ids'⟩
    · obtain ⟨-, rfl⟩ := allocate_error hres
      rfl
    · have hother : other ≠ eid := by
        rintro rfl
        exact hu rfl iid (congrArg Prod.fst hres)
      rw [hres] at hkept
      unfold next?
      rcases allocate_ok hres with ⟨-, i, -, -, -, rfl⟩ | ⟨rows, -, hroom, -, rfl⟩
      · rw [row?_modify (fun r => r.eid_take i), hrow, Option.map_some, if_neg (heid ▸ hother.symm)]
      -- A row made room for another endpoint; it was not the one of `eid`, which is there still.
      · obtain ⟨idle, hperm, -⟩ := perm_of_room? hroom
        obtain ⟨r', hr'⟩ := Option.ne_none_iff_exists'.1 hkept
        have heid' : r'.eid = eid := by simpa using List.find?_some hr'
        rw [hrow, hr']
        rcases List.mem_append.1 (List.mem_of_find?_eq_some hr') with hold | hnew
        · rw [h.eq_of_mem (hperm.mem_iff.2 (List.mem_append_right _ hold)) hr
            (heid'.trans heid.symm)]
        · obtain rfl := List.mem_singleton.1 hnew
          exact absurd heid' hother

/-! ## Few endpoints -/

theorem row?_ne_none : ids.row? eid ≠ none ↔ eid ∈ ids.rows.map IdRow.eid := by
  unfold row?
  simp

/-- The endpoints that have a row are some of those given. -/
structure Within (few : Finset EndpointId) (ids : InstanceIds) : Prop where
  bounded : ids.Bounded
  mem : ∀ eid ∈ ids.rows.map IdRow.eid, eid ∈ few

section Within

variable {few : Finset EndpointId}

theorem Within.room? (h : ids.Within few) (hfew : few.card ≤ maxEndpoints) (heid : eid ∈ few)
    (hrow : ids.row? eid = none) : room? ids.rows = some ids.rows := by
  have hnew : eid ∉ (ids.rows.map IdRow.eid).toFinset := by
    rw [List.mem_toFinset, ← row?_ne_none]
    exact not_not_intro hrow
  have hsub : insert eid (ids.rows.map IdRow.eid).toFinset ⊆ few :=
    Finset.insert_subset heid fun other hother => h.mem other (List.mem_toFinset.1 hother)
  have hcard := Finset.card_le_card hsub
  rw [Finset.card_insert_of_notMem hnew, List.toFinset_card_of_nodup h.bounded.sound,
    List.length_map] at hcard
  exact if_pos (hcard.trans hfew)

theorem Within.eids_use (h : ids.Within few) (hfew : few.card ≤ maxEndpoints) {u : Use}
    (hu : ∀ eid, u = .allocate eid → eid ∈ few) :
    ∃ added : List EndpointId, (∀ eid ∈ added, eid ∈ few) ∧
      (ids.use u).rows.map IdRow.eid = ids.rows.map IdRow.eid ++ added := by
  cases u with
  | release other iid =>
    refine ⟨[], fun _ hnil => (List.not_mem_nil hnil).elim, ?_⟩
    show (ids.release other iid).rows.map IdRow.eid = _
    rw [List.append_nil]
    unfold InstanceIds.release
    split
    · exact eids_modify fun r => r.eid_release _
    · rfl
  | allocate other =>
    show ∃ added : List EndpointId, _ ∧ (ids.allocate other).2.rows.map IdRow.eid = _
    rcases hres : ids.allocate other with ⟨e | iid, ids'⟩
    · obtain ⟨-, rfl⟩ := allocate_error hres
      exact ⟨[], fun _ hnil => (List.not_mem_nil hnil).elim, (List.append_nil _).symm⟩
    · rcases allocate_ok hres with ⟨r, i, -, -, -, rfl⟩ | ⟨rows, hrow, hroom, -, rfl⟩
      · refine ⟨[], fun _ hnil => (List.not_mem_nil hnil).elim, ?_⟩
        exact (eids_modify fun r => r.eid_take i).trans (List.append_nil _).symm
      · rw [h.room? hfew (hu other rfl) hrow] at hroom
        obtain rfl := Option.some.inj hroom
        refine ⟨[other], ?_, by simp [IdRow.fresh, IdRow.take]⟩
        rintro eid heid
        rw [List.mem_singleton.1 heid]
        exact hu other rfl

theorem Within.use (h : ids.Within few) (hfew : few.card ≤ maxEndpoints) {u : Use}
    (hu : ∀ eid, u = .allocate eid → eid ∈ few) : (ids.use u).Within few := by
  refine ⟨h.bounded.use u, fun eid heid => ?_⟩
  obtain ⟨added, hadded, heids⟩ := h.eids_use hfew hu
  rw [heids] at heid
  rcases List.mem_append.1 heid with hold | hnew
  · exact h.mem eid hold
  · exact hadded eid hnew

theorem Within.foldl (h : ids.Within few) (hfew : few.card ≤ maxEndpoints)
    (huses : ∀ other, .allocate other ∈ uses → other ∈ few) :
    (uses.foldl InstanceIds.use ids).Within few := by
  induction uses generalizing ids with
  | nil => exact h
  | cons u rest ih =>
    refine ih (h.use hfew fun other hother => huses other (hother ▸ List.mem_cons_self)) ?_
    exact fun other hother => huses other (List.mem_cons_of_mem _ hother)

theorem Within.row?_foldl (h : ids.Within few) (hfew : few.card ≤ maxEndpoints)
    (huses : ∀ other, .allocate other ∈ uses → other ∈ few) (hrow : ids.row? eid ≠ none) :
    (uses.foldl InstanceIds.use ids).row? eid ≠ none := by
  induction uses generalizing ids with
  | nil => exact hrow
  | cons u rest ih =>
    have hu : ∀ other, u = .allocate other → other ∈ few :=
      fun other heq => huses other (heq ▸ List.mem_cons_self)
    refine ih (h.use hfew hu) (fun other hother => huses other (List.mem_cons_of_mem _ hother)) ?_
    obtain ⟨added, -, heids⟩ := h.eids_use hfew hu
    rw [row?_ne_none, heids]
    exact List.mem_append_left _ (row?_ne_none.1 hrow)

end Within

theorem kept_of_card_le {before between : List Use}
    (hfirst : (after before).allocate eid = (.ok iid, start))
    (hfew : (endpoints (before ++ .allocate eid :: between)).card ≤ maxEndpoints) :
    Kept eid start between := by
  have hnil : Within (endpoints (before ++ .allocate eid :: between)) {} :=
    ⟨bounded_after [], fun _ hnil => (List.not_mem_nil hnil).elim⟩
  have hbefore : (after before).Within (endpoints (before ++ .allocate eid :: between)) :=
    hnil.foldl hfew fun other hother => mem_endpoints.2 (List.mem_append_left _ hother)
  have hstart : start.Within (endpoints (before ++ .allocate eid :: between)) := by
    have hallocate : (after before).use (.allocate eid) = start := congrArg Prod.snd hfirst
    rw [← hallocate]
    exact hbefore.use hfew fun other hother =>
      mem_endpoints.2 (hother ▸ List.mem_append_right _ List.mem_cons_self)
  intro l hl
  refine hstart.row?_foldl hfew (fun other hother => mem_endpoints.2 ?_) ?_
  · exact List.mem_append_right _ (List.mem_cons_of_mem _ (hl.subset hother))
  · obtain ⟨i, -, hnext⟩ := next?_of_allocate hfirst
    unfold next? at hnext
    intro hnone
    rw [hnone] at hnext
    cases hnext

/-! ## The way around -/

theorem ofNat_injective : Function.Injective fun i : Fin 32 => UInt8.ofNat i := by
  decide

/-- The ID that the search comes to some steps after an ID. -/
def later (i : Fin 32) (k : Nat) : Fin 32 :=
  ⟨(i + 1 + k) % 32, Nat.mod_lt _ (by decide)⟩

theorem later_add (i : Fin 32) (d : Nat) (n : Fin 32) : later i d + n = later i (d + n) := by
  apply Fin.ext
  simp only [later, Fin.val_add]
  omega

theorem exists_later {i j : Fin 32} (h : j ≠ i) : ∃ k < 31, j = later i k := by
  have hne : (j : Nat) ≠ i := fun heq => h (Fin.ext heq)
  refine ⟨(j + 31 - i) % 32, ?_, Fin.ext ?_⟩
  · omega
  · simp only [later]
    omega

theorem le_of_later_eq {i : Fin 32} {k : Nat} (h : later i k = i) : 31 ≤ k := by
  have := congrArg Fin.val h
  simp only [later] at this
  omega

/-- In the course of a list of uses the ID was handed out, or a search found it taken. -/
def Met (eid : EndpointId) (start : InstanceIds) (uses : List Use) (iid : InstanceId) : Prop :=
  iid ∈ returned eid start uses ∨ ∃ ids ∈ asked eid start uses, ids.FindsTaken eid iid

theorem Met.append (h : Met eid start uses iid) (l : List Use) : Met eid start (uses ++ l) iid := by
  unfold Met returned at *
  rw [asked_append, List.filterMap_append]
  rcases h with hreturned | ⟨ids, hids, hfinds⟩
  · exact .inl (List.mem_append_left _ hreturned)
  · exact .inr ⟨ids, List.mem_append_left _ hids, hfinds⟩

/-- In the course of a list of uses the search comes some steps on from an ID, and meets every ID on the
way. -/
structure Covers (eid : EndpointId) (i : Fin 32) (start : InstanceIds) (uses : List Use) (d : Nat) :
    Prop where
  next : (uses.foldl use start).next? eid = some (later i d)
  met : ∀ k < d, Met eid start uses (UInt8.ofNat (later i k))

theorem Covers.allocate {i f : Fin 32} {d : Nat} (h : Covers eid i start uses d)
    (hok : ((uses.foldl use start).allocate eid).1 = .ok (UInt8.ofNat f)) :
    ∃ n, f = later i (d + n) ∧ Covers eid i start (uses ++ [.allocate eid]) (d + n + 1) := by
  obtain ⟨r, hrow, hnext⟩ := Option.map_eq_some_iff.1 h.next
  have hres : (uses.foldl use start).allocate eid =
      (.ok (UInt8.ofNat f), (uses.foldl use start).use (.allocate eid)) :=
    Prod.ext hok rfl
  rcases allocate_ok hres with ⟨r', g, hrow', hfree, hg, hids⟩ | ⟨rows, hnone, -⟩
  · obtain rfl : r = r' := Option.some.inj (hrow.symm.trans hrow')
    obtain rfl : f = g := ofNat_injective hg
    obtain ⟨n, hf, hpassed⟩ := IdRow.exists_passesOver hfree
    rw [hnext, later_add] at hf
    refine ⟨n, hf, ?_, fun k hk => ?_⟩
    · rw [List.foldl_append, List.foldl_cons, List.foldl_nil, hids, next?_modify_take hrow, hf]
      exact congrArg some (later_add i (d + n) 1)
    · rcases Nat.lt_trichotomy k (d + n) with hlt | rfl | hgt
      · by_cases hkd : k < d
        · exact (h.met k hkd).append _
        · refine .inr ⟨_, asked_concat ▸ List.mem_append_right _ List.mem_cons_self, r, _, hrow, rfl, ?_⟩
          have hpass := hpassed ⟨k - d, by omega⟩ (by
            rw [Fin.lt_def]
            show k - d < n
            omega)
          rw [hnext, later_add] at hpass
          rwa [show d + ((⟨k - d, by omega⟩ : Fin 32) : Nat) = k by simp; omega] at hpass
      · left
        rw [returned_concat hok, hf]
        exact List.mem_append_right _ List.mem_cons_self
      · omega
  · rw [hrow] at hnone
    cases hnone

theorem Bounded.foldl (h : start.Bounded) : (uses.foldl InstanceIds.use start).Bounded := by
  induction uses generalizing start with
  | nil => exact h
  | cons u rest ih => exact ih (h.use u)

/-- As long as the endpoint keeps its row, the search comes on from the ID handed out first. -/
theorem exists_covers (h : start.Bounded) {i : Fin 32} (hnext : start.next? eid = some (i + 1))
    (hkept : Kept eid start uses) : ∃ d, Covers eid i start uses d := by
  induction uses using List.reverseRecOn with
  | nil => exact ⟨0, hnext, fun k hk => (Nat.not_lt_zero k hk).elim⟩
  | append_singleton uses u ih =>
    obtain ⟨d, hd⟩ := ih fun l hl => hkept l (hl.trans (List.prefix_append _ _))
    by_cases hu : u = .allocate eid ∧ ∃ iid, ((uses.foldl use start).allocate eid).1 = .ok iid
    · obtain ⟨rfl, iid, hok⟩ := hu
      obtain ⟨f, rfl, -⟩ := next?_of_allocate (Prod.ext hok rfl)
      obtain ⟨n, -, hn⟩ := hd.allocate hok
      exact ⟨_, hn⟩
    · refine ⟨d, ?_, fun k hk => (hd.met k hk).append _⟩
      have hafter := hkept _ List.prefix_rfl
      rw [List.foldl_append, List.foldl_cons, List.foldl_nil] at hafter ⊢
      rw [← hd.next]
      refine h.foldl.sound.next?_use (fun heq iid hok => hu ⟨heq, iid, hok⟩) ?_ hafter
      exact hkept _ (List.prefix_append _ _)

/-- Once around, every other ID was met. -/
theorem met_of_reuse {before between : List Use}
    (hfirst : (after before).allocate eid = (.ok iid, start))
    (hkept : Kept eid start between)
    (hsecond : ((between.foldl use start).allocate eid).1 = .ok iid) {j : Fin 32}
    (hj : UInt8.ofNat j ≠ iid) :
    Met eid start (between ++ [.allocate eid]) (UInt8.ofNat j) := by
  have hstart : start.Bounded := by
    have := (bounded_after before).allocate eid
    rwa [hfirst] at this
  obtain ⟨i, rfl, hnext⟩ := next?_of_allocate hfirst
  obtain ⟨d, hd⟩ := exists_covers hstart hnext hkept
  obtain ⟨n, hi, hcovers⟩ := hd.allocate hsecond
  obtain ⟨k, hk, rfl⟩ := exists_later fun heq : j = i => hj (heq ▸ rfl)
  have hround := le_of_later_eq hi.symm
  exact hcovers.met k (by omega)

/-- The ID is free whenever one of the endpoint is asked for in the course of a list of uses. -/
def FreeWhenAsked (eid : EndpointId) (start : InstanceIds) (uses : List Use) (iid : InstanceId) : Prop :=
  ∀ ids ∈ asked eid start uses, ids.isTaken eid iid = false

theorem le_length_of_forall_mem {iids : List InstanceId} {i : Fin 32}
    (h : ∀ j : Fin 32, j ≠ i → UInt8.ofNat j ∈ iids) : 31 ≤ iids.length := by
  have hsub : (Finset.univ.erase i).image (fun j : Fin 32 => UInt8.ofNat j) ⊆ iids.toFinset := by
    intro iid hiid
    obtain ⟨j, hj, rfl⟩ := Finset.mem_image.1 hiid
    exact List.mem_toFinset.2 (h j (Finset.ne_of_mem_erase hj))
  calc 31 = ((Finset.univ.erase i).image fun j : Fin 32 => UInt8.ofNat j).card := by
        rw [Finset.card_image_of_injective _ ofNat_injective, Finset.card_erase_of_mem (Finset.mem_univ i),
          Finset.card_univ, Fintype.card_fin]
    _ ≤ iids.toFinset.card := Finset.card_le_card hsub
    _ ≤ iids.length := List.toFinset_card_le iids

/-- Let an endpoint get an ID, and let it keep its row from then on, as it does if no more than 32
endpoints ask for IDs at all. If it gets the ID again after some uses, each of the other 31 was handed
out in between, or one of its searches since then, the last one included, found it taken. So the ID
handed out next is another one if any other is free, and if all others are free whenever one is asked
for, 31 others are handed out before it. -/
theorem reused_after_full_turn (before between : List Use) (eid : EndpointId) (i : InstanceId)
    (start : InstanceIds) (hfirst : (after before).allocate eid = (.ok i, start))
    (hkept : Kept eid start between ∨
      (endpoints (before ++ .allocate eid :: between)).card ≤ maxEndpoints) :
    (((between.foldl use start).allocate eid).1 = .ok i →
      ∀ j ≤ Message.maxInstanceId, j ≠ i → j ∈ returned eid start between ∨
        ∃ ids ∈ asked eid start (between ++ [.allocate eid]), ids.FindsTaken eid j) ∧
    (returned eid start between = [] →
      (∃ j ≤ Message.maxInstanceId, j ≠ i ∧
        FreeWhenAsked eid start (between ++ [.allocate eid]) j) →
      ((between.foldl use start).allocate eid).1 ≠ .ok i) ∧
    (((between.foldl use start).allocate eid).1 = .ok i →
      (∀ j ≤ Message.maxInstanceId, j ≠ i →
        FreeWhenAsked eid start (between ++ [.allocate eid]) j) →
      31 ≤ ((returned eid start between).filter (· ≠ i)).length) := by
  have hrow : Kept eid start between := hkept.elim id (kept_of_card_le hfirst)
  have hturn : ((between.foldl use start).allocate eid).1 = .ok i →
      ∀ j ≤ Message.maxInstanceId, j ≠ i → j ∈ returned eid start between ∨
        ∃ ids ∈ asked eid start (between ++ [.allocate eid]), ids.FindsTaken eid j := by
    intro hsecond j hle hj
    obtain ⟨j, rfl⟩ := Message.exists_instanceId hle
    -- Every other ID was handed out or passed over; the last one handed out is `i` again.
    refine (met_of_reuse hfirst hrow hsecond hj).imp_left fun hreturned => ?_
    rw [returned_concat hsecond] at hreturned
    exact (List.mem_append.1 hreturned).resolve_right fun hlast => hj (List.mem_singleton.1 hlast)
  have hfree : ((between.foldl use start).allocate eid).1 = .ok i →
      ∀ j ≤ Message.maxInstanceId, j ≠ i → FreeWhenAsked eid start (between ++ [.allocate eid]) j →
        j ∈ returned eid start between := by
    intro hsecond j hle hj hfree
    refine (hturn hsecond j hle hj).resolve_right ?_
    rintro ⟨ids, hids, hfinds⟩
    exact Bool.noConfusion ((hfree ids hids).symm.trans hfinds.isTaken)
  refine ⟨hturn, ?_, ?_⟩
  · rintro hnone ⟨j, hle, hj, hjfree⟩ hsecond
    have hmem := hfree hsecond j hle hj hjfree
    rw [hnone] at hmem
    exact List.not_mem_nil hmem
  · intro hsecond hall
    obtain ⟨f, rfl, -⟩ := next?_of_allocate hfirst
    refine le_length_of_forall_mem fun j (hj : j ≠ f) => List.mem_filter.2 ?_
    have hne : UInt8.ofNat j ≠ UInt8.ofNat f := fun heq => hj (ofNat_injective heq)
    have hle := Message.le_maxInstanceId j
    exact ⟨hfree hsecond _ hle hne (hall _ hle hne), decide_eq_true hne⟩

/-- One endpoint gets an ID and gives it back, and does so with every ID it gets from then on: it gets the
first one again after the 31 others. If it asks at once, it gets another one. -/
theorem reused_after_returning_each :
    let start := (InstanceIds.allocate {} 9).2
    let between := Use.release 9 0 ::
      (List.range 31).flatMap fun k => [.allocate 9, .release 9 (UInt8.ofNat (k + 1))]
    ((between.foldl use start).allocate 9).1 = .ok 0 ∧
      (∀ j ≤ Message.maxInstanceId, j ≠ 0 → j ∈ returned 9 start between ∨
        ∃ ids ∈ asked 9 start (between ++ [.allocate 9]), ids.FindsTaken 9 j) ∧
      31 ≤ ((returned 9 start between).filter (· ≠ 0)).length ∧
      (([Use.release 9 0].foldl use start).allocate 9).1 ≠ .ok 0 := by
  intro start between
  have hfirst : (after []).allocate 9 = (.ok 0, start) := rfl
  have hfew : (endpoints ([] ++ .allocate 9 :: between)).card ≤ maxEndpoints := by decide +kernel
  have hsecond : ((between.foldl use start).allocate 9).1 = .ok 0 := by
    have hid : ((between.foldl use start).allocate 9).1.toOption = some 0 := by decide +kernel
    cases hres : ((between.foldl use start).allocate 9).1 <;> rw [hres] at hid <;> cases hid
    rfl
  have hall : ∀ j ≤ Message.maxInstanceId, j ≠ 0 →
      FreeWhenAsked 9 start (between ++ [.allocate 9]) j := by
    intro j hle
    obtain ⟨j, rfl⟩ := Message.exists_instanceId hle
    revert j
    unfold FreeWhenAsked
    decide +kernel
  obtain ⟨hturn, -, hround⟩ := reused_after_full_turn [] between 9 0 start hfirst (.inr hfew)
  obtain ⟨-, hnext, -⟩ :=
    reused_after_full_turn [] [.release 9 0] 9 0 start hfirst (.inr (by decide +kernel))
  refine ⟨hsecond, hturn hsecond, hround hsecond hall, hnext rfl ⟨1, by decide, by decide, ?_⟩⟩
  unfold FreeWhenAsked
  decide +kernel

end InstanceIds

end PlatformMessaging
