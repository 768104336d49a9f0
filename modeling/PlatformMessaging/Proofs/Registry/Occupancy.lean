import PlatformMessaging.Proofs.Registry.Chronicle
import PlatformMessaging.Proofs.Registry.Ownership
import PlatformMessaging.Proofs.Registry.Resends
import PlatformMessaging.Proofs.Transaction.Allocation

/-!
# How many slots there are

`Machine.Run.slots_bounded`: at any time there are as many slots as there were requests in them at most, so
that the slots do not grow with use. With every request under an instance ID of its own (`Step.Fresh`,
`Step.SparesHeld`) there are at most 32 requests to an endpoint, and at most 1024 slots.

* A slot is added only when all are filled (`Slots.length_insert`); no move but a registration changes their
  number.
* `Registry.Backed` is the invariant for the bounds: each request holds an ID that is taken, and no two the
  same one. The converse is not needed, so others may take IDs and keep them. An allocator has at most 32
  rows with 32 IDs each.
* Whoever gives back the ID of an outstanding request makes room for one more
  (`Run.slots_exceed_after_release`).
-/

namespace PlatformMessaging

open Slots

variable {σ ι : Type}

/-! ## Sizes -/

namespace Slots

theorem length_entries_le (slots : List (Slot σ ι)) : (entries slots).length ≤ slots.length :=
  List.length_filterMap_le ..

/-- A slot is added only if a request is in each of the others. -/
theorem length_insert (e : Entry σ ι) (slots : List (Slot σ ι)) :
    (insert e slots).length = max slots.length ((entries slots).length + 1) := by
  induction slots with
  | nil => rfl
  | cons s rest ih =>
    have hle := length_entries_le rest
    unfold insert
    rw [entries_cons]
    split
    · rename_i hs
      simp only [hs, Option.toList_none, List.nil_append, List.length_cons]
      omega
    · rename_i x hs
      simp only [hs, Option.toList_some, List.length_append, List.length_cons, List.length_nil, ih]
      omega

theorem length_sweep [Link σ] (now timeout i : Nat) (slots : List (Slot σ ι)) (link : σ) :
    (sweep now timeout i slots link).slots.length = slots.length := by
  induction slots generalizing i link with
  | nil => rfl
  | cons s rest ih =>
    unfold sweep
    split
    · exact congrArg (· + 1) (ih (i + 1) link)
    · exact congrArg (· + 1) (ih (i + 1) _)

theorem length_remove? {slots slots' : List (Slot σ ι)} {ref : SlotRef} {e : Entry σ ι}
    (h : remove? slots ref = some (e, slots')) : slots'.length = slots.length := by
  obtain ⟨before, s, after, rfl, -, -, rfl⟩ := remove?_eq_some.1 h
  simp

end Slots

/-- How many requests are in the slots, outstanding or ended. -/
def Registry.occupancy (r : Registry σ ι) : Nat :=
  (entries r.slots).length

namespace Machine

/-- The most requests that the steps show in the slots at the same time. -/
def peak (steps : List (Step σ ι)) : Nat :=
  steps.foldl (fun n s => max n s.after.registry.occupancy) 0

theorem peak_concat (steps : List (Step σ ι)) (s : Step σ ι) :
    peak (steps ++ [s]) = max (peak steps) s.after.registry.occupancy := by
  unfold peak
  rw [List.foldl_append]
  rfl

theorem Effect.length_slots [Link σ] {r r' : Registry σ ι} {v : Move σ ι} {events : List (Event ι)}
    (h : Effect r v events r') : r'.slots.length = max r.slots.length r'.occupancy := by
  have hsame : r'.slots.length = r.slots.length →
      r'.slots.length = max r.slots.length r'.occupancy := by
    intro hlength
    have hle : r'.occupancy ≤ r'.slots.length := length_entries_le _
    omega
  cases h with
  | registers hregisters _ _ =>
    cases hregisters with
    | fails _ _ hslots _ => exact hsame (congrArg List.length hslots)
    | opens _ _ _ _ _ hslots _ =>
      unfold Registry.occupancy
      rw [hslots, length_insert, (perm_entries_insert _ _).length_eq, List.length_cons]
  | looks now =>
    refine hsame ?_
    rw [← r.slots_setClock now]
    exact length_sweep ..
  | ends hremove _ => exact hsame (length_remove? (Registry.slots_of_remove? hremove).1)
  | rests _ hslots _ _ _ => exact hsame (congrArg List.length hslots)

theorem Run.length_slots [Link σ] {r : Registry σ ι} {steps : List (Step σ ι)} {m : Machine σ ι}
    (hr : r.slots = []) (h : Run r steps m) :
    m.Coherent ∧ m.registry.slots.length = peak steps := by
  refine h.induct (P := fun steps m => m.Coherent ∧ m.registry.slots.length = peak steps) ?_ ?_
  · exact ⟨coherent_start r hr, congrArg List.length hr⟩
  · rintro steps m v m' ⟨hm, hlength⟩ hmoves
    refine ⟨(hmoves.preserves hm).1, ?_⟩
    rw [peak_concat, ← hlength]
    exact (hmoves.effect hm).length_slots

end Machine

/-! ## Instance IDs of requests -/

namespace Registry

/-- Every request in the slots holds an instance ID that is taken, and no two hold the same one. -/
structure Backed (r : Registry σ ι) : Prop where
  bounded : r.ids.Bounded
  nodup : r.holders.Nodup
  taken : ∀ p ∈ r.holders, p ∈ r.ids.pairs

variable {r r' : Registry σ ι} {eid : EndpointId} {iid : InstanceId}

theorem backed_nil (hids : r.ids = {}) (hslots : r.slots = []) : r.Backed := by
  have hholders : r.holders = [] := by
    unfold holders
    rw [hslots]
    rfl
  refine ⟨?_, hholders ▸ List.nodup_nil, fun p hp => ?_⟩
  · rw [hids]
    exact InstanceIds.bounded_after []
  · rw [hholders] at hp
    cases hp

theorem Backed.release (h : r.Backed) (hheld : (eid, iid) ∉ r.holders) : (r.release eid iid).Backed := by
  refine ⟨h.bounded.use (.release eid iid), h.nodup, fun p hp => ?_⟩
  show p ∈ (r.ids.release eid iid).pairs
  rw [h.bounded.sound.pairs_release]
  refine ⟨h.taken p hp, fun heq => hheld ?_⟩
  rwa [← Set.mem_singleton_iff.1 heq]

theorem Backed.remove? (h : r.Backed) {ref : SlotRef} {e : Entry σ ι}
    (hremove : r.remove? ref = some (e, r')) : r'.Backed := by
  obtain ⟨hslots, hids⟩ := slots_of_remove? hremove
  have hperm : r.holders.Perm (e.holding :: r'.holders) :=
    (perm_entries_remove? hslots).map Entry.holding
  obtain ⟨hnot, hnodup⟩ := List.nodup_cons.1 (hperm.nodup_iff.1 h.nodup)
  refine ⟨hids ▸ h.bounded.use (.release e.key.eid e.key.iid), hnodup, fun p hp => ?_⟩
  rw [hids, h.bounded.sound.pairs_release]
  refine ⟨h.taken p (hperm.mem_iff.2 (List.mem_cons_of_mem _ hp)), fun heq => hnot ?_⟩
  rwa [Set.mem_singleton_iff.1 heq] at hp

theorem Backed.releaseStray (h : r.Backed) (key : Key) : (r.releaseStray key).Backed := by
  unfold Registry.releaseStray
  split_ifs with hholds
  · exact h
  · exact h.release fun hheld => hholds ((any_holds_iff ..).2 hheld)

theorem Backed.allocate (h : r.Backed) (eid : EndpointId) : (r.allocate eid).2.Backed := by
  refine ⟨h.bounded.allocate eid, h.nodup, fun p hp => ?_⟩
  show p ∈ (r.ids.allocate eid).2.pairs
  rcases hallocate : r.ids.allocate eid with ⟨e | iid, ids⟩
  · obtain ⟨-, rfl⟩ := InstanceIds.allocate_error hallocate
    exact h.taken p hp
  · rw [(h.bounded.sound.hands_allocate hallocate).pairs]
    exact Set.mem_insert_of_mem _ (h.taken p hp)

theorem Backed.fresh (h : r.Backed) {ids : InstanceIds} (hallocate : r.ids.allocate eid = (.ok iid, ids)) :
    (eid, iid) ∈ ids.pairs ∧ (eid, iid) ∉ r.holders := by
  have hands := h.bounded.sound.hands_allocate hallocate
  refine ⟨?_, fun hheld => ?_⟩
  · rw [hands.pairs]
    exact Set.mem_insert _ _
  · exact Bool.noConfusion (hands.free.symm.trans (h.taken _ hheld))

theorem Backed.sent [Link σ] (h : r.Backed) (htaken : (eid, iid) ∈ r.ids.pairs)
    (hheld : (eid, iid) ∉ r.holders) {request : Request} {label : ι} {program : Program σ ι}
    {g : Registration σ ι} (hsent : r.Sent eid iid request label program g) :
    g.registry.Backed ∧ (g.registry.reclaim eid iid g.result).Backed := by
  cases hsent with
  | duplicate => exact ⟨h, h⟩
  | unencodable => exact ⟨h, h.release hheld⟩
  | refused _ _ link =>
    have hlink : Backed { r with link := link } := ⟨h.bounded, h.nodup, h.taken⟩
    exact ⟨hlink, hlink.release hheld⟩
  | accepted msg link _ _ _ =>
    have hperm := (perm_entries_insert (.opened label ⟨eid, iid, request.typ, request.cmd⟩ msg r.policy
      r.clock program) r.slots).map Entry.holding
    have hopened : Backed { r with
        link := link
        slots := insert (.opened label ⟨eid, iid, request.typ, request.cmd⟩ msg r.policy r.clock program)
          r.slots } := by
      refine ⟨h.bounded, hperm.nodup_iff.2 (List.nodup_cons.2 ⟨hheld, h.nodup⟩), fun p hp => ?_⟩
      rcases List.mem_cons.1 (hperm.mem_iff.1 hp) with rfl | hp
      · exact htaken
      · exact h.taken p hp
    exact ⟨hopened, hopened⟩

theorem Backed.register [Link σ] (h : r.Backed) {s : Submission ι}
    (hgiven : ∀ iid, s.source = .given iid → (s.eid, iid) ∈ r.ids.pairs ∧ (s.eid, iid) ∉ r.holders)
    (program : Program σ ι) : (r.register s program).registry.Backed := by
  have hallocate' := h.allocate s.eid
  unfold Registry.allocate at hallocate'
  have hdraws := r.draws_register s program
  generalize r.register s program = g at hdraws
  cases hdraws with
  | given iid hsource =>
    obtain ⟨htaken, hheld⟩ := hgiven iid hsource
    exact (h.sent htaken hheld (r.send_cases ..)).1
  | exhausted e ids hallocate =>
    rw [hallocate] at hallocate'
    exact hallocate'
  | drawn iid ids _ hallocate =>
    obtain ⟨htaken, hheld⟩ := h.fresh hallocate
    rw [hallocate] at hallocate'
    exact (hallocate'.sent htaken hheld (send_cases { r with ids := ids } ..)).1
  | lent iid ids g _ hallocate hsend =>
    obtain ⟨htaken, hheld⟩ := h.fresh hallocate
    rw [hallocate] at hallocate'
    subst hsend
    exact (hallocate'.sent htaken hheld (send_cases { r with ids := ids } ..)).2

/-- The IDs that an endpoint can have. -/
def slate (eid : EndpointId) : List (EndpointId × InstanceId) :=
  (List.finRange 32).map fun i : Fin 32 => (eid, UInt8.ofNat i)

theorem length_slate (eid : EndpointId) : (slate eid).length = 32 := by
  simp [slate]

theorem mem_slate {p : EndpointId × InstanceId} {ids : InstanceIds} (h : p ∈ ids.pairs) :
    p ∈ slate p.1 := by
  obtain ⟨i, hi⟩ := InstanceIds.exists_index_of_mem h
  exact List.mem_map.2 ⟨i, List.mem_finRange i, Prod.ext rfl hi.symm⟩

theorem Backed.length_filter_le (h : r.Backed) (eid : EndpointId) :
    ((entries r.slots).filter fun e => e.key.eid = eid).length ≤ 32 := by
  have hnodup : (((entries r.slots).filter fun e => e.key.eid = eid).map Entry.holding).Nodup :=
    h.nodup.sublist (List.filter_sublist.map _)
  have hsub : ((entries r.slots).filter fun e => e.key.eid = eid).map Entry.holding ⊆ slate eid := by
    intro p hp
    obtain ⟨e, he, rfl⟩ := List.mem_map.1 hp
    obtain ⟨hmem, heid⟩ := List.mem_filter.1 he
    rw [← of_decide_eq_true heid]
    exact mem_slate (h.taken _ (List.mem_map_of_mem hmem))
  calc ((entries r.slots).filter fun e => e.key.eid = eid).length
      = (((entries r.slots).filter fun e => e.key.eid = eid).map Entry.holding).length :=
        (List.length_map _).symm
    _ ≤ (slate eid).length := (List.subperm_of_subset hnodup hsub).length_le
    _ = 32 := length_slate eid

theorem Backed.occupancy_le (h : r.Backed) : r.occupancy ≤ 1024 := by
  have hsub : r.holders ⊆ r.ids.rows.flatMap fun row => slate row.eid := by
    intro p hp
    obtain ⟨row, hrow, heid, -⟩ := h.bounded.sound.isTaken_iff.1 (h.taken p hp)
    exact List.mem_flatMap.2 ⟨row, hrow, heid ▸ mem_slate (h.taken p hp)⟩
  have hrows := h.bounded.length
  calc r.occupancy = r.holders.length := (List.length_map _).symm
    _ ≤ (r.ids.rows.flatMap fun row => slate row.eid).length :=
        (List.subperm_of_subset h.nodup hsub).length_le
    _ = r.ids.rows.length * 32 := by simp [List.length_flatMap, length_slate]
    _ ≤ 1024 := Nat.mul_le_mul_right 32 hrows

end Registry

namespace Machine

/-! ## Runs -/

/-- The instance ID under which a caller registers a request, if the caller names it. -/
def Move.given? : Move σ ι → Option (EndpointId × InstanceId)
  | .call _ (.register ⟨eid, .given iid, _, _⟩ _) => some (eid, iid)
  | _ => none

/-- The instance ID that a caller gives back by name. -/
def Move.released? : Move σ ι → Option (EndpointId × InstanceId)
  | .call _ (.act (.release eid iid)) => some (eid, iid)
  | _ => none

/-- A registration allocates its instance ID, or has one that is allocated and that no request holds. -/
def Step.Fresh (s : Step σ ι) : Prop :=
  ∀ p ∈ s.move.given?, s.before.registry.ids.isTaken p.1 p.2 = true ∧ p ∉ s.before.registry.holders

/-- No instance ID that a request holds is given back by name. -/
def Step.SparesHeld (s : Step σ ι) : Prop :=
  ∀ p ∈ s.move.released?, p ∉ s.before.registry.holders

instance (s : Step σ ι) : Decidable s.Fresh :=
  s.move.given?.decidableForallMem

instance (s : Step σ ι) : Decidable s.SparesHeld :=
  s.move.released?.decidableForallMem

theorem Step.Fresh.given {m m' : Machine σ ι} {caller : Caller ι} {s : Submission ι}
    {program : Program σ ι} (h : Step.Fresh ⟨.call caller (.register s program), m, m'⟩)
    (iid : InstanceId) (hsource : s.source = .given iid) :
    (s.eid, iid) ∈ m.registry.ids.pairs ∧ (s.eid, iid) ∉ m.registry.holders := by
  obtain ⟨eid, source, request, label⟩ := s
  subst hsource
  exact h (eid, iid) rfl

theorem Acts.backed [Link σ] {m m' : Machine σ ι} {caller : Caller ι} {action : Action σ}
    (hm : m.registry.Backed) (h : m.Acts caller action m')
    (hspares : Step.SparesHeld ⟨.call caller (.act action), m, m'⟩) : m'.registry.Backed := by
  cases h with
  | completes _ _ _ _ _ _ hcompletes => exact hm.remove? hcompletes.remove
  | update now =>
    have hsweeps := m.sweeps_update caller now
    refine ⟨hsweeps.ids ▸ hm.bounded, hsweeps.holders ▸ hm.nodup, ?_⟩
    rw [hsweeps.holders, hsweeps.ids]
    exact hm.taken
  | quiet r outcome hquiet =>
    show r.Backed
    cases hquiet with
    | ask _ => exact hm
    | allocate eid => exact hm.allocate eid
    | release eid iid => exact hm.release (hspares (eid, iid) rfl)
    | stray _ key _ => exact hm.releaseStray key
    | link _ link => exact ⟨hm.bounded, hm.nodup, hm.taken⟩

theorem Moves.backed [Link σ] {m m' : Machine σ ι} {v : Move σ ι} (hcoherent : m.Coherent)
    (hm : m.registry.Backed) (h : m.Moves v m') (hfresh : Step.Fresh ⟨v, m, m'⟩)
    (hspares : Step.SparesHeld ⟨v, m, m'⟩) : m'.registry.Backed := by
  cases h with
  | @call caller op m₀ hcalls =>
    have hregistry := hcalls.eq.1
    rw [← hregistry] at hm
    cases op with
    | register s program =>
      refine hm.register (fun iid hsource => ?_) program
      rw [hregistry]
      exact hfresh.given iid hsource
    | act action =>
      refine (act_cases (hcoherent.calls hcalls).programs caller action).backed hm fun p hp => ?_
      rw [hregistry]
      exact hspares p hp
  | @expire caller ref refs rest hstack =>
    obtain ⟨e, -, hcompletes⟩ := completes_expire hcoherent hstack
    exact hm.remove? hcompletes.remove
  | settle _ _ _ _ => exact hm

/-- With an instance ID for each request the number of slots is bounded. -/
theorem Run.backed [Link σ] {r : Registry σ ι} {steps : List (Step σ ι)} {m : Machine σ ι}
    (hslots : r.slots = []) (hids : r.ids = {}) (h : Run r steps m) (hfresh : ∀ s ∈ steps, s.Fresh)
    (hspares : ∀ s ∈ steps, s.SparesHeld) : m.registry.Backed ∧ peak steps ≤ 1024 := by
  revert hfresh hspares
  refine (h.induct (P := fun steps m => m.Coherent ∧ ((∀ s ∈ steps, s.Fresh) →
    (∀ s ∈ steps, s.SparesHeld) → m.registry.Backed ∧ peak steps ≤ 1024)) ?_ ?_).2
  · exact ⟨coherent_start r hslots, fun _ _ => ⟨Registry.backed_nil hids hslots, Nat.zero_le _⟩⟩
  · rintro steps m v m' ⟨hm, ih⟩ hmoves
    refine ⟨(hmoves.preserves hm).1, fun hfresh hspares => ?_⟩
    obtain ⟨hbacked, hpeak⟩ := ih (fun s hs => hfresh s (List.mem_append_left _ hs))
      fun s hs => hspares s (List.mem_append_left _ hs)
    have hbacked' := hmoves.backed hm hbacked (hfresh _ (List.mem_append_right _ List.mem_cons_self))
      (hspares _ (List.mem_append_right _ List.mem_cons_self))
    refine ⟨hbacked', ?_⟩
    rw [peak_concat]
    exact max_le hpeak hbacked'.occupancy_le

/-- **The slots do not grow with use.** Over any run of a new registry there are as many slots as there were
requests in them at most, outstanding or ended. If every registration allocates its instance ID, or has one
that is allocated and that no request holds, and if nobody gives back an ID that a request holds, there are
at most 32 requests to each endpoint and at most 1024 slots. -/
theorem Run.slots_bounded [Link σ] {link : σ} {policy : Policy} {r : Registry σ ι}
    {warnings : List Warning} (hr : Registry.create link policy = .ok (r, warnings))
    {steps : List (Step σ ι)} {m : Machine σ ι} (h : Run r steps m) :
    m.registry.slots.length = peak steps ∧
    ((∀ s ∈ steps, s.Fresh) → (∀ s ∈ steps, s.SparesHeld) →
      (∀ eid, ((entries m.registry.slots).filter fun e => e.key.eid = eid).length ≤ 32) ∧
      m.registry.slots.length ≤ 1024) := by
  have hnew : r.slots = [] ∧ r.ids = {} := by
    rw [Registry.create_eq hr]
    exact ⟨rfl, rfl⟩
  obtain ⟨-, hlength⟩ := h.length_slots hnew.1
  refine ⟨hlength, fun hfresh hspares => ?_⟩
  obtain ⟨hbacked, hpeak⟩ := h.backed hnew.1 hnew.2 hfresh hspares
  exact ⟨hbacked.length_filter_le, hlength.trans_le hpeak⟩

/-- The host registers two requests. The program of the first one registers a third, which goes into the
slot that is emptied. -/
theorem Run.slots_bounded_reused :
    ∃ (r : Registry Outbox Nat) (steps : List (Step Outbox Nat)) (m : Machine Outbox Nat),
      Registry.create {} {} = .ok (r, []) ∧ Run r steps m ∧ (∀ s ∈ steps, s.Fresh) ∧
      (∀ s ∈ steps, s.SparesHeld) ∧ (steps.flatMap Step.registered).length = 3 ∧
      m.registry.slots.length = peak steps ∧ peak steps = 2 ∧
      ((entries m.registry.slots).filter fun e => e.key.eid = 9).length ≤ 32 := by
  have hr : Registry.create ({} : Outbox) {} =
      .ok ((⟨{}, {}, {}, [], 0⟩ : Registry Outbox Nat), []) := rfl
  have h₁ := (Run.start (r := (⟨{}, {}, {}, [], 0⟩ : Registry Outbox Nat))).perform rfl
    (.register ⟨9, .lent, ⟨0, 2, []⟩, 0⟩ (.register ⟨9, .lent, ⟨0, 3, []⟩, 2⟩ .done .done))
  have h₂ := h₁.perform (stack_run _) (.register ⟨9, .lent, ⟨0, 2, []⟩, 1⟩ .done)
  have h₃ := h₂.perform (stack_run _) (.act (.respond ⟨9, 0, 0, 2⟩ [0]))
  obtain ⟨hlength, hbounds⟩ := h₃.slots_bounded hr
  exact ⟨_, _, _, hr, h₃, by decide +kernel, by decide +kernel, by decide +kernel, hlength,
    by decide +kernel, (hbounds (by decide +kernel) (by decide +kernel)).1 9⟩

/-- With 32 requests to an endpoint the ID of one of them is given back by name. The next registration
allocates it, for another command, and there are 33. -/
theorem Run.slots_exceed_after_release :
    ∃ (r : Registry Outbox Nat) (steps : List (Step Outbox Nat)) (m : Machine Outbox Nat),
      Registry.create {} {} = .ok (r, []) ∧ Run r steps m ∧ (∀ s ∈ steps, s.Fresh) ∧
      ∃ s ∈ steps, 32 < ((entries s.after.registry.slots).filter fun e => e.key.eid = 9).length := by
  have hr : Registry.create ({} : Outbox) {} =
      .ok ((⟨{}, {}, {}, [], 0⟩ : Registry Outbox Nat), []) := rfl
  obtain ⟨m, hrun, -⟩ := (Run.start (r := (⟨{}, {}, {}, [], 0⟩ : Registry Outbox Nat))).course rfl
    (List.replicate 32 (.register ⟨9, .lent, ⟨0, 2, []⟩, 0⟩ .done) ++
      [.act (.release 9 0), .register ⟨9, .lent, ⟨0, 3, []⟩, 0⟩ .done])
  exact ⟨_, _, m, hr, hrun, by decide +kernel, by decide +kernel⟩

end Machine

end PlatformMessaging
