import PlatformMessaging.Proofs.Registry.Deadlines
import PlatformMessaging.Proofs.Transaction.InstanceIds

/-!
# Keys of outstanding requests

In every run, whatever its programs do and whatever the link answers, no two outstanding requests have
the same key, and every message that stands in a slot is the encoding of a request under its key, and was
offered to the link (`Machine.Run.keyed`). So a key means one outstanding request.

A request that has run out of time is not outstanding, and a later one may have its key. That is why the
keys of all requests in the slots need not differ.

The allocator has one row for each endpoint in every run (`Machine.Run.sound`), so that which instance IDs
are taken is known after each release, even if hosts take and release IDs as they like.
-/

namespace PlatformMessaging

open Slots

variable {σ ι : Type}

namespace Registry

/-- No two outstanding requests have the same key, and every message in a slot is the encoding of a
request under its key. -/
structure Keyed (r : Registry σ ι) : Prop where
  nodup : ((live r.slots).map Entry.key).Nodup
  messages : ∀ e ∈ entries r.slots, ∃ data,
    Request.encode ⟨e.key.typ, e.key.cmd, data⟩ e.key.iid = .ok e.transaction.request

theorem Keyed.eq_of_key {r : Registry σ ι} (h : r.Keyed) {e e' : Entry σ ι} (he : e ∈ live r.slots)
    (he' : e' ∈ live r.slots) (hkey : e.key = e'.key) : e = e' :=
  List.inj_on_of_nodup_map h.nodup he he' hkey

theorem keyed_nil {r : Registry σ ι} (h : r.slots = []) : r.Keyed := by
  refine ⟨?_, fun e he => ?_⟩
  · rw [h]
    exact List.nodup_nil
  · rw [h] at he
    cases he

theorem keys_look_sublist [Link σ] (r : Registry σ ι) (now : Nat) :
    ((live (r.setClock now).1.sweep.1.slots).map Entry.key).Sublist
      ((live r.slots).map Entry.key) := by
  have hkey : (Entry.key ∘ fun e : Entry σ ι => (e.visit r.link
      ((Action.update now : Action σ).clock r.clock) r.policy.responseTimeout).entry) = Entry.key := by
    funext e
    exact (Entry.core_eq (e.core_visit ..)).2.1
  rw [live, r.entries_look, List.filter_map, List.map_map, hkey]
  exact (List.monotone_filter_right _ fun e he => Entry.isLive_of_visit he).map Entry.key

end Registry

namespace Machine

variable [Link σ]

theorem Effect.origin {r r' : Registry σ ι} {move : Move σ ι} {events : List (Event ι)}
    (h : Effect r move events r') {e : Entry σ ι} (he : e ∈ entries r'.slots) :
    (∃ e₀ ∈ entries r.slots, e.core = e₀.core) ∨
      (.sent e.label e.key e.transaction.request ∈ sightings events ∧ ∃ data,
        Request.encode ⟨e.key.typ, e.key.cmd, data⟩ e.key.iid = .ok e.transaction.request) := by
  cases h with
  | registers hregisters _ _ =>
    cases hregisters with
    | fails error _ hslots _ => exact .inl ⟨e, hslots ▸ he, rfl⟩
    | opens iid msg _ hencode _ hslots hseen =>
      rw [hslots] at he
      rcases List.mem_cons.1 ((perm_entries_insert _ r.slots).mem_iff.1 he) with rfl | hold
      · rw [sightings_told, hseen]
        exact .inr ⟨List.mem_singleton_self _, _, hencode⟩
      · exact .inl ⟨e, hold, rfl⟩
  | looks now =>
    rw [r.entries_look] at he
    obtain ⟨e₀, he₀, rfl⟩ := List.mem_map.1 he
    exact .inl ⟨e₀, he₀, e₀.core_visit ..⟩
  | ends hremove _ =>
    have hperm := perm_entries_remove? (Registry.slots_of_remove? hremove).1
    exact .inl ⟨e, hperm.mem_iff.2 (List.mem_cons_of_mem _ he), rfl⟩
  | rests _ hslots _ _ _ => exact .inl ⟨e, hslots ▸ he, rfl⟩

/-- Every move keeps the keys of outstanding requests distinct. -/
theorem Effect.keyed {r r' : Registry σ ι} {move : Move σ ι} {events : List (Event ι)}
    (h : Effect r move events r') (hr : r.Keyed) : r'.Keyed := by
  refine ⟨?_, fun e he => ?_⟩
  · cases h with
    | @registers _ s program _ hregisters _ _ =>
      cases hregisters with
      | fails error _ hslots _ =>
        rw [hslots]
        exact hr.nodup
      | opens iid msg _ _ hnew hslots _ =>
        have hperm := perm_entries_insert (.opened s.label ⟨s.eid, iid, s.request.typ, s.request.cmd⟩
          msg r.policy r.clock program) r.slots
        rw [← hslots] at hperm
        have hlive := (hperm.filter Entry.isLive).map Entry.key
        rw [List.filter_cons_of_pos rfl] at hlive
        refine hlive.nodup_iff.2 (List.nodup_cons.2 ⟨fun hmem => ?_, hr.nodup⟩)
        obtain ⟨e, he, hkey⟩ := List.mem_map.1 hmem
        exact find?_eq_none_iff_live.1 hnew e he hkey
    | looks now => exact hr.nodup.sublist (r.keys_look_sublist now)
    | ends hremove _ =>
      have hperm := perm_entries_remove? (Registry.slots_of_remove? hremove).1
      have hlive := (hperm.filter Entry.isLive).map Entry.key
      refine (hlive.nodup_iff.1 hr.nodup).sublist (List.Sublist.map _ ?_)
      exact (List.sublist_cons_self ..).filter _
    | rests _ hslots _ _ _ =>
      rw [hslots]
      exact hr.nodup
  · rcases h.origin he with ⟨e₀, he₀, hcore⟩ | ⟨-, hencode⟩
    · obtain ⟨-, hkey, -, hrequest⟩ := Entry.core_eq hcore
      rw [hkey, hrequest]
      exact hr.messages e₀ he₀
    · exact hencode

/-- After any run, keys are distinct, and every request in a slot has been offered to the link. -/
theorem Run.keyed {r : Registry σ ι} (hr : r.slots = []) {steps : List (Step σ ι)} {m : Machine σ ι}
    (h : Run r steps m) :
    m.Coherent ∧ m.registry.Keyed ∧ ∀ e ∈ entries m.registry.slots,
      ∃ u ∈ steps, .sent e.label e.key e.transaction.request ∈ sightings u.events := by
  refine h.induct (P := fun steps m => m.Coherent ∧ m.registry.Keyed ∧
    ∀ e ∈ entries m.registry.slots,
      ∃ u ∈ steps, .sent e.label e.key e.transaction.request ∈ sightings u.events) ?_ ?_
  · refine ⟨coherent_start r hr, Registry.keyed_nil hr, fun e he => ?_⟩
    rw [hr] at he
    cases he
  · rintro steps m v m' ⟨hm, hkeyed, hoffered⟩ hmoves
    have heffect := hmoves.effect hm
    refine ⟨(hmoves.preserves hm).1, heffect.keyed hkeyed, fun e he => ?_⟩
    rcases heffect.origin he with ⟨e₀, he₀, hcore⟩ | ⟨hsent, -⟩
    · obtain ⟨u, hu, hsent⟩ := hoffered e₀ he₀
      obtain ⟨hlabel, hkey, -, hrequest⟩ := Entry.core_eq hcore
      exact ⟨u, List.mem_append_left _ hu, hlabel ▸ hkey ▸ hrequest ▸ hsent⟩
    · exact ⟨⟨v, m, m'⟩, by simp, hsent⟩

end Machine

/-! ## Rows of instance IDs -/

namespace Registry

variable [Link σ]

theorem Sent.ids {r : Registry σ ι} {eid : EndpointId} {iid : InstanceId} {request : Request}
    {label : ι} {program : Program σ ι} {g : Registration σ ι}
    (h : r.Sent eid iid request label program g) : g.registry.ids = r.ids := by
  cases h <;> rfl

omit [Link σ] in
theorem sound_reclaim {r : Registry σ ι} (h : r.ids.Sound) (eid : EndpointId) (iid : InstanceId)
    (result : Except RequestError Key) : (r.reclaim eid iid result).ids.Sound := by
  unfold reclaim
  split
  · exact h
  · exact h
  · exact h.release

omit [Link σ] in
theorem sound_releaseStray {r : Registry σ ι} (h : r.ids.Sound) (key : Key) :
    (r.releaseStray key).ids.Sound := by
  unfold releaseStray
  split_ifs
  · exact h
  · exact h.release

theorem sound_register {r : Registry σ ι} (h : r.ids.Sound) (s : Submission ι) (program : Program σ ι) :
    (r.register s program).registry.ids.Sound := by
  have hdraws := r.draws_register s program
  generalize r.register s program = g at hdraws
  cases hdraws with
  | given iid _ =>
    rw [(r.send_cases ..).ids]
    exact h
  | exhausted e ids hallocate =>
    obtain ⟨-, rfl⟩ := InstanceIds.allocate_error hallocate
    exact h
  | drawn iid ids _ hallocate =>
    rw [(send_cases { r with ids := ids } ..).ids]
    exact (h.hands_allocate hallocate).sound
  | lent iid ids g _ hallocate hsend =>
    refine sound_reclaim ?_ ..
    rw [hsend, (send_cases { r with ids := ids } ..).ids]
    exact (h.hands_allocate hallocate).sound

omit [Link σ] in
theorem Quiet.sound {r r' : Registry σ ι} {action : Action σ} (h : r.Quiet action r')
    (hr : r.ids.Sound) : r'.ids.Sound := by
  cases h with
  | ask => exact hr
  | allocate eid =>
    show (r.ids.allocate eid).2.Sound
    rcases hallocate : r.ids.allocate eid with ⟨e | iid, ids⟩
    · obtain ⟨-, rfl⟩ := InstanceIds.allocate_error hallocate
      exact hr
    · exact (hr.hands_allocate hallocate).sound
  | release => exact hr.release
  | stray _ key _ => exact sound_releaseStray hr key
  | link => exact hr

end Registry

namespace Machine

theorem Completes.sound {m m' : Machine σ ι} {ref : SlotRef} {e : Entry σ ι}
    {result : Except RequestError Response} {stack : List (Frame σ ι)}
    (h : m.Completes ref e result stack m') (hm : m.registry.ids.Sound) : m'.registry.ids.Sound := by
  rw [(Registry.slots_of_remove? h.remove).2]
  exact hm.release

/-- Every move keeps the rows of instance IDs apart, whoever takes IDs and gives them back. -/
theorem Moves.sound [Link σ] {m m' : Machine σ ι} {move : Move σ ι} (hm : m.Coherent)
    (h : m.Moves move m') (hsound : m.registry.ids.Sound) : m'.registry.ids.Sound := by
  cases h with
  | @call caller op m₀ hcalls =>
    rw [← hcalls.eq.1] at hsound
    cases op with
    | register s program => exact Registry.sound_register hsound s program
    | act action =>
      have hacts := act_cases (hm.calls hcalls).programs caller action
      show (m₀.act caller action).registry.ids.Sound
      generalize m₀.act caller action = m' at hacts
      cases hacts with
      | completes _ _ _ _ _ _ hcompletes => exact hcompletes.sound hsound
      | update now =>
        rw [(m₀.sweeps_update caller now).ids]
        exact hsound
      | quiet r _ hquiet => exact hquiet.sound hsound
  | @expire caller ref refs rest hstack =>
    obtain ⟨e, -, hcompletes⟩ := completes_expire hm hstack
    exact hcompletes.sound hsound
  | settle => exact hsound

theorem Run.sound [Link σ] {r : Registry σ ι} (hslots : r.slots = []) (hids : r.ids = {})
    {steps : List (Step σ ι)} {m : Machine σ ι} (h : Run r steps m) : m.registry.ids.Sound := by
  refine (h.induct (P := fun _ m => m.Coherent ∧ m.registry.ids.Sound) ?_ ?_).2
  · refine ⟨coherent_start r hslots, ?_⟩
    rw [hids]
    exact InstanceIds.sound_nil
  · rintro steps m v m' ⟨hm, hsound⟩ hmoves
    exact ⟨(hmoves.preserves hm).1, hmoves.sound hm hsound⟩

end Machine

end PlatformMessaging
