import PlatformMessaging.Proofs.Registry.Completion
import PlatformMessaging.Proofs.Transaction.InstanceIds

/-!
# Taken instance IDs are held by requests

`Machine.Run.taken_iff_held`: as long as every registration takes its own instance ID and gives it
back if it fails (`Move.Lends`), the IDs that are taken are at any time those of the requests in the
slots, outstanding or ended, and no two requests have the same. No response frees an ID that a
request holds, and when nothing is under way or outstanding, nothing is taken.

The invariant is `Registry.Owned`. An ID that was just handed out was free, so no request holds it;
hence a registration under it finds no duplicate, and gives back nothing that is held if it fails.
Emptying a slot gives back the ID of its request and of no other one, because the IDs of requests
differ. A response that no outstanding request waits for gives its ID back only if no slot holds it,
which also counts the requests that an `update` has marked and not finished yet.
-/

namespace PlatformMessaging

open Slots

variable {σ ι : Type}

def Entry.holding (e : Entry σ ι) : EndpointId × InstanceId :=
  (e.key.eid, e.key.iid)

namespace Registry

/-- The endpoints and instance IDs of the requests in the slots. -/
def holders (r : Registry σ ι) : List (EndpointId × InstanceId) :=
  (entries r.slots).map Entry.holding

/-- The instance IDs that are taken are those of the requests in the slots, which all differ. -/
structure Owned (r : Registry σ ι) : Prop where
  sound : r.ids.Sound
  nodup : r.holders.Nodup
  isTaken : ∀ eid iid, r.ids.isTaken eid iid = true ↔ (eid, iid) ∈ r.holders

theorem owned_nil {r : Registry σ ι} (hids : r.ids = {}) (hslots : r.slots = []) : r.Owned := by
  have hholders : r.holders = [] := by
    unfold holders
    rw [hslots]
    rfl
  refine ⟨?_, ?_, fun eid iid => ?_⟩
  · rw [hids]
    exact InstanceIds.sound_nil
  · rw [hholders]
    exact List.nodup_nil
  · rw [hholders, hids, InstanceIds.sound_nil.isTaken_iff]
    simp

theorem Owned.congr {r r' : Registry σ ι} (h : r.Owned) (hsound : r'.ids.Sound)
    (hholders : r'.holders = r.holders)
    (htaken : ∀ eid iid, r'.ids.isTaken eid iid = true ↔ r.ids.isTaken eid iid = true) :
    r'.Owned := by
  refine ⟨hsound, hholders ▸ h.nodup, fun eid iid => ?_⟩
  rw [htaken, hholders]
  exact h.isTaken eid iid

theorem Owned.remove? {r r' : Registry σ ι} (h : r.Owned) {ref : SlotRef} {e : Entry σ ι}
    (hremove : r.remove? ref = some (e, r')) : r'.Owned := by
  obtain ⟨hslots, hids⟩ := slots_of_remove? hremove
  have hperm : r.holders.Perm (e.holding :: r'.holders) :=
    (perm_entries_remove? hslots).map Entry.holding
  obtain ⟨hnot, hnodup⟩ := List.nodup_cons.1 (hperm.nodup_iff.1 h.nodup)
  refine ⟨hids ▸ h.sound.release, hnodup, fun eid iid => ?_⟩
  rw [hids, h.sound.isTaken_release, h.isTaken, hperm.mem_iff]
  constructor
  · rintro ⟨hmem, hother⟩
    rcases List.mem_cons.1 hmem with heq | hrest
    · exact absurd (Prod.mk.inj heq) hother
    · exact hrest
  · intro hmem
    refine ⟨List.mem_cons_of_mem _ hmem, ?_⟩
    rintro ⟨rfl, rfl⟩
    exact hnot hmem

theorem any_holds_iff (r : Registry σ ι) (eid : EndpointId) (iid : InstanceId) :
    (r.slots.any fun s => s.holds eid iid) = true ↔ (eid, iid) ∈ r.holders := by
  unfold holders
  rw [List.any_eq_true, List.mem_map]
  constructor
  · rintro ⟨s, hs, hholds⟩
    obtain ⟨e, he, hkey⟩ := (Option.any_eq_true _ _).1 hholds
    refine ⟨e, mem_entries.2 ⟨s, hs, he⟩, ?_⟩
    simpa [Entry.holding] using hkey
  · rintro ⟨e, he, hholding⟩
    obtain ⟨s, hs, hse⟩ := mem_entries.1 he
    refine ⟨s, hs, ?_⟩
    simpa [Slot.holds, hse, Entry.holding] using hholding

theorem Owned.isTaken_releaseStray {r : Registry σ ι} (h : r.Owned) (key : Key) (eid : EndpointId)
    (iid : InstanceId) :
    (r.releaseStray key).ids.isTaken eid iid = true ↔ r.ids.isTaken eid iid = true := by
  unfold releaseStray
  split_ifs with hholds
  · exact Iff.rfl
  · show (r.ids.release key.eid key.iid).isTaken eid iid = true ↔ _
    rw [h.sound.isTaken_release]
    constructor
    · exact And.left
    · intro htaken
      refine ⟨htaken, ?_⟩
      rintro ⟨rfl, rfl⟩
      exact hholds ((any_holds_iff ..).2 ((h.isTaken ..).1 htaken))

theorem Owned.releaseStray {r : Registry σ ι} (h : r.Owned) (key : Key) :
    (r.releaseStray key).Owned := by
  refine h.congr ?_ ?_ (h.isTaken_releaseStray key)
  · unfold Registry.releaseStray
    split_ifs
    · exact h.sound
    · exact h.sound.release
  · unfold holders
    rw [slots_releaseStray]

/-- The ends of a registration that takes its own instance ID. It meets no other request, so that the
ID is given back if it fails. -/
inductive Lent [Link σ] (r : Registry σ ι) (s : Submission ι) (program : Program σ ι) :
    Registration σ ι → Prop where
  | exhausted (hallocate : r.ids.allocate s.eid = (.error .poolExhausted, r.ids)) :
      Lent r s program ⟨.error .poolExhausted, r, []⟩
  | unencodable {ids : InstanceIds} {iid : InstanceId} (e : MessageError)
      (hallocate : r.ids.allocate s.eid = (.ok iid, ids)) (hencode : s.request.encode iid = .error e) :
      Lent r s program
        ⟨.error (.messaging e), { r with ids := ids.release s.eid iid }, []⟩
  | refused {ids : InstanceIds} {iid : InstanceId} (msg : Bytes) (e : LinkError) (link : σ)
      (hallocate : r.ids.allocate s.eid = (.ok iid, ids)) (hnew : (s.eid, iid) ∉ r.holders)
      (hencode : s.request.encode iid = .ok msg)
      (hlink : Link.send s.eid msg r.link = (.error e, link)) :
      Lent r s program
        ⟨.error (.link e), { r with link := link, ids := ids.release s.eid iid },
          [.attempt s.label ⟨s.eid, iid, s.request.typ, s.request.cmd⟩ msg (.error e) r.clock]⟩
  | accepted {ids : InstanceIds} {iid : InstanceId} (msg : Bytes) (link : σ)
      (hallocate : r.ids.allocate s.eid = (.ok iid, ids)) (hnew : (s.eid, iid) ∉ r.holders)
      (hencode : s.request.encode iid = .ok msg)
      (hlink : Link.send s.eid msg r.link = (.ok (), link)) :
      Lent r s program
        ⟨.ok ⟨s.eid, iid, s.request.typ, s.request.cmd⟩,
          { r with
            link := link
            ids := ids
            slots := Slots.insert (.opened s.label ⟨s.eid, iid, s.request.typ, s.request.cmd⟩ msg
              r.policy r.clock program) r.slots },
          [.attempt s.label ⟨s.eid, iid, s.request.typ, s.request.cmd⟩ msg (.ok ()) r.clock,
            .opened s.label ⟨s.eid, iid, s.request.typ, s.request.cmd⟩ r.clock]⟩

theorem Owned.lent_cases [Link σ] {r : Registry σ ι} (h : r.Owned) (s : Submission ι)
    (hs : s.source = .lent) (program : Program σ ι) : r.Lent s program (r.register s program) := by
  rcases r.lends_register hs program with ⟨e, ids, hallocate, hregister⟩ |
    ⟨iid, ids, g, hallocate, hsent, hregister⟩
  · rw [hregister]
    obtain ⟨rfl, rfl⟩ := InstanceIds.allocate_error hallocate
    exact .exhausted hallocate
  · have hnew : (s.eid, iid) ∉ r.holders := by
      intro hmem
      have htaken := (h.isTaken _ _).2 hmem
      exact Bool.noConfusion ((h.sound.hands_allocate hallocate).free.symm.trans htaken)
    rw [hregister]
    cases hsent with
    | duplicate e hfind =>
      exfalso
      obtain ⟨hmem, hkey⟩ := of_find?_eq_some hfind
      apply hnew
      refine List.mem_map.2 ⟨e, (mem_live.1 hmem).1, ?_⟩
      rw [Entry.holding, hkey]
    | unencodable e _ hencode => exact .unencodable e hallocate hencode
    | refused msg e link _ hencode hlink => exact .refused msg e link hallocate hnew hencode hlink
    | accepted msg link hfind hencode hlink => exact .accepted msg link hallocate hnew hencode hlink

theorem Owned.lent [Link σ] {r : Registry σ ι} (h : r.Owned) {s : Submission ι}
    {program : Program σ ι} {g : Registration σ ι} (hlent : r.Lent s program g) :
    g.registry.Owned := by
  have hback : ∀ ids iid link, r.ids.allocate s.eid = (.ok iid, ids) →
      Owned { r with ids := ids.release s.eid iid, link := link } := by
    intro ids iid link hallocate
    have hands := h.sound.hands_allocate hallocate
    exact h.congr hands.sound.release rfl hands.isTaken_release
  cases hlent with
  | exhausted hallocate => exact h
  | unencodable e hallocate hencode => exact hback _ _ r.link hallocate
  | refused msg e link hallocate hnew hencode hlink => exact hback _ _ link hallocate
  | @accepted ids iid msg link hallocate hnew hencode hlink =>
    have hands := h.sound.hands_allocate hallocate
    have hperm := (perm_entries_insert (.opened s.label ⟨s.eid, iid, s.request.typ, s.request.cmd⟩
      msg r.policy r.clock program) r.slots).map Entry.holding
    refine ⟨hands.sound, ?_, fun eid' iid' => ?_⟩
    · exact hperm.nodup_iff.2 (List.nodup_cons.2 ⟨hnew, h.nodup⟩)
    · show ids.isTaken eid' iid' = true ↔ (eid', iid') ∈ (entries (Slots.insert _ _)).map _
      rw [hands.isTaken, h.isTaken, hperm.mem_iff, List.map_cons, List.mem_cons]
      show _ ↔ (eid', iid') = (s.eid, iid) ∨ _
      rw [Prod.mk.injEq]
      exact or_comm

theorem Lent.not_duplicate [Link σ] {r : Registry σ ι} {s : Submission ι} {program : Program σ ι}
    {g : Registration σ ι} (h : r.Lent s program g) (key : Key) :
    g.result ≠ .error (.duplicateKey key) := by
  intro hresult
  cases h <;> cases hresult

end Registry

/-- The action neither takes an instance ID nor gives one back by name. -/
def Action.keepsIds : Action σ → Bool
  | .allocate _ => false
  | .release _ _ => false
  | _ => true

namespace Machine

/-- The move keeps to the discipline: a registration takes its own instance ID, and nobody else
takes or gives back any. -/
def Move.Lends : Move σ ι → Prop
  | .call _ (.register submission _) => submission.source = .lent
  | .call _ (.act action) => action.keepsIds = true
  | _ => True

instance (move : Move σ ι) : Decidable move.Lends :=
  match move with
  | .call _ (.register submission _) => inferInstanceAs (Decidable (submission.source = .lent))
  | .call _ (.act action) => inferInstanceAs (Decidable (action.keepsIds = true))
  | .expire _ _ => inferInstanceAs (Decidable True)
  | .settle => inferInstanceAs (Decidable True)

theorem Sweeps.holders {m m' : Machine σ ι} {caller : Caller ι} (h : m.Sweeps caller m') :
    m'.registry.holders = m.registry.holders := by
  have hnames := congrArg (List.map fun name => (name.2.1.eid, name.2.1.iid)) h.names
  rw [List.map_map, List.map_map] at hnames
  exact hnames

theorem Acts.owned [Link σ] {m m' : Machine σ ι} {caller : Caller ι} {action : Action σ}
    (hm : m.registry.Owned) (h : m.Acts caller action m')
    (hlends : Move.Lends (.call caller (.act action))) : m'.registry.Owned := by
  cases h with
  | completes ref e result outcome hlive hanswers h => exact hm.remove? h.remove
  | update now =>
    have h := m.sweeps_update caller now
    refine hm.congr (h.ids ▸ hm.sound) h.holders fun eid iid => ?_
    rw [h.ids]
  | quiet r outcome h =>
    show r.Owned
    cases h with
    | ask _ => exact hm
    | allocate eid => cases hlends
    | release eid iid => cases hlends
    | stray _ key hfind => exact hm.releaseStray key
    | link _ link => exact hm.congr hm.sound rfl fun _ _ => Iff.rfl

theorem Moves.owned [Link σ] {m m' : Machine σ ι} {move : Move σ ι} (hcoherent : m.Coherent)
    (hm : m.registry.Owned) (h : m.Moves move m') (hlends : move.Lends) : m'.registry.Owned := by
  cases h with
  | @call caller op m₀ hcalls =>
    obtain ⟨hregistry, -, -⟩ := hcalls.eq
    rw [← hregistry] at hm
    cases op with
    | act action =>
      exact (act_cases (hcoherent.calls hcalls).programs caller action).owned hm hlends
    | register submission program => exact hm.lent (hm.lent_cases submission hlends program)
  | @expire caller ref refs rest hstack =>
    obtain ⟨e, -, hcompletes⟩ := completes_expire hcoherent hstack
    exact hm.remove? hcompletes.remove
  | settle hstack hpending events hevents => exact hm

theorem Run.owned [Link σ] {r : Registry σ ι} {steps : List (Step σ ι)} {m : Machine σ ι}
    (hslots : r.slots = []) (hids : r.ids = {}) (h : Run r steps m)
    (hlends : ∀ s ∈ steps, s.move.Lends) : m.Coherent ∧ m.registry.Owned ∧
      ∀ s ∈ steps, s.before.Coherent ∧ s.before.registry.Owned ∧ s.before.Moves s.move s.after := by
  revert hlends
  refine h.induct (P := fun steps m => (∀ s ∈ steps, s.move.Lends) → m.Coherent ∧ m.registry.Owned ∧
    ∀ s ∈ steps, s.before.Coherent ∧ s.before.registry.Owned ∧ s.before.Moves s.move s.after) ?_ ?_
  · intro _
    exact ⟨coherent_start r hslots, Registry.owned_nil hids hslots, by simp⟩
  · intro steps m move m' ih hmoves hlends
    obtain ⟨hcoherent, howned, hsteps⟩ :=
      ih fun s hs => hlends s (List.mem_append_left _ hs)
    have hmove : move.Lends := hlends ⟨move, m, m'⟩ (by simp)
    refine ⟨(hmoves.preserves hcoherent).1, hmoves.owned hcoherent howned hmove, fun s hs => ?_⟩
    rcases List.mem_append.1 hs with hold | hnew
    · exact hsteps s hold
    · obtain rfl := List.mem_singleton.1 hnew
      exact ⟨hcoherent, howned, hmoves⟩

theorem Moves.isTaken_stray [Link σ] {m m' : Machine σ ι} {caller : Caller ι} {action : Action σ}
    {key : Key} {rest : Bytes} (hcoherent : m.Coherent) (hm : m.registry.Owned)
    (h : m.Moves (.call caller (.act action)) m') (hdelivers : action.Delivers key rest)
    (hfind : find? m.registry.slots key = none) (eid : EndpointId) (iid : InstanceId) :
    m'.registry.ids.isTaken eid iid = m.registry.ids.isTaken eid iid := by
  cases h with
  | @call _ _ m₀ hcalls =>
    obtain ⟨hregistry, -, -⟩ := hcalls.eq
    have hprograms := (hcoherent.calls hcalls).programs
    rw [← hregistry] at hm hfind ⊢
    obtain ⟨matched, stray, hact⟩ := act_of_delivers hdelivers m₀ caller
    show (m₀.act caller action).registry.ids.isTaken eid iid = _
    rw [hact]
    rcases respond_cases hprograms caller key rest matched stray with
      ⟨ref, e, hlive, hkey, hcompletes⟩ | ⟨-, hstray⟩
    · exfalso
      have hperm := perm_entries_remove? (Registry.slots_of_remove? hcompletes.remove).1
      exact find?_eq_none.1 hfind e (hperm.mem_iff.2 List.mem_cons_self) hlive hkey
    · rw [hstray]
      exact Bool.eq_iff_iff.2 (hm.isTaken_releaseStray key eid iid)

theorem Moves.not_duplicate [Link σ] {m m' : Machine σ ι} {move : Move σ ι} (hm : m.registry.Owned)
    (h : m.Moves move m') (hlends : move.Lends) {submission : Submission ι} {program : Program σ ι}
    {caller : Caller ι} (hmove : move = .call caller (.register submission program)) {key : Key} :
    .returned caller (.registered (.error (.duplicateKey key))) ∉ Step.events ⟨move, m, m'⟩ := by
  subst hmove
  intro hmem
  rw [h.registration.1] at hmem
  rcases List.mem_append.1 hmem with hold | hlast
  · exact (m.registry.adds_register submission program).quiet _ hold
  · have hresult := List.mem_singleton.1 hlast
    injection hresult with _ houtcome
    injection houtcome with hresult
    exact (hm.lent_cases submission hlends program).not_duplicate key hresult.symm

/-! ## The result -/

/-- Over any run of a new registry that keeps to the discipline, the instance IDs that are taken are
those of the requests in the slots, and these differ. A registration meets no request with its key,
so that its ID is given back whenever it fails; a response that no outstanding request waits for
changes nothing about any ID; and when nothing is under way or outstanding, nothing is taken. -/
theorem Run.taken_iff_held [Link σ] {link : σ} {policy : Policy} {r : Registry σ ι}
    {warnings : List Warning} (hr : Registry.create link policy = .ok (r, warnings))
    {steps : List (Step σ ι)} {m : Machine σ ι} (h : Run r steps m)
    (hlends : ∀ s ∈ steps, s.move.Lends) :
    (∀ eid iid, m.registry.ids.isTaken eid iid = true ↔
      ∃ e ∈ entries m.registry.slots, e.key.eid = eid ∧ e.key.iid = iid) ∧
    (entries m.registry.slots).Pairwise
      (fun e e' => ¬(e.key.eid = e'.key.eid ∧ e.key.iid = e'.key.iid)) ∧
    (∀ s ∈ steps, ∀ caller submission program key,
      s.move = .call caller (.register submission program) →
      .returned caller (.registered (.error (.duplicateKey key))) ∉ s.events) ∧
    (∀ s ∈ steps, ∀ caller action key rest, s.move = .call caller (.act action) →
      action.Delivers key rest → find? s.before.registry.slots key = none →
      ∀ eid iid, s.after.registry.ids.isTaken eid iid = s.before.registry.ids.isTaken eid iid) ∧
    (m.stack = [] → m.registry.outstanding = 0 →
      ∀ eid, m.registry.ids.count eid = 0 ∧ ∀ iid, m.registry.ids.isTaken eid iid = false) := by
  have hnew : r.slots = [] ∧ r.ids = {} := by
    rw [Registry.create_eq hr]
    exact ⟨rfl, rfl⟩
  obtain ⟨hcoherent, howned, hsteps⟩ := h.owned hnew.1 hnew.2 hlends
  have htaken : ∀ eid iid, m.registry.ids.isTaken eid iid = true ↔
      ∃ e ∈ entries m.registry.slots, e.key.eid = eid ∧ e.key.iid = iid := by
    intro eid iid
    rw [howned.isTaken]
    unfold Registry.holders Entry.holding
    simp
  refine ⟨htaken, ?_, ?_, ?_, ?_⟩
  · have hpairwise := List.pairwise_map.1 howned.nodup
    exact hpairwise.imp fun hne hsame => hne (Prod.ext hsame.1 hsame.2)
  · intro s hs caller submission program key hmove
    obtain ⟨-, hbefore, hmoves⟩ := hsteps s hs
    exact hmoves.not_duplicate hbefore (hlends s hs) hmove
  · intro s hs caller action key rest hmove hdelivers hfind
    obtain ⟨hbefore, hbeforeOwned, hmoves⟩ := hsteps s hs
    exact (hmove ▸ hmoves).isTaken_stray hbefore hbeforeOwned hdelivers hfind
  · intro hstack houtstanding eid
    have hentries : entries m.registry.slots = [] := by
      rw [← live_eq_entries (hcoherent.ended_eq_nil hstack)]
      exact List.eq_nil_of_length_eq_zero houtstanding
    have hfree : ∀ iid, m.registry.ids.isTaken eid iid = false := by
      intro iid
      rw [Bool.eq_false_iff]
      intro hmem
      obtain ⟨e, he, -⟩ := (htaken eid iid).1 hmem
      rw [hentries] at he
      cases he
    exact ⟨InstanceIds.count_eq_zero hfree, hfree⟩

/-- Two requests run out of time in one `update`. While the second waits to be finished, the program
of the first delivers a response to it, which finds nobody waiting, and registers a third. -/
theorem Run.taken_iff_held_reentrant :
    ∃ (r : Registry Outbox Nat) (steps : List (Step Outbox Nat)) (m : Machine Outbox Nat),
      Registry.create {} {} = .ok (r, []) ∧ Run r steps m ∧ (∀ s ∈ steps, s.move.Lends) ∧
      (steps.flatMap Step.registered).length = 3 ∧ m.registry.ids.count 9 = 0 := by
  have hr : Registry.create ({} : Outbox) {} =
      .ok ((⟨{}, {}, {}, [], 0⟩ : Registry Outbox Nat), []) := rfl
  have h₁ := (Run.start (r := (⟨{}, {}, {}, [], 0⟩ : Registry Outbox Nat))).perform rfl
    (.register ⟨9, .lent, ⟨0, 2, []⟩, 0⟩
      (.act (.respond ⟨9, 1, 0, 2⟩ [0]) (.register ⟨9, .lent, ⟨0, 3, []⟩, 2⟩ .done .done)))
  have h₂ := h₁.perform (stack_run _) (.register ⟨9, .lent, ⟨0, 2, []⟩, 1⟩ .done)
  have h₃ := h₂.perform (stack_run _) (.act (.update 8000))
  have h₄ := h₃.perform (stack_run _) (.act (.cancel ⟨9, 2, 0, 3⟩))
  obtain ⟨-, -, -, -, hrest⟩ := h₄.taken_iff_held hr (by decide +kernel)
  exact ⟨_, _, _, hr, h₄, by decide +kernel, by decide +kernel,
    (hrest (stack_run _) (by decide +kernel) 9).1⟩

end Machine

end PlatformMessaging
