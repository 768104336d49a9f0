import PlatformMessaging.Link.Outbox
import PlatformMessaging.Proofs.Registry.Product

/-!
# Requests do not interfere

Whatever else a registry does, a request fares as in a registry that has no other and is given only
what concerns it (`Registry.history_eq_alone`): the updates, the responses to its key and the
cancellations of it. Each of its messages is offered to the link in the same operation, and it ends in
the same operation with the same result, whatever the link answers.

The two registries are `Twins`: they have the same clock and policy, and the request either in both or
in neither. An operation that concerns the request keeps them so (`Twins.concerned`), and so does any
other in the larger registry (`Tidy.frame`). Both follow from `Registry.Tidy.perform_act`.
-/

namespace PlatformMessaging

open Slots

variable {σ ι : Type}

namespace Registry

variable [Link σ]

def performs (r : Registry σ ι) (ops : List (Operation σ ι)) : Registry σ ι :=
  ops.foldl (fun r op => (r.perform op).registry) r

/-- What is seen of the request of a label in numbered operations, each time with the number. -/
def history [DecidableEq ι] (label : ι) :
    Registry σ ι → List (Operation σ ι × Nat) → List (Nat × Sighting ι)
  | _, [] => []
  | r, (op, n) :: rest =>
    ((sightings (r.perform op).events).filter fun x => x.label = label).map (Prod.mk n) ++
      (r.perform op).registry.history label rest

end Registry

namespace Operation

/-- The operation concerns the request of a key: it sets the clock, brings a response to it or gives
it up. -/
def concerns (key : Key) : Operation σ ι → Bool
  | .act (.update _) => true
  | .act action => action.answer?.any fun p => p.1 = key
  | .register _ _ => false

/-- The operation does not register a request of the label, nor one with a program. -/
def Apart (label : ι) : Operation σ ι → Prop
  | .act _ => True
  | .register s program => s.label ≠ label ∧ program = .done

theorem of_not_concerns {action : Action σ} {key : Key}
    (h : (Operation.act action : Operation σ ι).concerns key = false) :
    (¬∃ now, action = .update now) ∧ ∀ p, action.answer? = some p → p.1 ≠ key := by
  cases action with
  | update now => cases h
  | _ =>
    refine ⟨by simp, fun p hp => ?_⟩
    simpa [concerns, hp] using h

end Operation

/-! ## Registering -/

namespace Registry

/-- How a registration turns out, as far as requests are concerned. -/
inductive Registers (r : Registry σ ι) (s : Submission ι) (program : Program σ ι)
    (g : Registration σ ι) : Prop where
  | fails (error : RequestError) (hresult : g.result = .error error)
      (hslots : g.registry.slots = r.slots)
      (hseen : ∀ x ∈ sightings g.events, x.label = s.label)
  | opens (iid : InstanceId) (msg : Bytes)
      (hresult : g.result = .ok ⟨s.eid, iid, s.request.typ, s.request.cmd⟩)
      (hencode : s.request.encode iid = .ok msg)
      (hnew : find? r.slots ⟨s.eid, iid, s.request.typ, s.request.cmd⟩ = none)
      (hslots : g.registry.slots = insert (.opened s.label ⟨s.eid, iid, s.request.typ, s.request.cmd⟩
        msg r.policy r.clock program) r.slots)
      (hseen : sightings g.events =
        [.sent s.label ⟨s.eid, iid, s.request.typ, s.request.cmd⟩ msg])

theorem policy_clock_reclaim (r : Registry σ ι) (eid : EndpointId) (iid : InstanceId)
    (result : Except RequestError Key) :
    (r.reclaim eid iid result).policy = r.policy ∧ (r.reclaim eid iid result).clock = r.clock := by
  unfold reclaim
  split <;> exact ⟨rfl, rfl⟩

theorem Sent.registers [Link σ] {r : Registry σ ι} {ids : InstanceIds} {s : Submission ι}
    {iid : InstanceId} {program : Program σ ι} {g : Registration σ ι}
    (h : Sent { r with ids := ids } s.eid iid s.request s.label program g) :
    r.Registers s program g ∧ g.registry.policy = r.policy ∧ g.registry.clock = r.clock := by
  cases h with
  | duplicate e hfind => exact ⟨.fails _ rfl rfl (by simp [sightings]), rfl, rfl⟩
  | unencodable e hfind hencode => exact ⟨.fails _ rfl rfl (by simp [sightings]), rfl, rfl⟩
  | refused msg e link hfind hencode hlink =>
    refine ⟨.fails _ rfl rfl fun x hx => ?_, rfl, rfl⟩
    obtain rfl := List.mem_singleton.1 hx
    rfl
  | accepted msg link hfind hencode hlink => exact ⟨.opens iid msg rfl hencode hfind rfl rfl, rfl, rfl⟩

theorem Registers.reclaim {r : Registry σ ι} {s : Submission ι} {program : Program σ ι}
    {g : Registration σ ι} (h : r.Registers s program g) (eid : EndpointId) (iid : InstanceId)
    (result : Except RequestError Key) :
    r.Registers s program { g with registry := g.registry.reclaim eid iid result } := by
  cases h with
  | fails error hresult hslots hseen =>
    exact .fails error hresult ((slots_reclaim ..).trans hslots) hseen
  | opens iid msg hresult hencode hnew hslots hseen =>
    exact .opens iid msg hresult hencode hnew ((slots_reclaim ..).trans hslots) hseen

theorem registers_register [Link σ] (r : Registry σ ι) (s : Submission ι) (program : Program σ ι) :
    r.Registers s program (r.register s program) ∧
      (r.register s program).registry.policy = r.policy ∧
      (r.register s program).registry.clock = r.clock := by
  have hdraws := r.draws_register s program
  generalize r.register s program = g at hdraws
  cases hdraws with
  | given iid _ => exact (send_cases { r with ids := r.ids } ..).registers
  | exhausted e ids _ => exact ⟨.fails _ rfl rfl (by simp [sightings]), rfl, rfl⟩
  | drawn iid ids _ _ => exact (send_cases { r with ids := ids } ..).registers
  | lent iid ids g _ _ hsend =>
    subst hsend
    obtain ⟨hregisters, hpolicy, hclock⟩ :=
      (send_cases { r with ids := ids } s.eid iid s.request s.label program).registers
    obtain ⟨hpolicy', hclock'⟩ := policy_clock_reclaim ..
    exact ⟨hregisters.reclaim .., hpolicy'.trans hpolicy, hclock'.trans hclock⟩

theorem perform_register [Link σ] (r : Registry σ ι) (s : Submission ι) (program : Program σ ι) :
    (r.perform (.register s program)).registry = (r.register s program).registry ∧
      (r.perform (.register s program)).outcome = .registered (r.register s program).result ∧
      sightings (r.perform (.register s program)).events =
        sightings (r.register s program).events := by
  have hrun : (Machine.start ⟨r, [], []⟩ .host (.register s program)).run =
      Machine.start ⟨r, [], []⟩ .host (.register s program) := Machine.run_of_stack_eq_nil rfl
  unfold perform
  rw [hrun]
  refine ⟨rfl, rfl, ?_⟩
  simp [Machine.start, Machine.register, Machine.answer, Machine.record, sightings,
    Event.sighting?]

theorem Tidy.perform_register [Link σ] {r : Registry σ ι} (hr : r.Tidy) (s : Submission ι) :
    (r.perform (.register s .done)).registry.Tidy ∧
      (r.perform (.register s .done)).registry.policy = r.policy ∧
      (r.perform (.register s .done)).registry.clock = r.clock ∧
      ((∃ error, (r.perform (.register s .done)).outcome = .registered (.error error) ∧
          entries (r.perform (.register s .done)).registry.slots = entries r.slots ∧
          ∀ x ∈ sightings (r.perform (.register s .done)).events, x.label = s.label) ∨
        ∃ iid msg, s.request.encode iid = .ok msg ∧
          (r.perform (.register s .done)).outcome =
            .registered (.ok ⟨s.eid, iid, s.request.typ, s.request.cmd⟩) ∧
          (entries (r.perform (.register s .done)).registry.slots).Perm
            (.opened s.label ⟨s.eid, iid, s.request.typ, s.request.cmd⟩ msg r.policy r.clock .done ::
              entries r.slots) ∧
          sightings (r.perform (.register s .done)).events =
            [.sent s.label ⟨s.eid, iid, s.request.typ, s.request.cmd⟩ msg]) := by
  obtain ⟨hregisters, hpolicy, hclock⟩ := registers_register r s .done
  obtain ⟨hregistry, houtcome, hevents⟩ := r.perform_register s .done
  rw [hregistry, houtcome, hevents]
  generalize r.register s .done = g at hregisters hpolicy hclock ⊢
  cases hregisters with
  | fails error hresult hslots hseen =>
    refine ⟨⟨⟨?_, ?_⟩, ?_⟩, hpolicy, hclock, .inl ⟨error, by rw [hresult], by rw [hslots], hseen⟩⟩
    all_goals rw [hslots]
    · exact hr.ended
    · exact hr.programs
    · exact hr.keys
  | opens iid msg hresult hencode hnew hslots hseen =>
    have hperm := perm_entries_insert (.opened s.label ⟨s.eid, iid, s.request.typ, s.request.cmd⟩ msg
      r.policy r.clock .done) r.slots
    rw [← hslots] at hperm
    refine ⟨⟨⟨?_, ?_⟩, ?_⟩, hpolicy, hclock, .inr ⟨iid, msg, hencode, by rw [hresult], hperm, hseen⟩⟩
    · rw [hslots, ended_insert rfl]
      exact hr.ended
    · intro e he
      rcases List.mem_cons.1 (hperm.mem_iff.1 he) with rfl | he
      · rfl
      · exact hr.programs e he
    · refine (hperm.map Entry.key).nodup_iff.2 (List.nodup_cons.2 ⟨fun hmem => ?_, hr.keys⟩)
      obtain ⟨e, he, hkey⟩ := List.mem_map.1 hmem
      exact find?_eq_none.1 hnew e he (hr.isLive he) hkey

end Registry

/-! ## The share of a label -/

theorem eq_of_perm_of_length_le_one {α : Type} {a b : List α} (h : a.Perm b) (hb : b.length ≤ 1) :
    a = b := by
  match b with
  | [] => exact h.eq_nil
  | [x] => exact List.perm_singleton.1 h

theorem length_flatMap_le_one {α β : Type} {g : α → List β} {es : List α} (hes : es.length ≤ 1)
    (h : ∀ e ∈ es, (g e).length ≤ 1) : (es.flatMap g).length ≤ 1 := by
  match es with
  | [] => exact Nat.zero_le 1
  | [e] => simpa using h e (List.mem_singleton_self e)

section Share

variable [DecidableEq ι] (label : ι)

theorem filter_flatMap_label {β : Type} {labelOf : β → ι} {g : Entry σ ι → List β}
    {es : List (Entry σ ι)} (h : ∀ e ∈ es, ∀ x ∈ g e, labelOf x = e.label) :
    (es.flatMap g).filter (fun x => labelOf x = label) =
      (es.filter fun e => e.label = label).flatMap g := by
  induction es with
  | nil => rfl
  | cons e es ih =>
    obtain ⟨he, hes⟩ := List.forall_mem_cons.1 h
    rw [List.flatMap_cons, List.filter_append, ih hes]
    by_cases hlabel : e.label = label
    · rw [List.filter_cons_of_pos (by simpa using hlabel), List.flatMap_cons,
        List.filter_eq_self.2 fun x hx => by simpa [he x hx] using hlabel]
    · rw [List.filter_cons_of_neg (by simpa using hlabel),
        List.filter_eq_nil_iff.2 fun x hx => by simpa [he x hx] using hlabel, List.nil_append]

end Share

namespace Entry

variable [Link σ] {e : Entry σ ι} (link : σ) (now timeout : Nat)

theorem fare_names (hlive : e.isLive = true) (action : Action σ) :
    (∀ e' ∈ (e.fare link now timeout action).1, e'.label = e.label ∧ e'.key = e.key) ∧
      (∀ x ∈ (e.fare link now timeout action).2, x.label = e.label) ∧
      (e.fare link now timeout action).1.length ≤ 1 ∧
      (e.fare link now timeout action).2.length ≤ 1 := by
  have hfares := fare_cases hlive link now timeout action
  generalize e.fare link now timeout action = p at hfares
  cases hfares with
  | stays e' hcore =>
    obtain ⟨hlabel, hkey, -, -⟩ := core_eq hcore
    simp [hlabel, hkey]
  | sends e' hcore =>
    obtain ⟨hlabel, hkey, -, -⟩ := core_eq hcore
    simp [hlabel, hkey, Sighting.label]
  | ends result => simp [Sighting.label]

theorem fare_of_not_concerns {action : Action σ}
    (h : (Operation.act action : Operation σ ι).concerns e.key = false) :
    e.fare link now timeout action = ([e], []) := by
  obtain ⟨hupdate, hanswer⟩ := Operation.of_not_concerns h
  rcases hp : action.answer? with _ | ⟨key, result⟩
  · exact fare_of_answer?_eq_none hp hupdate e link now timeout
  · rw [fare_of_answer?_eq_some hp, if_neg (hanswer _ hp).symm]

end Entry

namespace Registry

variable [Link σ] [DecidableEq ι] {label : ι} {key : Key} {r alone : Registry σ ι}

/-- What is not about the requests of a label leaves them alone, and shows nothing of them. -/
theorem Tidy.frame (hr : r.Tidy) {op : Operation σ ι} (hop : op.Apart label)
    (hothers : ∀ e ∈ entries r.slots, e.label = label → op.concerns e.key = false) :
    (r.perform op).registry.Tidy ∧ (r.perform op).registry.policy = r.policy ∧
      ((entries (r.perform op).registry.slots).filter fun e => e.label = label).Perm
        ((entries r.slots).filter fun e => e.label = label) ∧
      ((sightings (r.perform op).events).filter fun x => x.label = label) = [] := by
  cases op with
  | act action =>
    obtain ⟨htidy, hpolicy, -, hleft, hseen⟩ := hr.perform_act r.link action
    have hnames := fun e (he : e ∈ entries r.slots) =>
      Entry.fare_names r.link r.clock r.policy.responseTimeout (hr.isLive he) action
    have hstays : ∀ e ∈ (entries r.slots).filter fun e => e.label = label,
        e.fare r.link r.clock r.policy.responseTimeout action = ([e], []) := by
      intro e he
      obtain ⟨hmem, hlabel⟩ := List.mem_filter.1 he
      exact Entry.fare_of_not_concerns _ _ _ (hothers e hmem (by simpa using hlabel))
    obtain ⟨hkept, hnone⟩ := flatMap_stays _ hstays
    refine ⟨htidy, hpolicy, ?_, ?_⟩
    · have hshare := hleft.filter fun e => e.label = label
      rw [filter_flatMap_label label fun e he e' he' => ((hnames e he).1 e' he').1, hkept] at hshare
      exact hshare
    · have hshare := hseen.filter fun x => x.label = label
      rw [filter_flatMap_label label fun e he x hx => (hnames e he).2.1 x hx, hnone] at hshare
      exact hshare.eq_nil
  | register s program =>
    obtain ⟨hlabel, rfl⟩ := hop
    obtain ⟨htidy, hpolicy, -, ⟨error, -, hentries, hseen⟩ | ⟨iid, msg, -, -, hperm, hseen⟩⟩ :=
      hr.perform_register s
    · refine ⟨htidy, hpolicy, by rw [hentries], List.filter_eq_nil_iff.2 fun x hx => ?_⟩
      simpa [hseen x hx] using hlabel
    · refine ⟨htidy, hpolicy, ?_, ?_⟩
      · refine (hperm.filter _).trans (.of_eq (List.filter_cons_of_neg ?_))
        simp [Entry.opened, hlabel]
      · rw [hseen]
        simp [Sighting.label, hlabel]

omit [DecidableEq ι] in
theorem Tidy.clock_perform (hr : r.Tidy) {op : Operation σ ι} (hop : op.Apart label)
    (hconcerns : op.concerns key = false) : (r.perform op).registry.clock = r.clock := by
  cases op with
  | act action =>
    obtain ⟨-, -, hclock, -⟩ := hr.perform_act r.link action
    obtain ⟨hupdate, -⟩ := Operation.of_not_concerns hconcerns
    rw [hclock]
    cases action with
    | update now => exact absurd ⟨now, rfl⟩ hupdate
    | _ => rfl
  | register s program =>
    obtain ⟨-, rfl⟩ := hop
    exact (hr.perform_register s).2.2.1

/-! ## Twins -/

/-- The request of a label fares alike in both registries, and the second has no other. -/
structure Twins (label : ι) (key : Key) (r alone : Registry σ ι) : Prop where
  tidy : r.Tidy
  tidyAlone : alone.Tidy
  policy : alone.policy = r.policy
  clock : alone.clock = r.clock
  share : ((entries r.slots).filter fun e => e.label = label) = entries alone.slots
  few : (entries alone.slots).length ≤ 1
  keys : ∀ e ∈ entries alone.slots, e.key = key

theorem Twins.unconcerned (h : Twins label key r alone) {op : Operation σ ι} (hop : op.Apart label)
    (hconcerns : op.concerns key = false) :
    Twins label key (r.perform op).registry alone ∧
      ((sightings (r.perform op).events).filter fun x => x.label = label) = [] := by
  have hothers : ∀ e ∈ entries r.slots, e.label = label → op.concerns e.key = false := by
    intro e he hlabel
    have hmem : e ∈ entries alone.slots := h.share ▸ List.mem_filter.2 ⟨he, by simpa using hlabel⟩
    rw [h.keys e hmem]
    exact hconcerns
  obtain ⟨htidy, hpolicy, hshare, hseen⟩ := h.tidy.frame hop hothers
  have hclock := h.tidy.clock_perform hop hconcerns
  rw [h.share] at hshare
  exact ⟨⟨htidy, h.tidyAlone, h.policy.trans hpolicy.symm, h.clock.trans hclock.symm,
    eq_of_perm_of_length_le_one hshare h.few, h.few, h.keys⟩, hseen⟩

/-- An action does the same to the request in both registries. -/
theorem Twins.concerned (h : Twins label key r alone) (action : Action σ) :
    Twins label key (r.perform (.act action)).registry (alone.perform (.act action)).registry ∧
      ((sightings (r.perform (.act action)).events).filter fun x => x.label = label) =
        (sightings (alone.perform (.act action)).events).filter fun x => x.label = label := by
  obtain ⟨htidy, hpolicy, hclock, hleft, hseen⟩ := h.tidy.perform_act alone.link action
  obtain ⟨htidy', hpolicy', hclock', hleft', hseen'⟩ := h.tidyAlone.perform_act alone.link action
  rw [h.policy, h.clock] at hleft' hseen'
  have hnames := fun e (he : e ∈ entries r.slots) =>
    Entry.fare_names alone.link r.clock r.policy.responseTimeout (h.tidy.isLive he) action
  have hmem : ∀ e ∈ entries alone.slots, e ∈ entries r.slots :=
    fun e he => List.mem_of_mem_filter (h.share.symm ▸ he)
  have hall : ((entries alone.slots).filter fun e => e.label = label) = entries alone.slots := by
    rw [← h.share, List.filter_filter]
    simp
  -- What becomes of the request is the same on both sides, and at most one thing.
  have hshare := hleft.filter fun e => e.label = label
  have hsights := hseen.filter fun x => x.label = label
  have hsights' := hseen'.filter fun x => x.label = label
  rw [filter_flatMap_label label fun e he e' he' => ((hnames e he).1 e' he').1, h.share] at hshare
  rw [filter_flatMap_label label fun e he x hx => (hnames e he).2.1 x hx, h.share] at hsights
  rw [filter_flatMap_label label fun e he x hx => (hnames e (hmem e he)).2.1 x hx, hall] at hsights'
  have hfew := length_flatMap_le_one h.few fun e he => (hnames e (hmem e he)).2.2.1
  have hfew' := length_flatMap_le_one h.few fun e he => (hnames e (hmem e he)).2.2.2
  have hentries := eq_of_perm_of_length_le_one hleft' hfew
  refine ⟨⟨htidy, htidy', ?_, ?_, ?_, hentries ▸ hfew, fun e he => ?_⟩, ?_⟩
  · rw [hpolicy, hpolicy', h.policy]
  · rw [hclock, hclock', h.clock]
  · rw [eq_of_perm_of_length_le_one hshare hfew, hentries]
  · obtain ⟨e₀, he₀, he⟩ := List.mem_flatMap.1 (hleft'.mem_iff.1 he)
    rw [((hnames e₀ (hmem e₀ he₀)).1 e he).2, h.keys e₀ he₀]
  · rw [eq_of_perm_of_length_le_one hsights hfew', eq_of_perm_of_length_le_one hsights' hfew']

/-- The history of the request is that in its twin, given what concerns it. -/
theorem Twins.history_eq (h : Twins label key r alone) {ops : List (Operation σ ι × Nat)}
    (hops : ∀ p ∈ ops, p.1.Apart label) :
    r.history label ops = alone.history label (ops.filter fun p => p.1.concerns key) := by
  induction ops generalizing r alone with
  | nil => rfl
  | cons p ops ih =>
    obtain ⟨op, n⟩ := p
    obtain ⟨hop, hrest⟩ := List.forall_mem_cons.1 hops
    rw [List.filter_cons]
    by_cases hconcerns : op.concerns key = true
    · rw [if_pos hconcerns]
      obtain ⟨action, rfl⟩ : ∃ action, op = .act action := by
        cases op with
        | act action => exact ⟨action, rfl⟩
        | register s program => cases hconcerns
      obtain ⟨htwins, hseen⟩ := h.concerned action
      rw [history, history, hseen, ih htwins hrest]
    · rw [if_neg hconcerns]
      obtain ⟨htwins, hseen⟩ := h.unconcerned hop (by simpa using hconcerns)
      rw [history, hseen, ih htwins hrest]
      rfl

/-! ## The result -/

theorem history_append (label : ι) (r : Registry σ ι) (xs ys : List (Operation σ ι × Nat)) :
    r.history label (xs ++ ys) =
      r.history label xs ++ (r.performs (xs.map Prod.fst)).history label ys := by
  induction xs generalizing r with
  | nil => rfl
  | cons p xs ih =>
    obtain ⟨op, n⟩ := p
    rw [List.cons_append, history, history, ih, List.append_assoc]
    rfl

theorem Tidy.absent (hr : r.Tidy) (hlabel : ∀ e ∈ entries r.slots, e.label ≠ label)
    {ops : List (Operation σ ι × Nat)} (hops : ∀ p ∈ ops, p.1.Apart label) :
    r.history label ops = [] ∧ (r.performs (ops.map Prod.fst)).Tidy ∧
      (r.performs (ops.map Prod.fst)).policy = r.policy ∧
      ∀ e ∈ entries (r.performs (ops.map Prod.fst)).slots, e.label ≠ label := by
  induction ops generalizing r with
  | nil => exact ⟨rfl, hr, rfl, hlabel⟩
  | cons p ops ih =>
    obtain ⟨op, n⟩ := p
    obtain ⟨hop, hops⟩ := List.forall_mem_cons.1 hops
    obtain ⟨htidy, hpolicy, hshare, hseen⟩ :=
      hr.frame hop fun e he heq => absurd heq (hlabel e he)
    have hnone : ((entries r.slots).filter fun e => e.label = label) = [] :=
      List.filter_eq_nil_iff.2 fun e he => by simpa using hlabel e he
    rw [hnone] at hshare
    have hlabel' : ∀ e ∈ entries (r.perform op).registry.slots, e.label ≠ label :=
      fun e he heq => List.filter_eq_nil_iff.1 hshare.eq_nil e he (by simpa using heq)
    obtain ⟨hhistory, htidy', hpolicy', hlabel''⟩ := ih htidy hlabel' hops
    refine ⟨?_, htidy', hpolicy'.trans hpolicy, hlabel''⟩
    rw [history, hseen, hhistory]
    rfl

omit [Link σ] [DecidableEq ι] in
theorem tidy_of_entries_eq_nil (hr : entries r.slots = []) : r.Tidy := by
  refine ⟨⟨ended_of_entries_eq_nil hr 0, ?_⟩, ?_⟩
  all_goals rw [hr]
  · exact fun e he => nomatch he
  · exact List.nodup_nil

/-- A request that is registered in a registry and, under the same instance ID, in one that has no
other makes them twins. -/
theorem Tidy.twins (hr : r.Tidy) (s : Submission ι) (hlabel : ∀ e ∈ entries r.slots, e.label ≠ s.label)
    (hregistered : (r.perform (.register s .done)).outcome = .registered (.ok key))
    (halone : entries alone.slots = []) (hpolicy : alone.policy = r.policy)
    (hclock : alone.clock = r.clock)
    (hregistered' : (alone.perform (.register { s with source := .given key.iid } .done)).outcome =
      .registered (.ok key)) :
    Twins s.label key (r.perform (.register s .done)).registry
        (alone.perform (.register { s with source := .given key.iid } .done)).registry ∧
      sightings (r.perform (.register s .done)).events =
        sightings (alone.perform (.register { s with source := .given key.iid } .done)).events := by
  obtain ⟨htidy, hpol, hclk, ⟨error, hfails, -⟩ | ⟨iid, msg, hencode, hopens, hperm, hseen⟩⟩ :=
    hr.perform_register s
  · rw [hregistered] at hfails
    cases hfails
  obtain ⟨htidy', hpol', hclk', ⟨error, hfails, -⟩ | ⟨iid', msg', hencode', hopens', hperm', hseen'⟩⟩ :=
    (tidy_of_entries_eq_nil halone).perform_register { s with source := .given key.iid }
  · rw [hregistered'] at hfails
    cases hfails
  obtain rfl := Except.ok.inj (Outcome.registered.inj (hregistered.symm.trans hopens))
  obtain ⟨-, rfl, -, -⟩ := Key.mk.inj
    (Except.ok.inj (Outcome.registered.inj (hregistered'.symm.trans hopens')))
  -- Both registrations succeed under the same ID, so that the entries are equal.
  obtain rfl := Except.ok.inj (hencode.symm.trans hencode')
  have hnone : ((entries r.slots).filter fun e => e.label = s.label) = [] :=
    List.filter_eq_nil_iff.2 fun e he => by simpa using hlabel e he
  have hshare := hperm.filter fun e => e.label = s.label
  rw [List.filter_cons_of_pos (by simp [Entry.opened]), hnone] at hshare
  rw [halone, hpolicy, hclock] at hperm'
  have hentries := List.perm_singleton.1 hperm'
  refine ⟨⟨htidy, htidy', ?_, ?_, ?_, ?_, ?_⟩, hseen.trans hseen'.symm⟩
  · rw [hpol, hpol', hpolicy]
  · rw [hclk, hclk', hclock]
  · rw [hentries]
    exact List.perm_singleton.1 hshare
  · rw [hentries]
    exact Nat.le_refl 1
  · intro e he
    rw [hentries] at he
    obtain rfl := List.mem_singleton.1 he
    rfl

/-- **Requests do not interfere.** In a run of a new registry in which no program does anything, take
a registration that succeeds and whose label no other has. What is seen of this request in each
operation, from first to last, is what is seen of it in any registry with the same policy and clock
reading that has no requests, whatever its link, when it is registered there under its instance ID and
then only what concerns its key is done. -/
theorem history_eq_alone {link : σ} {policy : Policy} {r₀ : Registry σ ι} {warnings : List Warning}
    (hcreate : Registry.create link policy = .ok (r₀, warnings)) (before after : List (Operation σ ι))
    (s : Submission ι) (hbefore : ∀ op ∈ before, op.Apart s.label)
    (hafter : ∀ op ∈ after, op.Apart s.label)
    (hregistered : ((r₀.performs before).perform (.register s .done)).outcome = .registered (.ok key))
    (halone : entries alone.slots = []) (hpolicy : alone.policy = policy)
    (hclock : alone.clock = (r₀.performs before).clock)
    (hregistered' : (alone.perform (.register { s with source := .given key.iid } .done)).outcome =
      .registered (.ok key)) :
    r₀.history s.label (before ++ .register s .done :: after).zipIdx =
      alone.history s.label ((.register { s with source := .given key.iid } .done, before.length) ::
        (after.zipIdx (before.length + 1)).filter fun p => p.1.concerns key) := by
  have hslots : entries r₀.slots = [] := by
    rw [create_eq hcreate]
    rfl
  have hpolicy₀ : r₀.policy = policy := by rw [create_eq hcreate]
  have hnumbered : ∀ (ops : List (Operation σ ι)) (n : Nat), (∀ op ∈ ops, op.Apart s.label) →
      ∀ p ∈ ops.zipIdx n, p.1.Apart s.label :=
    fun ops n hops p hp => hops p.1 (List.fst_mem_of_mem_zipIdx hp)
  obtain ⟨hnone, htidy, hpol, hlabel⟩ := (tidy_of_entries_eq_nil hslots).absent
    (by rw [hslots]; exact fun e he => nomatch he) (hnumbered before 0 hbefore)
  rw [List.zipIdx_map_fst] at htidy hpol hlabel
  obtain ⟨htwins, hseen⟩ := htidy.twins s hlabel hregistered halone
    (hpolicy.trans (hpolicy₀.symm.trans hpol.symm)) hclock hregistered'
  rw [List.zipIdx_append, history_append, hnone, List.zipIdx_map_fst, List.zipIdx_cons, history,
    history, hseen, htwins.history_eq (hnumbered after _ hafter), Nat.zero_add]
  rfl

/-- Two requests, of which the second is sent again while the link refuses everything, and is answered
after the first was given up. -/
theorem history_eq_alone_refused :
    ∃ r₀ : Registry Outbox Nat, Registry.create {} {} = .ok (r₀, []) ∧
      r₀.history 1 ([.register ⟨9, .given 3, ⟨0, 2, []⟩, 0⟩ .done, .act (.update 5),
          .register ⟨9, .given 4, ⟨0, 2, []⟩, 1⟩ .done, .act (.adjust (·.refuse (some .noSpace))),
          .act (.update 2005), .act (.cancel ⟨9, 3, 0, 2⟩), .act (.respond ⟨9, 5, 0, 2⟩ [0]),
          .act (.respond ⟨9, 4, 0, 2⟩ [0, 7])] : List (Operation Outbox Nat)).zipIdx =
        [(2, .sent 1 ⟨9, 4, 0, 2⟩ [0x84, 0, 2]), (4, .sent 1 ⟨9, 4, 0, 2⟩ [0x84, 0, 2]),
          (7, .ended 1 ⟨9, 4, 0, 2⟩ (.ok ⟨4, 0, 2, 0, [7]⟩))] := by
  refine ⟨_, rfl, ?_⟩
  have hbefore : ∀ op ∈ ([.register ⟨9, .given 3, ⟨0, 2, []⟩, 0⟩ .done, .act (.update 5)] :
      List (Operation Outbox Nat)), op.Apart 1 := by
    simp [Operation.Apart]
  have hafter : ∀ op ∈ ([.act (.adjust (·.refuse (some .noSpace))), .act (.update 2005),
      .act (.cancel ⟨9, 3, 0, 2⟩), .act (.respond ⟨9, 5, 0, 2⟩ [0]),
      .act (.respond ⟨9, 4, 0, 2⟩ [0, 7])] : List (Operation Outbox Nat)), op.Apart 1 := by
    simp [Operation.Apart]
  have hcreate : Registry.create ({} : Outbox) {} =
      .ok ((⟨{}, {}, {}, [], 0⟩ : Registry Outbox Nat), []) := rfl
  have hregistered : (((⟨{}, {}, {}, [], 0⟩ : Registry Outbox Nat).performs
      [.register ⟨9, .given 3, ⟨0, 2, []⟩, 0⟩ .done, .act (.update 5)]).perform
        (.register ⟨9, .given 4, ⟨0, 2, []⟩, 1⟩ .done)).outcome =
      .registered (.ok ⟨9, 4, 0, 2⟩) := rfl
  have hregistered' : ((⟨{}, {}, {}, [], 5⟩ : Registry Outbox Nat).perform
      (.register ⟨9, .given 4, ⟨0, 2, []⟩, 1⟩ .done)).outcome = .registered (.ok ⟨9, 4, 0, 2⟩) := rfl
  have hslots : entries (⟨{}, {}, {}, [], 5⟩ : Registry Outbox Nat).slots = [] := rfl
  have halone :=
    history_eq_alone hcreate _ _ _ hbefore hafter hregistered hslots rfl rfl hregistered'
  exact halone.trans (by decide +kernel)

end Registry

end PlatformMessaging
