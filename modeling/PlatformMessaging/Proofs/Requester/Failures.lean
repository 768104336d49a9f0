import PlatformMessaging.Link.Outbox
import PlatformMessaging.Proofs.Message
import PlatformMessaging.Proofs.Registry.Keys
import PlatformMessaging.Requester.Basic

/-!
# Failed requests

A request that fails to be registered leaves no trace (`Machine.Run.failed_requests_leave_no_trace`).

Under an instance ID of the caller, `Registry.Fails` lists the failures in the order in which they are
looked for, each with the registry that it leaves: the same one, but for a message that the link refused.
A request that has run out of time and waits to be finished is not outstanding, so that its key is free.

A request of a conversation takes an instance ID first. That is given back after any failure but a
duplicate key, which cannot occur as long as the instance IDs of outstanding requests are taken: the ID
was free (`Registry.isTaken_register_lent`).
-/

namespace PlatformMessaging

open Slots

variable {σ ι κ : Type}

namespace Registry

/-- The failures of a registration under a key, with the registry and the events that they leave. Each is
looked for after those above it. -/
inductive Fails [Link σ] (r : Registry σ ι) (label : ι) (key : Key) (request : Request) :
    RequestError → Registry σ ι → List (Event ι) → Prop where
  | duplicate (e : Entry σ ι) (hmem : e ∈ live r.slots) (hkey : e.key = key) :
      Fails r label key request (.duplicateKey key) r []
  | unencodable (hnew : ∀ e ∈ live r.slots, e.key ≠ key)
      (hbounds : Message.maxInstanceId < key.iid ∨ Message.maxType < request.typ) :
      Fails r label key request (.messaging .invalidArgument) r []
  | refused (msg : Bytes) (e : LinkError) (link : σ) (hnew : ∀ e ∈ live r.slots, e.key ≠ key)
      (hencode : request.encode key.iid = .ok msg)
      (hlink : Link.send key.eid msg r.link = (.error e, link)) :
      Fails r label key request (.link e) { r with link := link }
        [.attempt label key msg (.error e) r.clock]

variable [Link σ] {r : Registry σ ι}

theorem Fails.registry_eq {label : ι} {key : Key} {request : Request} {error : RequestError}
    {after : Registry σ ι} {events : List (Event ι)}
    (h : r.Fails label key request error after events) : after = { r with link := after.link } := by
  cases h <;> rfl

theorem Fails.events_eq {label : ι} {key : Key} {request : Request} {error : RequestError}
    {after : Registry σ ι} {events : List (Event ι)}
    (h : r.Fails label key request error after events) :
    ∀ event ∈ events, ∃ msg e, event = .attempt label key msg (.error e) r.clock := by
  cases h with
  | duplicate => simp
  | unencodable => simp
  | refused msg e => exact fun event hevent => ⟨msg, e, List.mem_singleton.1 hevent⟩

theorem Fails.send_eq {eid : EndpointId} {iid : InstanceId} {request : Request} {label : ι}
    {error : RequestError} {after : Registry σ ι} {events : List (Event ι)}
    (h : r.Fails label ⟨eid, iid, request.typ, request.cmd⟩ request error after events)
    (program : Program σ ι) :
    r.send eid iid request label program = ⟨.error error, after, events⟩ := by
  unfold send
  dsimp only
  cases h with
  | duplicate e hmem hkey =>
    rw [if_pos]
    refine Option.isSome_iff_ne_none.2 fun hnone => ?_
    exact find?_eq_none_iff_live.1 hnone e hmem hkey
  | unencodable hnew hbounds =>
    rw [find?_eq_none_iff_live.2 hnew, if_neg (by simp), Request.encode_of_bounds hbounds]
  | refused msg e link hnew hencode hlink =>
    rw [find?_eq_none_iff_live.2 hnew, if_neg (by simp), hencode]
    simp [Transaction.start, Transaction.create, hlink]

theorem fails_iff (r : Registry σ ι) (eid : EndpointId) (iid : InstanceId) (request : Request)
    (label : ι) (program : Program σ ι) (error : RequestError) (after : Registry σ ι)
    (events : List (Event ι)) :
    r.Fails label ⟨eid, iid, request.typ, request.cmd⟩ request error after events ↔
      (r.send eid iid request label program).result = .error error ∧
        (r.send eid iid request label program).registry = after ∧
        (r.send eid iid request label program).events = events := by
  constructor
  · intro h
    rw [h.send_eq program]
    exact ⟨rfl, rfl, rfl⟩
  · have hsent := r.send_cases eid iid request label program
    generalize r.send eid iid request label program = g at hsent
    rintro ⟨hresult, rfl, rfl⟩
    cases hsent with
    | duplicate e hfind =>
      obtain rfl := Except.error.inj hresult
      obtain ⟨hmem, hkey⟩ := of_find?_eq_some hfind
      exact .duplicate e hmem hkey
    | unencodable e hfind hencode =>
      obtain rfl := Except.error.inj hresult
      obtain ⟨rfl, hbounds⟩ := Request.encode_eq_error hencode
      exact .unencodable (find?_eq_none_iff_live.1 hfind) hbounds
    | refused msg e link hfind hencode hlink =>
      obtain rfl := Except.error.inj hresult
      exact .refused msg e link (find?_eq_none_iff_live.1 hfind) hencode hlink
    | accepted => cases hresult

/-- What a registration that takes its own instance ID leaves when it fails: the ID is free again. -/
theorem isTaken_register_lent (hsound : r.ids.Sound)
    (htaken : ∀ e ∈ live r.slots, r.ids.isTaken e.key.eid e.key.iid = true) {s : Submission ι}
    (hs : s.source = .lent) {program : Program σ ι} {error : RequestError}
    (hresult : (r.register s program).result = .error error) (eid : EndpointId) (iid : InstanceId) :
    (r.register s program).registry.ids.isTaken eid iid = r.ids.isTaken eid iid := by
  rcases r.lends_register hs program with ⟨e, ids, hallocate, hregister⟩ |
    ⟨own, ids, g, hallocate, hsent, hregister⟩
  · rw [hregister]
    obtain ⟨-, rfl⟩ := InstanceIds.allocate_error hallocate
    rfl
  · have hands := hsound.hands_allocate hallocate
    have hback := Bool.eq_iff_iff.2 (hands.isTaken_release eid iid)
    rw [hregister] at hresult ⊢
    cases hsent with
    | duplicate e hfind =>
      -- The ID would be that of an outstanding request, and so not free.
      obtain ⟨hmem, hkey⟩ := of_find?_eq_some hfind
      have hown := htaken e hmem
      rw [hkey, hands.free] at hown
      cases hown
    | unencodable => exact hback
    | refused => exact hback
    | accepted => cases hresult

end Registry

namespace Requester

variable [Link σ]

theorem register_of_poll_send {q q' : Requester σ κ} {eid : EndpointId} {request : Request}
    {result : Except RequestError Response}
    (h : q.poll (.ready (Dialogue.send eid request)) = (.inr result, q')) :
    ∃ error, result = .error error ∧
      (q.registry.register ⟨eid, .lent, request, .ticket q.nextTicket⟩ .done).result = .error error ∧
      q' = { q with registry :=
        (q.registry.register ⟨eid, .lent, request, .ticket q.nextTicket⟩ .done).registry } := by
  unfold poll Dialogue.send advance begin at h
  dsimp only at h
  generalize q.registry.register _ _ = g at h ⊢
  rcases g with ⟨error | key, registry, events⟩
  · obtain ⟨hresult, rfl⟩ := Prod.mk.inj h
    exact ⟨error, (Sum.inr.inj hresult).symm, rfl, rfl⟩
  · cases (Prod.mk.inj h).1

end Requester

namespace Machine

variable [Link σ]

theorem Run.not_called {r : Registry σ ι} (hr : r.slots = []) {steps : List (Step σ ι)}
    {m : Machine σ ι} (h : Run r steps m) {label : ι}
    (hsteps : ∀ u ∈ steps, ∀ caller s program, u.move = .call caller (.register s program) →
      s.label = label → u.registered = []) :
    ∀ name ∈ steps.flatMap Step.called, name.1 ≠ label := by
  obtain ⟨-, hperm⟩ := h.balanced hr
  intro name hcalled hname
  have hmem := hperm.mem_iff.2 (List.mem_append_left _ hcalled)
  obtain ⟨u, hu, hmem⟩ := List.mem_flatMap.1 hmem
  obtain ⟨caller, s, program, hmove, hs⟩ := Step.exists_registers_of_mem hmem
  rw [hsteps u hu caller s program hmove (hs.trans hname)] at hmem
  cases hmem

/-- **Failed requests leave no trace.** In any run of a new registry, with programs that use it again, let
a request be registered under an instance ID of the caller. It fails exactly as `Registry.Fails` says: if
its key is outstanding; or else if it does not fit a message; or else if the link refuses its message. Then
the requests, their timers and retries, the instance IDs and the clock are as before, no other message is
sent, and its program is never called. A plain request of a conversation that ends at its first poll has
failed as well, and leaves the same and which instance IDs are taken as they were, as long as those of
outstanding requests are taken. -/
theorem Run.failed_requests_leave_no_trace {link : σ} {policy : Policy}
    {r : Registry σ (Purpose κ)} {warnings : List Warning}
    (hr : Registry.create link policy = .ok (r, warnings)) {steps : List (Step σ (Purpose κ))}
    {m : Machine σ (Purpose κ)} (h : Run r steps m) :
    (∀ t ∈ steps, ∀ caller eid iid request label program,
      t.move = .call caller (.register ⟨eid, .given iid, request, label⟩ program) →
      ∃ result events, t.events = events ++ [.returned caller (.registered result)] ∧
        (∀ error after attempts, t.before.registry.Fails label ⟨eid, iid, request.typ, request.cmd⟩
            request error after attempts ↔
          result = .error error ∧ t.after.registry = after ∧ events = attempts) ∧
        ∀ error, result = .error error →
          t.after.registry = { t.before.registry with link := t.after.registry.link } ∧
          ((∀ u ∈ steps, ∀ caller' s program', u.move = .call caller' (.register s program') →
              s.label = label → u = t) →
            ∀ name ∈ steps.flatMap Step.called, name.1 ≠ label)) ∧
    ∀ q : Requester σ κ, q.registry = m.registry →
      (∀ e ∈ live q.registry.slots, q.registry.ids.isTaken e.key.eid e.key.iid = true) →
      ∀ eid request result q', q.poll (.ready (Dialogue.send eid request)) = (.inr result, q') →
        (∃ error, result = .error error) ∧ q'.registry.slots = q.registry.slots ∧
          q'.registry.policy = q.registry.policy ∧ q'.registry.clock = q.registry.clock ∧
          q'.awaited = q.awaited ∧
          ∀ eid' iid', q'.registry.ids.isTaken eid' iid' = q.registry.ids.isTaken eid' iid' := by
  obtain ⟨hslots, hids⟩ : r.slots = [] ∧ r.ids = {} := by
    rw [Registry.create_eq hr]
    exact ⟨rfl, rfl⟩
  refine ⟨fun t ht caller eid iid request label program hmove => ?_,
    fun q hq htaken eid request result q' hpoll => ?_⟩
  · obtain ⟨before, later, hsteps⟩ := List.append_of_mem ht
    obtain ⟨-, hmoves, -⟩ := (hsteps ▸ h).split
    rw [hmove] at hmoves
    obtain ⟨htold, hafter⟩ := hmoves.registration
    have hevents : t.events = told caller
        (t.before.registry.register ⟨eid, .given iid, request, label⟩ program) := htold
    have hfails := t.before.registry.fails_iff eid iid request label program
    refine ⟨_, _, hevents, fun error after attempts => ?_, fun error hresult => ⟨?_, fun honly => ?_⟩⟩
    · rw [hafter]
      exact hfails error after attempts
    · rw [hafter]
      exact ((hfails ..).2 ⟨hresult, rfl, rfl⟩).registry_eq
    · refine h.not_called hslots fun u hu caller' s program' hregisters hlabel => ?_
      obtain rfl := honly u hu caller' s program' hregisters hlabel
      -- The only answer of the step is the failure.
      unfold Step.registered
      rw [hmove]
      refine List.filterMap_eq_nil_iff.2 fun event hevent => ?_
      rw [hevents] at hevent
      rcases List.mem_append.1 hevent with hattempt | hlast
      · obtain ⟨msg, e, rfl⟩ := ((hfails ..).2 ⟨hresult, rfl, rfl⟩).events_eq event hattempt
        rfl
      · rw [List.mem_singleton.1 hlast, hresult]
  · obtain ⟨error, rfl, hresult, rfl⟩ := Requester.register_of_poll_send hpoll
    obtain ⟨hregisters, hpolicy, hclock⟩ := q.registry.registers_register
      ⟨eid, .lent, request, .ticket q.nextTicket⟩ .done
    have hsound : q.registry.ids.Sound := hq ▸ h.sound hslots hids
    refine ⟨⟨error, rfl⟩, ?_, hpolicy, hclock, rfl,
      Registry.isTaken_register_lent hsound htaken rfl hresult⟩
    cases hregisters with
    | fails _ _ hsame _ => exact hsame
    | opens _ _ hok =>
      rw [hresult] at hok
      cases hok

/-- A request runs out of time, and waits to be finished while the program of another one registers a
request with its key, makes the link refuse messages, and registers a duplicate. In the midst of this a
request of a conversation is refused. -/
theorem Run.failed_requests_leave_no_trace_reentrant :
    ∃ (r : Registry Outbox (Purpose Nat)) (steps : List (Step Outbox (Purpose Nat)))
      (m : Machine Outbox (Purpose Nat)) (t : Step Outbox (Purpose Nat))
      (q q' : Requester Outbox Nat),
      Registry.create {} {} = .ok (r, []) ∧ Run r steps m ∧ t ∈ steps ∧
      (entries t.before.registry.slots).map (fun e => (e.label, e.key, e.isLive)) =
        [(.own 2, ⟨9, 0, 0, 2⟩, true), (.own 1, ⟨9, 0, 0, 2⟩, false)] ∧
      t.events = [.returned (.callback (.own 0) 3)
        (.registered (.error (.duplicateKey ⟨9, 0, 0, 2⟩)))] ∧
      t.after.registry = t.before.registry ∧ q.registry = m.registry ∧
      q.poll (.ready (Dialogue.send 9 ⟨0, 5, []⟩)) = (.inr (.error (.link .txFailure)), q') ∧
      q'.registry.slots = q.registry.slots ∧
      ∀ eid iid, q'.registry.ids.isTaken eid iid = q.registry.ids.isTaken eid iid := by
  have hr : Registry.create ({} : Outbox) {} =
      .ok ((⟨{}, {}, {}, [], 0⟩ : Registry Outbox (Purpose Nat)), []) := rfl
  have h₁ := (Run.start (r := (⟨{}, {}, {}, [], 0⟩ : Registry Outbox (Purpose Nat)))).perform rfl
    (.register ⟨9, .given 3, ⟨0, 2, []⟩, .own 0⟩
      (.act (.allocate 9) (.register ⟨9, .given 0, ⟨0, 2, []⟩, .own 2⟩ .done
        (.act (.adjust fun o => o.refuse (some .txFailure))
          (.register ⟨9, .given 0, ⟨0, 2, []⟩, .own 3⟩ .done .done)))))
  have h₂ := h₁.perform (stack_run _) (.register ⟨9, .given 0, ⟨0, 2, []⟩, .own 1⟩ .done)
  have h₃ := (h₂.call (.act (.update 8000)) (stack_run _)).steps 4
  have h₄ := h₃.step (f := .running (.own 0) 3 (.register ⟨9, .given 0, ⟨0, 2, []⟩, .own 3⟩ .done .done))
    rfl rfl
  obtain ⟨hregistered, hpolled⟩ := h₄.failed_requests_leave_no_trace hr
  obtain ⟨result, events, hevents, hfails, -⟩ := hregistered _
    (List.mem_append_right _ (List.mem_singleton_self _)) _ _ _ _ _ _ rfl
  have hduplicate := fun hlive : ∃ e ∈ live _, Entry.key e = ⟨9, 0, 0, 2⟩ =>
    (hfails _ _ _).1 (hlive.elim fun e he => .duplicate e he.1 he.2)
  obtain ⟨rfl, hafter, rfl⟩ := hduplicate (by decide +kernel)
  obtain ⟨-, hslots, -, -, -, htaken⟩ :=
    hpolled ⟨_, [], 0⟩ rfl (by decide +kernel) 9 ⟨0, 5, []⟩ _ _ rfl
  exact ⟨_, _, _, _, ⟨_, [], 0⟩, _, hr, h₄, List.mem_append_right _ (List.mem_singleton_self _),
    by decide +kernel, hevents, hafter, rfl, rfl, hslots, htaken⟩

end Machine

end PlatformMessaging
