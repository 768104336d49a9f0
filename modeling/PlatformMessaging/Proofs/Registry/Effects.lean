import PlatformMessaging.Proofs.Registry.Slots

/-!
# What operations do

Registering, completing, and looking at the timers are all that changes which requests are in the
slots. This module says once what each operation does, so that no later proof opens its definition.

* `Registry.send_cases` has the four ends of a registration under an instance ID,
  `Registry.draws_register` and `Registry.lends_register` where the ID comes from, and
  `Registry.adds_register` what is the same wherever it does.
* `Machine.Completes` is the end of a request: it leaves its slot and its program starts. It takes
  two steps in the code, which first marks the slot and then empties it, but nothing comes between
  them unless an `update` did the marking (`Machine.completes_of_terminate?`).
* `Machine.act_cases`: an action completes one outstanding request, or looks at all timers, or
  leaves the slots as they are (`Registry.Quiet`).
* `Machine.sweeps_update`: looking at the timers moves no request, and refers to those that ran out
  of time.
-/

namespace PlatformMessaging

variable {σ ι : Type}

/-- The event tells neither the end of a request nor an answer. -/
def Event.IsQuiet : Event ι → Prop
  | .completed .. => False
  | .returned .. => False
  | _ => True

/-- The entry of a request that has just been sent. -/
def Entry.opened (label : ι) (key : Key) (msg : Bytes) (policy : Policy) (clock : Nat)
    (program : Program σ ι) : Entry σ ι :=
  ⟨label, ⟨key, msg, policy.retries, .arm clock policy.responseTimeout, .awaitingResponse,
    some program⟩, .arm clock policy.instanceExpiry⟩

/-! ## Registering -/

namespace Registry

theorem create_eq {link : σ} {policy : Policy} {r : Registry σ ι} {warnings : List Warning}
    (h : Registry.create link policy = .ok (r, warnings)) : r = ⟨link, policy, {}, [], 0⟩ := by
  unfold create at h
  split at h
  · cases h
  · exact (Prod.mk.inj (Except.ok.inj h)).1.symm

/-- The four ends of a registration under an instance ID. -/
inductive Sent [Link σ] (r : Registry σ ι) (eid : EndpointId) (iid : InstanceId)
    (request : Request) (label : ι) (program : Program σ ι) : Registration σ ι → Prop where
  | duplicate (e : Entry σ ι)
      (hfind : Slots.find? r.slots ⟨eid, iid, request.typ, request.cmd⟩ = some e) :
      Sent r eid iid request label program
        ⟨.error (.duplicateKey ⟨eid, iid, request.typ, request.cmd⟩), r, []⟩
  | unencodable (e : MessageError)
      (hfind : Slots.find? r.slots ⟨eid, iid, request.typ, request.cmd⟩ = none)
      (hencode : request.encode iid = .error e) :
      Sent r eid iid request label program ⟨.error (.messaging e), r, []⟩
  | refused (msg : Bytes) (e : LinkError) (link : σ)
      (hfind : Slots.find? r.slots ⟨eid, iid, request.typ, request.cmd⟩ = none)
      (hencode : request.encode iid = .ok msg)
      (hlink : Link.send eid msg r.link = (.error e, link)) :
      Sent r eid iid request label program ⟨.error (.link e), { r with link := link },
        [.attempt label ⟨eid, iid, request.typ, request.cmd⟩ msg (.error e) r.clock]⟩
  | accepted (msg : Bytes) (link : σ)
      (hfind : Slots.find? r.slots ⟨eid, iid, request.typ, request.cmd⟩ = none)
      (hencode : request.encode iid = .ok msg) (hlink : Link.send eid msg r.link = (.ok (), link)) :
      Sent r eid iid request label program
        ⟨.ok ⟨eid, iid, request.typ, request.cmd⟩,
          { r with
            link := link
            slots := Slots.insert (.opened label ⟨eid, iid, request.typ, request.cmd⟩ msg r.policy
              r.clock program) r.slots },
          [.attempt label ⟨eid, iid, request.typ, request.cmd⟩ msg (.ok ()) r.clock,
            .opened label ⟨eid, iid, request.typ, request.cmd⟩ r.clock]⟩

theorem send_cases [Link σ] (r : Registry σ ι) (eid : EndpointId) (iid : InstanceId)
    (request : Request) (label : ι) (program : Program σ ι) :
    r.Sent eid iid request label program (r.send eid iid request label program) := by
  unfold send
  dsimp only
  by_cases hdup : (Slots.find? r.slots ⟨eid, iid, request.typ, request.cmd⟩).isSome = true
  · rw [if_pos hdup]
    obtain ⟨e, he⟩ := Option.isSome_iff_exists.1 hdup
    exact .duplicate e he
  · rw [if_neg hdup]
    have hfind : Slots.find? r.slots ⟨eid, iid, request.typ, request.cmd⟩ = none := by
      simpa using hdup
    cases hencode : request.encode iid with
    | error e => exact .unencodable e hfind hencode
    | ok msg =>
      rcases hlink : Link.send eid msg r.link with ⟨_ | _, link⟩
      · simp only [Transaction.start, Transaction.create, hlink]
        exact .refused msg _ link hfind hencode hlink
      · simp only [Transaction.start, Transaction.create, hlink]
        exact .accepted msg link hfind hencode hlink

/-- A registration adds one outstanding request under the name that it reports, or it fails and
leaves the slots as they are. -/
structure Registration.Adds (slots : List (Slot σ ι)) (label : ι) (program : Program σ ι)
    (g : Registration σ ι) : Prop where
  quiet : ∀ event ∈ g.events, event.IsQuiet
  slots : (∃ e : Entry σ ι, g.result = .ok e.key ∧ e.isLive = true ∧
      e.name = (label, e.key, some program) ∧ g.registry.slots = Slots.insert e slots) ∨
    ∃ error, g.result = .error error ∧ g.registry.slots = slots

theorem Sent.adds [Link σ] {r : Registry σ ι} {eid : EndpointId} {iid : InstanceId}
    {request : Request} {label : ι} {program : Program σ ι} {g : Registration σ ι}
    (h : r.Sent eid iid request label program g) : g.Adds r.slots label program := by
  cases h with
  | duplicate e hfind =>
    exact ⟨by simp, .inr ⟨_, rfl, rfl⟩⟩
  | unencodable e hfind hencode =>
    exact ⟨by simp, .inr ⟨_, rfl, rfl⟩⟩
  | refused msg e link hfind hencode hlink =>
    exact ⟨by simp [Event.IsQuiet], .inr ⟨_, rfl, rfl⟩⟩
  | accepted msg link hfind hencode hlink =>
    exact ⟨by simp [Event.IsQuiet], .inl ⟨_, rfl, rfl, rfl, rfl⟩⟩

/-- Where the instance ID of a registration comes from: it is given, or none is free, or a free one is
taken, which is given back after a failure if it is lent. -/
inductive Draws [Link σ] (r : Registry σ ι) (s : Submission ι) (program : Program σ ι) :
    Registration σ ι → Prop where
  | given (iid : InstanceId) (hsource : s.source = .given iid) :
      Draws r s program (r.send s.eid iid s.request s.label program)
  | exhausted (e : RequestError) (ids : InstanceIds)
      (hallocate : r.ids.allocate s.eid = (.error e, ids)) :
      Draws r s program ⟨.error e, { r with ids := ids }, []⟩
  | drawn (iid : InstanceId) (ids : InstanceIds) (hsource : s.source = .drawn)
      (hallocate : r.ids.allocate s.eid = (.ok iid, ids)) :
      Draws r s program (send { r with ids := ids } s.eid iid s.request s.label program)
  | lent (iid : InstanceId) (ids : InstanceIds) (g : Registration σ ι) (hsource : s.source = .lent)
      (hallocate : r.ids.allocate s.eid = (.ok iid, ids))
      (hsend : g = send { r with ids := ids } s.eid iid s.request s.label program) :
      Draws r s program { g with registry := g.registry.reclaim s.eid iid g.result }

theorem draws_register [Link σ] (r : Registry σ ι) (s : Submission ι) (program : Program σ ι) :
    r.Draws s program (r.register s program) := by
  unfold register
  cases hsource : s.source with
  | given iid => exact .given iid hsource
  | drawn =>
    dsimp only
    unfold allocate
    rcases hallocate : r.ids.allocate s.eid with ⟨e | iid, ids⟩
    · exact .exhausted e ids hallocate
    · exact .drawn iid ids hsource hallocate
  | lent =>
    dsimp only
    unfold allocate
    rcases hallocate : r.ids.allocate s.eid with ⟨e | iid, ids⟩
    · exact .exhausted e ids hallocate
    · exact .lent iid ids _ hsource hallocate rfl

/-- A registration that takes its own instance ID finds none free, or one that it gives back after a
failure. -/
theorem lends_register [Link σ] (r : Registry σ ι) {s : Submission ι} (hs : s.source = .lent)
    (program : Program σ ι) :
    (∃ e ids, r.ids.allocate s.eid = (.error e, ids) ∧
      r.register s program = ⟨.error e, { r with ids := ids }, []⟩) ∨
    ∃ iid ids g, r.ids.allocate s.eid = (.ok iid, ids) ∧
      Sent { r with ids := ids } s.eid iid s.request s.label program g ∧
      r.register s program = { g with registry := g.registry.reclaim s.eid iid g.result } := by
  have hdraws := r.draws_register s program
  generalize r.register s program = g at hdraws
  cases hdraws with
  | given _ hsource =>
    rw [hs] at hsource
    cases hsource
  | exhausted e ids hallocate => exact .inl ⟨e, ids, hallocate, rfl⟩
  | drawn _ _ hsource _ =>
    rw [hs] at hsource
    cases hsource
  | lent iid ids g _ hallocate hsend =>
    exact .inr ⟨iid, ids, g, hallocate, hsend ▸ send_cases { r with ids := ids } .., rfl⟩

theorem adds_register [Link σ] (r : Registry σ ι) (s : Submission ι) (program : Program σ ι) :
    (r.register s program).Adds r.slots s.label program := by
  have hdraws := r.draws_register s program
  generalize r.register s program = g at hdraws
  cases hdraws with
  | given iid _ => exact (r.send_cases ..).adds
  | exhausted e ids _ => exact ⟨by simp, .inr ⟨_, rfl, rfl⟩⟩
  | drawn iid ids _ _ => exact (send_cases { r with ids := ids } ..).adds
  | lent iid ids g _ _ hsend =>
    subst hsend
    obtain ⟨hquiet, hslots⟩ := (send_cases { r with ids := ids } s.eid iid s.request s.label program).adds
    refine ⟨hquiet, ?_⟩
    rw [slots_reclaim]
    exact hslots

/-! ## Completing -/

theorem remove?_of_terminate? {r r' : Registry σ ι} {key : Key} {state : Transaction.State}
    {ref : SlotRef} (h : r.terminate? key state = some (ref, r')) :
    ∃ e removed, e.isLive = true ∧ e.key = key ∧ r.remove? ref = some (e, removed) ∧
      r'.remove? ref = some (e.terminate state, removed) := by
  obtain ⟨p, hp, hr⟩ := Option.map_eq_some_iff.1 h
  obtain ⟨rfl, rfl⟩ := Prod.mk.inj hr
  obtain ⟨e, slots, hlive, hkey, hremove, hremove'⟩ := Slots.remove?_of_terminate? hp
  refine ⟨e, { r with slots := slots, ids := r.ids.release e.key.eid e.key.iid }, hlive, hkey, ?_,
    ?_⟩
  · simp [remove?, hremove]
  · simp [remove?, hremove', Entry.key_terminate]

theorem slots_of_remove? {r r' : Registry σ ι} {ref : SlotRef} {e : Entry σ ι}
    (h : r.remove? ref = some (e, r')) :
    Slots.remove? r.slots ref = some (e, r'.slots) ∧
      r'.ids = r.ids.release e.key.eid e.key.iid := by
  obtain ⟨p, hp, hr⟩ := Option.map_eq_some_iff.1 h
  obtain ⟨rfl, rfl⟩ := Prod.mk.inj hr
  exact ⟨hp, rfl⟩

theorem link_of_remove? {r r' : Registry σ ι} {ref : SlotRef} {e : Entry σ ι}
    (h : r.remove? ref = some (e, r')) : r'.link = r.link := by
  obtain ⟨p, hp, hr⟩ := Option.map_eq_some_iff.1 h
  obtain ⟨rfl, rfl⟩ := Prod.mk.inj hr
  rfl

theorem policy_of_remove? {r r' : Registry σ ι} {ref : SlotRef} {e : Entry σ ι}
    (h : r.remove? ref = some (e, r')) : r'.policy = r.policy := by
  obtain ⟨p, hp, hr⟩ := Option.map_eq_some_iff.1 h
  obtain ⟨rfl, rfl⟩ := Prod.mk.inj hr
  rfl

theorem clock_of_remove? {r r' : Registry σ ι} {ref : SlotRef} {e : Entry σ ι}
    (h : r.remove? ref = some (e, r')) : r'.clock = r.clock := by
  obtain ⟨p, hp, hr⟩ := Option.map_eq_some_iff.1 h
  obtain ⟨rfl, rfl⟩ := Prod.mk.inj hr
  rfl

/-- What an action may leave that neither completes a request nor looks at the timers. -/
inductive Quiet (r : Registry σ ι) : Action σ → Registry σ ι → Prop where
  | ask (action : Action σ) : Quiet r action r
  | allocate (eid : EndpointId) : Quiet r (.allocate eid) (r.allocate eid).2
  | release (eid : EndpointId) (iid : InstanceId) : Quiet r (.release eid iid) (r.release eid iid)
  | stray (action : Action σ) (key : Key) (hfind : Slots.find? r.slots key = none) :
      Quiet r action (r.releaseStray key)
  | link (action : Action σ) (link : σ) : Quiet r action { r with link := link }

theorem Quiet.slots {r r' : Registry σ ι} {action : Action σ} (h : r.Quiet action r') :
    r'.slots = r.slots := by
  cases h with
  | ask _ => rfl
  | allocate eid => rfl
  | release eid iid => rfl
  | stray _ key _ => exact slots_releaseStray r key
  | link _ link => rfl

theorem Quiet.policy_clock {r r' : Registry σ ι} {action : Action σ} (h : r.Quiet action r') :
    r'.policy = r.policy ∧ r'.clock = r.clock := by
  cases h with
  | ask _ => exact ⟨rfl, rfl⟩
  | allocate eid => exact ⟨rfl, rfl⟩
  | release eid iid => exact ⟨rfl, rfl⟩
  | stray _ key _ =>
    unfold releaseStray
    split_ifs <;> exact ⟨rfl, rfl⟩
  | link _ link => exact ⟨rfl, rfl⟩

end Registry

/-- The result of a request whose response has the given bytes behind its header. -/
def Key.read (key : Key) (rest : Bytes) : Except RequestError Response :=
  match Response.ofParts key.iid key.typ key.cmd rest with
  | .ok response => .ok response
  | .error e => .error (.violation (.unreadable e))

/-- The action delivers a response to the request of a key, with `rest` behind the header. -/
inductive Action.Delivers : Action σ → Key → Bytes → Prop where
  | respond (key : Key) (rest : Bytes) : Delivers (.respond key rest) key rest
  | inbound (eid : EndpointId) (msg : Bytes) (h : Header) (rest : Bytes)
      (hdecode : Header.decode msg = .ok (h, rest)) (hresponse : h.request = false) :
      Delivers (.inbound eid msg) ⟨eid, h.iid, h.typ, h.cmd⟩ rest

/-- The action completes the request of a key with a result. -/
inductive Action.Answers : Action σ → Key → Except RequestError Response → Prop where
  | delivers {action : Action σ} {key : Key} {rest : Bytes} (h : action.Delivers key rest) :
      Answers action key (key.read rest)
  | cancel (key : Key) : Answers (.cancel key) key (.error .cancelled)

namespace Machine

/-- A request leaves the registry, and its program starts on top of a stack. -/
structure Completes (m : Machine σ ι) (ref : SlotRef) (e : Entry σ ι)
    (result : Except RequestError Response) (stack : List (Frame σ ι)) (m' : Machine σ ι) :
    Prop where
  remove : m.registry.remove? ref = some (e, m'.registry)
  program : ∃ program, e.transaction.callback = some program ∧
    m'.stack = .running e.label 0 program :: stack
  events : ∃ outstanding clock,
    m'.events = .completed e.label e.key result outstanding clock :: m.events

theorem finish_of_remove? {m : Machine σ ι} {ref : SlotRef} {e : Entry σ ι} {r : Registry σ ι}
    {program : Program σ ι} (result : Except RequestError Response)
    (hremove : m.registry.remove? ref = some (e, r))
    (hprogram : e.transaction.callback = some program) :
    m.finish ref result = ⟨r, .running e.label 0 program :: m.stack,
      .completed e.label e.key result r.outstanding r.clock :: m.events⟩ := by
  simp [finish, hremove, Transaction.takeCallback, hprogram, record, push]

def Programs (m : Machine σ ι) : Prop :=
  ∀ e ∈ Slots.entries m.registry.slots, e.transaction.callback.isSome = true

/-- Ending an outstanding request and finishing it at once completes it. -/
theorem completes_of_terminate? {m : Machine σ ι} {key : Key} {state : Transaction.State}
    {ref : SlotRef} {r : Registry σ ι} (hm : m.Programs) (f : Frame σ ι)
    (result : Except RequestError Response)
    (h : m.registry.terminate? key state = some (ref, r)) :
    ∃ e : Entry σ ι, e.isLive = true ∧ e.key = key ∧
      m.Completes ref e result (f :: m.stack) (({ m with registry := r }.push f).finish ref result) := by
  obtain ⟨e, r', hlive, hkey, hremove, hremove'⟩ := Registry.remove?_of_terminate? h
  have hmem : e ∈ Slots.entries m.registry.slots := by
    have hperm := Slots.perm_entries_remove? (Registry.slots_of_remove? hremove).1
    exact hperm.mem_iff.2 List.mem_cons_self
  obtain ⟨program, hprogram⟩ := Option.isSome_iff_exists.1 (hm e hmem)
  have hprogram' : (e.terminate state).transaction.callback = some program := by
    rw [← hprogram]
    exact Transaction.callback_terminate ..
  refine ⟨e, hlive, hkey, ?_⟩
  rw [finish_of_remove? result hremove' hprogram', Entry.key_terminate]
  exact ⟨hremove, ⟨program, hprogram, rfl⟩, ⟨_, _, rfl⟩⟩

theorem respond_cases {m : Machine σ ι} (hm : m.Programs) (caller : Caller ι) (key : Key)
    (rest : Bytes) (matched stray : Outcome) :
    (∃ ref, ∃ e : Entry σ ι, e.isLive = true ∧ e.key = key ∧
      m.Completes ref e (key.read rest) (.answering caller matched :: m.stack)
        (m.respond caller key rest matched stray)) ∨
    (Slots.find? m.registry.slots key = none ∧ m.respond caller key rest matched stray =
      { m with registry := m.registry.releaseStray key }.answer caller stray) := by
  unfold respond
  cases h : m.registry.terminate? key .completed with
  | none =>
    right
    have hnone := Slots.terminate?_eq_none.1 (Option.map_eq_none_iff.1 h)
    exact ⟨hnone, rfl⟩
  | some p =>
    left
    exact ⟨p.1, completes_of_terminate? hm _ (key.read rest) h⟩

theorem act_of_delivers [Link σ] {action : Action σ} {key : Key} {rest : Bytes}
    (h : action.Delivers key rest) (m : Machine σ ι) (caller : Caller ι) :
    ∃ matched stray, m.act caller action = m.respond caller key rest matched stray := by
  cases h with
  | respond key rest => exact ⟨_, _, rfl⟩
  | inbound eid msg h rest hdecode hresponse =>
    refine ⟨.received (.ok true), .received (.ok true), ?_⟩
    show m.inbound caller eid msg = _
    unfold inbound
    rw [hdecode]
    simp [hresponse]

theorem link_of_delivers [Link σ] {action : Action σ} {key : Key} {rest : Bytes}
    (h : action.Delivers key rest) {m : Machine σ ι} (hm : m.Programs) (caller : Caller ι) :
    (m.act caller action).registry.link = m.registry.link := by
  obtain ⟨matched, stray, hact⟩ := act_of_delivers h m caller
  rw [hact]
  rcases respond_cases hm caller key rest matched stray with
    ⟨ref, e, -, -, hcompletes⟩ | ⟨-, hstray⟩
  · exact Registry.link_of_remove? hcompletes.remove
  · rw [hstray]
    show (m.registry.releaseStray key).link = m.registry.link
    unfold Registry.releaseStray
    split_ifs <;> rfl

theorem cancel_cases {m : Machine σ ι} (hm : m.Programs) (caller : Caller ι) (key : Key) :
    (∃ ref, ∃ e : Entry σ ι, e.isLive = true ∧ e.key = key ∧
      m.Completes ref e (.error .cancelled) (.answering caller (.matched true) :: m.stack)
        (m.cancel caller key)) ∨
    (Slots.find? m.registry.slots key = none ∧
      m.cancel caller key = m.answer caller (.matched false)) := by
  unfold cancel
  cases h : m.registry.terminate? key .cancelled with
  | none =>
    right
    exact ⟨Slots.terminate?_eq_none.1 (Option.map_eq_none_iff.1 h), rfl⟩
  | some p =>
    left
    exact ⟨p.1, completes_of_terminate? hm _ _ h⟩

/-- The three kinds of actions: one that completes an outstanding request, one that looks at all
timers, and one that leaves the slots as they are. -/
inductive Acts [Link σ] (m : Machine σ ι) (caller : Caller ι) :
    Action σ → Machine σ ι → Prop where
  | completes {action : Action σ} {m' : Machine σ ι} (ref : SlotRef) (e : Entry σ ι)
      (result : Except RequestError Response) (outcome : Outcome) (hlive : e.isLive = true)
      (hanswers : action.Answers e.key result)
      (h : m.Completes ref e result (.answering caller outcome :: m.stack) m') :
      Acts m caller action m'
  | update (now : Nat) : Acts m caller (.update now) (m.update caller now)
  | quiet {action : Action σ} (r : Registry σ ι) (outcome : Outcome)
      (h : m.registry.Quiet action r) :
      Acts m caller action ({ m with registry := r }.answer caller outcome)

theorem acts_of_delivers [Link σ] {m : Machine σ ι} (hm : m.Programs) (caller : Caller ι)
    {action : Action σ} {key : Key} {rest : Bytes} (hdelivers : action.Delivers key rest) :
    m.Acts caller action (m.act caller action) := by
  obtain ⟨matched, stray, hact⟩ := act_of_delivers hdelivers m caller
  rw [hact]
  rcases respond_cases hm caller key rest matched stray with ⟨ref, e, hlive, rfl, h⟩ | ⟨hfind, h⟩
  · exact .completes ref e _ matched hlive (.delivers hdelivers) h
  · rw [h]
    exact .quiet _ stray (.stray action key hfind)

theorem act_cases [Link σ] {m : Machine σ ι} (hm : m.Programs) (caller : Caller ι)
    (action : Action σ) : m.Acts caller action (m.act caller action) := by
  cases action with
  | respond key rest => exact acts_of_delivers hm caller (.respond key rest)
  | inbound eid msg =>
    rcases hdecode : Header.decode msg with e | ⟨h, rest⟩
    · show m.Acts caller _ (m.inbound caller eid msg)
      unfold inbound
      rw [hdecode]
      exact .quiet m.registry _ (.ask _)
    · by_cases hrequest : h.request = true
      · show m.Acts caller _ (m.inbound caller eid msg)
        unfold inbound
        rw [hdecode]
        dsimp only
        rw [if_pos hrequest]
        exact .quiet m.registry _ (.ask _)
      · have hresponse : h.request = false := by simpa using hrequest
        exact acts_of_delivers hm caller (.inbound eid msg h rest hdecode hresponse)
  | cancel key =>
    rcases cancel_cases hm caller key with ⟨ref, e, hlive, rfl, h⟩ | ⟨-, h⟩
    · exact .completes ref e _ _ hlive (.cancel _) h
    · show m.Acts caller _ (m.cancel caller key)
      rw [h]
      exact .quiet m.registry _ (.ask _)
  | update now => exact .update now
  | allocate eid => exact .quiet _ _ (.allocate eid)
  | release eid iid => exact .quiet _ _ (.release eid iid)
  | transmit eid msg => exact .quiet _ _ (.link _ _)
  | adjust change => exact .quiet _ _ (.link _ _)
  | state key => exact .quiet m.registry _ (.ask _)
  | nextTimeout => exact .quiet m.registry _ (.ask _)
  | outstanding => exact .quiet m.registry _ (.ask _)
  | policy => exact .quiet m.registry _ (.ask _)
  | isTaken eid iid => exact .quiet m.registry _ (.ask _)
  | count eid => exact .quiet m.registry _ (.ask _)

/-! ## Looking at the timers -/

/-- Every request stays in its slot, and what ran out of time is referred to on the stack. -/
structure Sweeps (m : Machine σ ι) (caller : Caller ι) (m' : Machine σ ι) : Prop where
  stack : ∃ refs, m'.stack = .finishing caller refs :: m.stack ∧
    (Slots.ended 0 m'.registry.slots).Perm (refs ++ Slots.ended 0 m.registry.slots)
  core : (Slots.entries m'.registry.slots).map Entry.core =
    (Slots.entries m.registry.slots).map Entry.core
  ids : m'.registry.ids = m.registry.ids
  events : ∃ events : List (Event ι), m'.events = events.reverse ++ m.events ∧
    ∀ event ∈ events, event.IsQuiet

theorem Sweeps.names {m m' : Machine σ ι} {caller : Caller ι} (h : m.Sweeps caller m') :
    (Slots.entries m'.registry.slots).map Entry.name =
      (Slots.entries m.registry.slots).map Entry.name := by
  have hnames := congrArg (List.map Prod.fst) h.core
  rw [List.map_map, List.map_map] at hnames
  exact hnames

theorem isQuiet_of_mem_visit [Link σ] (e : Entry σ ι) (link : σ) (now timeout : Nat)
    {event : Event ι} (h : event ∈ (e.visit link now timeout).events) : event.IsQuiet := by
  revert h
  unfold Entry.visit
  split_ifs
  · simp
  · dsimp only
    split_ifs
    · simp
    · intro h
      rcases List.mem_append.1 h with h | h
      · obtain ⟨answer, -, rfl⟩ := List.mem_map.1 h
        trivial
      · obtain ⟨warning, -, rfl⟩ := List.mem_map.1 h
        trivial
  · simp

theorem isQuiet_of_mem_sweep [Link σ] (now timeout : Nat) (slots : List (Slot σ ι)) (i : Nat)
    (link : σ) {event : Event ι} (h : event ∈ (Slots.sweep now timeout i slots link).events) :
    event.IsQuiet := by
  induction slots generalizing i link with
  | nil => cases h
  | cons s rest ih =>
    unfold Slots.sweep at h
    split at h
    · exact ih (i + 1) link h
    · rename_i e he
      rcases List.mem_append.1 h with h | h
      · exact isQuiet_of_mem_visit e link now timeout h
      · exact ih (i + 1) _ h

theorem sweeps_update [Link σ] (m : Machine σ ι) (caller : Caller ι) (now : Nat) :
    m.Sweeps caller (m.update caller now) := by
  have hslots : (m.registry.setClock now).1.slots = m.registry.slots :=
    Registry.slots_setClock m.registry now
  have hids : (m.registry.setClock now).1.ids = m.registry.ids := by
    unfold Registry.setClock
    split <;> rfl
  unfold update
  generalize m.registry.setClock now = p at hslots hids
  obtain ⟨r, warnings⟩ := p
  have hended := Slots.perm_ended_sweep r.clock r.policy.responseTimeout r.slots 0 r.link
  have hcore := Slots.map_entries_sweep r.clock r.policy.responseTimeout r.slots 0 r.link
    fun e link => e.core_visit link r.clock r.policy.responseTimeout
  refine ⟨⟨_, rfl, hslots ▸ hended⟩, hslots ▸ hcore, hids, ⟨_, rfl, ?_⟩⟩
  intro event hevent
  rcases List.mem_append.1 hevent with h | h
  · obtain ⟨warning, -, rfl⟩ := List.mem_map.1 h
    trivial
  · exact isQuiet_of_mem_sweep _ _ _ _ _ h

end Machine

end PlatformMessaging
