import PlatformMessaging.Proofs.Registry.Chronicle

/-!
# Failed resends do not show

What the link answers to an attempt that is made again decides nothing. Two hosts that perform the same
operations on new registries, with links of which only the answers to such attempts differ, see the same
(`failed_resends_invisible`): after every single step the same is under way in both, and their registries
are equal but for the link.

The proof runs both machines side by side (`Machine.Alike`). Of all that happens, only a look at the
timers and a registration use the link. A look at the timers goes on the same whatever the link answers
(`Slots.veil_sweep`); a registration does if the link answers its attempt the same
(`Registry.register_relink`). The programs of requests may do anything except send past the registry, since
that shows them the link (`Program.Blind`).

A link is any deterministic function of its state, and nothing is assumed of the two states, so that the
answers to resends can differ in any manner.
-/

namespace PlatformMessaging

open Slots

variable {σ ι : Type}

/-! ## Answers of the link, and programs that do not see them -/

def answers (events : List (Event ι)) : List (Except LinkError Unit) :=
  events.filterMap fun
    | .attempt _ _ _ answer _ => some answer
    | _ => none

theorem veil_reverse (events : List (Event ι)) : veil events.reverse = (veil events).reverse :=
  List.filterMap_reverse

theorem answers_append (a b : List (Event ι)) : answers (a ++ b) = answers a ++ answers b :=
  List.filterMap_append

/-- The action does not send past the registry. -/
def Action.isBlind : Action σ → Bool
  | .transmit .. => false
  | _ => true

/-- Neither the program nor any that it registers sends past the registry. -/
def Program.Blind : Program σ ι → Prop
  | .done => True
  | .act action next => action.isBlind = true ∧ next.Blind
  | .register _ onComplete next => onComplete.Blind ∧ next.Blind

/-- The program that is under way, if any, does not send past the registry. -/
def Frame.Blind : Frame σ ι → Prop
  | .running _ _ program => program.Blind
  | _ => True

/-- The operation does not send past the registry, and neither does a program that it registers. -/
def Operation.Blind : Operation σ ι → Prop
  | .act action => action.isBlind = true
  | .register _ onComplete => onComplete.Blind

theorem Frame.move_ne_host (f : Frame σ ι) (op : Operation σ ι) : f.move ≠ .call .host op := by
  rcases f with ⟨label, i, _ | ⟨action, next⟩ | ⟨s, program, next⟩⟩ | ⟨caller, outcome⟩ |
    ⟨caller, _ | ⟨ref, refs⟩⟩ <;> nofun

/-! ## Looks at the timers -/

/-- What a look at all timers leaves, and shows, does not depend on the link. -/
theorem Slots.veil_sweep [Link σ] (now timeout i : Nat) (slots : List (Slot σ ι)) (link link' : σ) :
    (sweep now timeout i slots link).slots = (sweep now timeout i slots link').slots ∧
      (sweep now timeout i slots link).expired = (sweep now timeout i slots link').expired ∧
      veil (sweep now timeout i slots link).events =
        veil (sweep now timeout i slots link').events := by
  induction slots generalizing i link link' with
  | nil => exact ⟨rfl, rfl, rfl⟩
  | cons s rest ih =>
    unfold sweep
    split
    · obtain ⟨hslots, hexpired, hevents⟩ := ih (i + 1) link link'
      exact ⟨congrArg (s :: ·) hslots, hexpired, hevents⟩
    · rename_i e he
      obtain ⟨hentry, hends, hseen⟩ := e.veil_visit link link' now timeout
      obtain ⟨hslots, hexpired, hevents⟩ :=
        ih (i + 1) (e.visit link now timeout).link (e.visit link' now timeout).link
      dsimp only
      rw [hentry, hends, hslots, hexpired, veil_append, veil_append, hseen, hevents]
      exact ⟨rfl, rfl, rfl⟩

/-! ## Registries that differ in their links -/

namespace Registry

def relink (r : Registry σ ι) (link : σ) : Registry σ ι :=
  { r with link := link }

variable {r r' : Registry σ ι} (link : σ)

@[simp] theorem slots_relink : (r.relink link).slots = r.slots := rfl

theorem remove?_relink (ref : SlotRef) :
    (r.relink link).remove? ref = (r.remove? ref).map fun p => (p.1, p.2.relink link) := by
  unfold remove?
  rw [Option.map_map]
  rfl

theorem terminate?_relink (key : Key) (state : Transaction.State) :
    (r.relink link).terminate? key state =
      (r.terminate? key state).map fun p => (p.1, p.2.relink link) := by
  unfold terminate?
  rw [Option.map_map]
  rfl

theorem releaseStray_relink (key : Key) :
    (r.relink link).releaseStray key = (r.releaseStray key).relink link := by
  unfold releaseStray
  rw [slots_relink]
  split_ifs <;> rfl

theorem setClock_relink (now : Nat) :
    (r.relink link).setClock now = ((r.setClock now).1.relink link, (r.setClock now).2) := by
  unfold setClock
  show (if now < r.clock then _ else _) = _
  split_ifs <;> rfl

theorem sweep_relink [Link σ] :
    (r.relink link).sweep.1 = r.sweep.1.relink (r.relink link).sweep.1.link ∧
      (r.relink link).sweep.2.1 = r.sweep.2.1 ∧
      veil (r.relink link).sweep.2.2 = veil r.sweep.2.2 := by
  obtain ⟨hslots, hexpired, hevents⟩ := Slots.veil_sweep r.clock r.policy.responseTimeout 0 r.slots
    link r.link
  refine ⟨?_, hexpired, hevents⟩
  exact congrArg (fun slots =>
    ({ r with slots := slots, link := (r.relink link).sweep.1.link } : Registry σ ι)) hslots

theorem reclaim_relink (eid : EndpointId) (iid : InstanceId) (result : Except RequestError Key) :
    (r.relink link).reclaim eid iid result = (r.reclaim eid iid result).relink link := by
  unfold reclaim
  split <;> rfl

/-- Two registrations with the same result, of which the same is told. The registries that they leave
are equal but for the link. -/
structure Registration.Alike (g g' : Registration σ ι) : Prop where
  result : g'.result = g.result
  events : g'.events = g.events
  registry : g'.registry = g.registry.relink g'.registry.link

/-- The attempts of two registrations are made or not made together, and if the link answers them the
same, all is the same. -/
structure Registration.Follows (g g' : Registration σ ι) : Prop where
  length : (answers g'.events).length = (answers g.events).length
  alike : answers g'.events = answers g.events → g.Alike g'

theorem send_relink [Link σ] (eid : EndpointId) (iid : InstanceId) (request : Request) (label : ι)
    (program : Program σ ι) :
    (r.send eid iid request label program).Follows
      ((r.relink link).send eid iid request label program) := by
  unfold send
  dsimp only
  rw [slots_relink]
  split_ifs
  · exact ⟨rfl, fun _ => ⟨rfl, rfl, rfl⟩⟩
  · cases request.encode iid with
    | error e => exact ⟨rfl, fun _ => ⟨rfl, rfl, rfl⟩⟩
    | ok msg =>
      have hlink : (r.relink link).link = link := rfl
      rcases hsend : Link.send eid msg r.link with ⟨e | ⟨⟩, next⟩ <;>
        rcases hsend' : Link.send eid msg link with ⟨e' | ⟨⟩, next'⟩ <;>
        simp only [Transaction.start, Transaction.create, hlink, hsend, hsend']
      · refine ⟨rfl, fun hanswers => ?_⟩
        obtain rfl : e' = e := by simpa [answers] using hanswers
        exact ⟨rfl, rfl, rfl⟩
      · refine ⟨rfl, fun hanswers => ?_⟩
        cases hanswers
      · refine ⟨rfl, fun hanswers => ?_⟩
        cases hanswers
      · exact ⟨rfl, fun _ => ⟨rfl, rfl, rfl⟩⟩

theorem Registration.Follows.reclaim {g g' : Registration σ ι} (h : g.Follows g') (eid : EndpointId)
    (iid : InstanceId) :
    Registration.Follows { g with registry := g.registry.reclaim eid iid g.result }
      { g' with registry := g'.registry.reclaim eid iid g'.result } := by
  refine ⟨h.length, fun hanswers => ?_⟩
  obtain ⟨hresult, hevents, hregistry⟩ := h.alike hanswers
  refine ⟨hresult, hevents, ?_⟩
  show g'.registry.reclaim eid iid g'.result = _
  rw [hresult, hregistry, reclaim_relink]
  rfl

/-- Registering with another link makes the same attempt or none, and if the links answer it the same,
all is the same. -/
theorem register_relink [Link σ] (s : Submission ι) (program : Program σ ι) :
    (r.register s program).Follows ((r.relink link).register s program) := by
  have hids : (r.relink link).ids = r.ids := rfl
  unfold register allocate
  rw [hids]
  rcases hallocate : r.ids.allocate s.eid with ⟨e | iid, ids⟩
  · cases s.source with
    | given iid => exact send_relink link ..
    | drawn => exact ⟨rfl, fun _ => ⟨rfl, rfl, rfl⟩⟩
    | lent => exact ⟨rfl, fun _ => ⟨rfl, rfl, rfl⟩⟩
  · have hsend := send_relink (r := { r with ids := ids }) link s.eid iid s.request s.label program
    cases s.source with
    | given iid => exact send_relink link ..
    | drawn => exact hsend
    | lent => exact hsend.reclaim s.eid iid

end Registry

/-! ## Machines side by side -/

namespace Machine

/-- Two machines in which the same is under way and that show the same, and whose registries are equal
but for the link. -/
structure Alike (m m' : Machine σ ι) : Prop where
  registry : m'.registry = m.registry.relink m'.registry.link
  stack : m'.stack = m.stack
  seen : veil m'.events = veil m.events

variable {m m' : Machine σ ι}

theorem Alike.exists_eq (h : m.Alike m') :
    ∃ link events, veil events = veil m.events ∧
      m' = ⟨m.registry.relink link, m.stack, events⟩ := by
  obtain ⟨registry, stack, events⟩ := m'
  obtain ⟨hregistry, rfl, hseen⟩ := h
  exact ⟨_, events, hseen, congrArg (fun r => (⟨r, m.stack, events⟩ : Machine σ ι)) hregistry⟩

theorem Alike.record (h : m.Alike m') {events events' : List (Event ι)}
    (hseen : veil events' = veil events) : (m.record events).Alike (m'.record events') := by
  refine ⟨h.registry, h.stack, ?_⟩
  show veil (events'.reverse ++ m'.events) = veil (events.reverse ++ m.events)
  rw [veil_append, veil_append, veil_reverse, veil_reverse, hseen, h.seen]

theorem Alike.answer (h : m.Alike m') (caller : Caller ι) (outcome : Outcome) :
    (m.answer caller outcome).Alike (m'.answer caller outcome) :=
  h.record rfl

theorem Alike.push (h : m.Alike m') (f : Frame σ ι) : (m.push f).Alike (m'.push f) :=
  ⟨h.registry, congrArg (f :: ·) h.stack, h.seen⟩

theorem Alike.withRegistry (h : m.Alike m') (r : Registry σ ι) (link : σ) :
    Alike { m with registry := r } { m' with registry := r.relink link } :=
  ⟨rfl, h.stack, h.seen⟩

theorem Alike.finish (h : m.Alike m') (ref : SlotRef) (result : Except RequestError Response) :
    (m.finish ref result).Alike (m'.finish ref result) := by
  unfold Machine.finish
  rw [h.registry, Registry.remove?_relink]
  rcases m.registry.remove? ref with _ | ⟨e, r⟩
  · exact h
  · dsimp only [Option.map_some]
    cases e.transaction.takeCallback.1 with
    | none => exact h.withRegistry r _
    | some program => exact ((h.withRegistry r _).record rfl).push _

theorem Alike.respond (h : m.Alike m') (caller : Caller ι) (key : Key) (rest : Bytes)
    (matched stray : Outcome) :
    (m.respond caller key rest matched stray).Alike (m'.respond caller key rest matched stray) := by
  unfold Machine.respond
  rw [h.registry, Registry.terminate?_relink, Registry.releaseStray_relink]
  rcases m.registry.terminate? key .completed with _ | ⟨ref, r⟩
  · exact (h.withRegistry _ _).answer caller stray
  · exact ((h.withRegistry r _).push _).finish ref _

theorem Alike.inbound (h : m.Alike m') (caller : Caller ι) (eid : EndpointId) (msg : Bytes) :
    (m.inbound caller eid msg).Alike (m'.inbound caller eid msg) := by
  unfold Machine.inbound
  split
  · exact h.answer caller _
  · split_ifs
    · exact h.answer caller _
    · exact h.respond caller ..

theorem Alike.cancel (h : m.Alike m') (caller : Caller ι) (key : Key) :
    (m.cancel caller key).Alike (m'.cancel caller key) := by
  unfold Machine.cancel
  rw [h.registry, Registry.terminate?_relink]
  rcases m.registry.terminate? key .cancelled with _ | ⟨ref, r⟩
  · exact h.answer caller _
  · exact ((h.withRegistry r _).push _).finish ref _

theorem Alike.update [Link σ] (h : m.Alike m') (caller : Caller ι) (now : Nat) :
    (m.update caller now).Alike (m'.update caller now) := by
  unfold Machine.update
  rw [h.registry, Registry.setClock_relink]
  obtain ⟨r, warnings⟩ := m.registry.setClock now
  obtain ⟨hregistry, hexpired, hevents⟩ := r.sweep_relink m'.registry.link
  dsimp only
  rw [hexpired, hregistry]
  refine ((h.withRegistry _ _).record ?_).push _
  rw [veil_append, veil_append, hevents]

theorem Alike.act [Link σ] (h : m.Alike m') (caller : Caller ι) {action : Action σ}
    (hblind : action.isBlind = true) : (m.act caller action).Alike (m'.act caller action) := by
  obtain ⟨link, events, hseen, rfl⟩ := h.exists_eq
  cases action with
  | respond key rest => exact h.respond caller ..
  | inbound eid msg => exact h.inbound caller eid msg
  | cancel key => exact h.cancel caller key
  | update now => exact h.update caller now
  | allocate eid => exact (h.withRegistry (m.registry.allocate eid).2 link).answer caller _
  | release eid iid => exact (h.withRegistry (m.registry.release eid iid) link).answer caller _
  | transmit eid msg => cases hblind
  | adjust change =>
    exact (h.withRegistry (m.registry.relink (change m.registry.link)) (change link)).answer caller _
  | state key => exact h.answer caller _
  | nextTimeout => exact h.answer caller _
  | outstanding => exact h.answer caller _
  | policy => exact h.answer caller _
  | isTaken eid iid => exact h.answer caller _
  | count eid => exact h.answer caller _

/-- What the link answers to the attempt of an operation's own. -/
def answersTo [Link σ] (m : Machine σ ι) : Operation σ ι → List (Except LinkError Unit)
  | .act _ => []
  | .register s program => answers (m.registry.register s program).events

theorem Alike.start [Link σ] (h : m.Alike m') (caller : Caller ι) {op : Operation σ ι}
    (hblind : op.Blind) :
    (m'.answersTo op).length = (m.answersTo op).length ∧
      (m'.answersTo op = m.answersTo op → (m.start caller op).Alike (m'.start caller op)) := by
  cases op with
  | act action => exact ⟨rfl, fun _ => h.act caller hblind⟩
  | register s program =>
    have hfollows := m.registry.register_relink m'.registry.link s program
    rw [← h.registry] at hfollows
    refine ⟨hfollows.length, fun hanswers => ?_⟩
    obtain ⟨hresult, hevents, hregistry⟩ := hfollows.alike hanswers
    show (m.register caller s program).Alike (m'.register caller s program)
    unfold Machine.register
    dsimp only
    rw [hresult, hevents, hregistry]
    exact ((h.withRegistry _ _).record rfl).answer caller _

/-! ## What programs do -/

/-- No program that is under way or waits for the end of its request sends past the registry. -/
structure Blind (m : Machine σ ι) : Prop where
  names : ∀ name ∈ m.names, ∀ program, name.2.2 = some program → program.Blind
  stack : ∀ f ∈ m.stack, f.Blind

theorem Calls.blind {caller : Caller ι} {op : Operation σ ι} (h : m.Calls caller op m')
    (hm : m.Blind) (hop : caller = .host → op.Blind) : op.Blind ∧ m'.Blind := by
  cases h with
  | host _ _ => exact ⟨hop rfl, hm⟩
  | act hstack =>
    obtain ⟨⟨haction, hnext⟩, hrest⟩ := List.forall_mem_cons.1 (hstack ▸ hm.stack)
    exact ⟨haction, hm.names, List.forall_mem_cons.2 ⟨hnext, hrest⟩⟩
  | register hstack =>
    obtain ⟨⟨honComplete, hnext⟩, hrest⟩ := List.forall_mem_cons.1 (hstack ▸ hm.stack)
    exact ⟨honComplete, hm.names, List.forall_mem_cons.2 ⟨hnext, hrest⟩⟩

theorem Completes.blind {ref : SlotRef} {e : Entry σ ι} {result : Except RequestError Response}
    {stack : List (Frame σ ι)} (h : m.Completes ref e result stack m') (hm : m.Blind)
    (hstack : ∀ f ∈ stack, f.Blind) : m'.Blind := by
  obtain ⟨hname, hnames⟩ := List.forall_mem_cons.1
    fun name hname => hm.names name (h.names.mem_iff.2 hname)
  obtain ⟨program, hcallback, hframes⟩ := h.program
  exact ⟨hnames, hframes ▸ List.forall_mem_cons.2 ⟨hname program hcallback, hstack⟩⟩

theorem Moves.blind [Link σ] {move : Move σ ι} (hm : m.Coherent) (hblind : m.Blind)
    (h : m.Moves move m') (hop : ∀ op, move = .call .host op → op.Blind) : m'.Blind := by
  cases h with
  | @call caller op m₀ hcalls =>
    obtain ⟨hopBlind, hm₀⟩ := hcalls.blind hblind fun hcaller => hop op (hcaller ▸ rfl)
    cases op with
    | register s program =>
      refine ⟨fun name hname => ?_, hm₀.stack⟩
      rcases (m₀.registry.adds_register s program).slots with
        ⟨e, -, -, hname', hslots⟩ | ⟨-, -, hslots⟩
      -- The programs in the slots are those of before and the one registered.
      · have hnames : (m₀.register caller s program).names.Perm (e.name :: m₀.names) := by
          show ((entries (m₀.registry.register s program).registry.slots).map Entry.name).Perm _
          rw [hslots]
          exact (perm_entries_insert e m₀.registry.slots).map Entry.name
        rcases List.mem_cons.1 (hnames.mem_iff.1 hname) with rfl | hold
        · rw [hname']
          intro program' hprogram
          exact Option.some.inj hprogram ▸ hopBlind
        · exact hm₀.names name hold
      · refine hm₀.names name ?_
        unfold names at hname ⊢
        rwa [← hslots]
    | act action =>
      have hacts : m₀.Acts caller action (m₀.start caller (.act action)) :=
        act_cases (hm.calls hcalls).programs caller action
      generalize m₀.start caller (.act action) = m' at hacts
      cases hacts with
      | completes ref e result outcome hlive hanswers h =>
        exact h.blind hm₀ (List.forall_mem_cons.2 ⟨trivial, hm₀.stack⟩)
      | update now =>
        have hsweeps := m₀.sweeps_update caller now
        obtain ⟨refs, hstack, -⟩ := hsweeps.stack
        refine ⟨?_, hstack ▸ List.forall_mem_cons.2 ⟨trivial, hm₀.stack⟩⟩
        show ∀ name ∈ (m₀.update caller now).names, _
        rw [show (m₀.update caller now).names = m₀.names from hsweeps.names]
        exact hm₀.names
      | quiet r outcome h =>
        refine ⟨?_, hm₀.stack⟩
        show ∀ name ∈ (entries r.slots).map Entry.name, _
        rw [h.slots]
        exact hm₀.names
  | @expire caller ref refs rest hstack =>
    obtain ⟨e, -, hcompletes⟩ := completes_expire hm hstack
    refine hcompletes.blind hblind (List.forall_mem_cons.2 ⟨trivial, fun f hf => ?_⟩)
    exact hblind.stack f (hstack ▸ List.mem_cons_of_mem _ hf)
  | settle hstack hpending events hevents =>
    exact ⟨hblind.names, fun f hf => hblind.stack f (hstack ▸ List.mem_cons_of_mem _ hf)⟩

/-! ## Step by step -/

/-- What the link answers to the attempt of a step that registers a request. -/
def Step.firstAnswers (s : Step σ ι) : List (Except LinkError Unit) :=
  match s.move with
  | .call _ (.register ..) => answers s.events
  | _ => []

theorem Moves.firstAnswers_call [Link σ] {caller : Caller ι} {op : Operation σ ι}
    (h : m.Moves (.call caller op) m') :
    Step.firstAnswers ⟨.call caller op, m, m'⟩ = m.answersTo op := by
  cases op with
  | act action => rfl
  | register s program =>
    show answers (Step.events ⟨.call caller (.register s program), m, m'⟩) = _
    rw [h.registration.1, told, answers_append]
    exact List.append_nil _

/-- Two steps in which the same happens apart from what links answer, and that leave the same apart from
the links. -/
structure Step.Agrees (s s' : Step σ ι) : Prop where
  move : s'.move = s.move
  seen : veil s'.events = veil s.events
  stack : s'.after.stack = s.after.stack
  outstanding : s'.after.registry.outstanding = s.after.registry.outstanding
  state : ∀ key, s'.after.registry.state? key = s.after.registry.state? key
  nextTimeout : s'.after.registry.nextTimeout = s.after.registry.nextTimeout
  clock : s'.after.registry.clock = s.after.registry.clock
  ids : s'.after.registry.ids = s.after.registry.ids

theorem Alike.coherent (h : m.Alike m') (hm : m.Coherent) : m'.Coherent := by
  obtain ⟨link, events, -, rfl⟩ := h.exists_eq
  exact ⟨hm.pending, hm.programs⟩

theorem Alike.agrees [Link σ] (h : m.Alike m') (hm : m.Coherent) {move : Move σ ι}
    {n n' : Machine σ ι} (hmoves : m.Moves move n) (hmoves' : m'.Moves move n') (hn : n.Alike n') :
    Step.Agrees ⟨move, m, n⟩ ⟨move, m', n'⟩ := by
  obtain ⟨events, hevents, -⟩ := hmoves.tells hm
  obtain ⟨events', hevents', -⟩ := hmoves'.tells (h.coherent hm)
  have hseen : veil events' = veil events := by
    have hall := hn.seen
    rw [hevents, hevents', veil_append, veil_append, h.seen, veil_reverse, veil_reverse] at hall
    exact List.reverse_injective (List.append_cancel_right hall)
  have hs : Step.events ⟨move, m, n⟩ = events := Step.events_eq events hevents
  have hs' : Step.events ⟨move, m', n'⟩ = events' := Step.events_eq events' hevents'
  have htold : veil (Step.events ⟨move, m', n'⟩) = veil (Step.events ⟨move, m, n⟩) := by
    rw [hs, hs', hseen]
  obtain ⟨link, after, -, rfl⟩ := hn.exists_eq
  exact ⟨rfl, htold, rfl, rfl, fun _ => rfl, rfl, rfl, rfl⟩

/-- Two machines go on alike with what is under way if the links answer their own attempts the same. -/
theorem Alike.step [Link σ] (h : m.Alike m') (hblind : m.Blind) {f : Frame σ ι}
    {rest : List (Frame σ ι)} (hstack : m.stack = f :: rest) :
    ∃ n n', m.step = some n ∧ m'.step = some n' ∧
      (Step.firstAnswers ⟨f.move, m', n'⟩).length = (Step.firstAnswers ⟨f.move, m, n⟩).length ∧
      (Step.firstAnswers ⟨f.move, m', n'⟩ = Step.firstAnswers ⟨f.move, m, n⟩ → n.Alike n') := by
  obtain ⟨link, events, hseen, rfl⟩ := h.exists_eq
  obtain ⟨r, stack, before⟩ := m
  dsimp only at hstack
  subst hstack
  have hadvanced : ∀ frames : List (Frame σ ι),
      Alike ⟨r, frames, before⟩ ⟨r.relink link, frames, events⟩ := fun _ => ⟨rfl, rfl, hseen⟩
  have hf : f.Blind := hblind.stack f List.mem_cons_self
  rcases f with ⟨label, i, _ | ⟨action, next⟩ | ⟨s, program, next⟩⟩ | ⟨caller, outcome⟩ |
    ⟨caller, _ | ⟨ref, refs⟩⟩
  · exact ⟨_, _, rfl, rfl, rfl, fun _ => hadvanced rest⟩
  · exact ⟨_, _, rfl, rfl, rfl, fun _ => (hadvanced _).act _ hf.1⟩
  · have hfirst : ∀ (r : Registry σ ι) (events : List (Event ι)),
        Step.firstAnswers ⟨.call (.callback label i) (.register s program),
          ⟨r, .running label i (.register s program next) :: rest, events⟩,
          Machine.start ⟨r, .running label (i + 1) next :: rest, events⟩ (.callback label i)
            (.register s program)⟩ = answers (r.register s program).events :=
      fun r events => Moves.firstAnswers_call (.call (.register rfl))
    obtain ⟨hlength, halike⟩ := (hadvanced (.running label (i + 1) next :: rest)).start
      (.callback label i) (show (Operation.register s program).Blind from hf.1)
    refine ⟨_, _, rfl, rfl, ?_, fun hanswers => halike ?_⟩
    · exact (congrArg List.length (hfirst _ _)).trans
        (hlength.trans (congrArg List.length (hfirst _ _)).symm)
    · exact (hfirst _ _).symm.trans (hanswers.trans (hfirst _ _))
  · exact ⟨_, _, rfl, rfl, rfl, fun _ => (hadvanced rest).answer caller outcome⟩
  · exact ⟨_, _, rfl, rfl, rfl, fun _ => (hadvanced rest).answer caller _⟩
  · exact ⟨_, _, rfl, rfl, rfl, fun _ => (hadvanced _).finish ref _⟩

/-- Two machines that are alike, of which no program shows the link. -/
structure Lockstep (m m' : Machine σ ι) : Prop where
  alike : m.Alike m'
  coherent : m.Coherent
  blind : m.Blind

/-- What is under way goes on in lockstep, as far as the links answer the attempts of registrations the
same. -/
theorem Lockstep.steps [Link σ] (h : m.Lockstep m') (n : Nat)
    {rest rest' : List (Except LinkError Unit)}
    (hanswers : (m'.trace n).flatMap Step.firstAnswers ++ rest' =
      (m.trace n).flatMap Step.firstAnswers ++ rest) :
    List.Forall₂ Step.Agrees (m.trace n) (m'.trace n) ∧ (m.steps n).Lockstep (m'.steps n) ∧
      rest' = rest := by
  induction n generalizing m m' with
  | zero => exact ⟨.nil, h, hanswers⟩
  | succ n ih =>
    rcases hstack : m.stack with _ | ⟨f, frames⟩
    · have hstack' : m'.stack = [] := h.alike.stack.trans hstack
      simp only [trace, Machine.steps, hstack, hstack', step_of_stack_eq_nil] at hanswers ⊢
      exact ⟨.nil, h, hanswers⟩
    · have hstack' : m'.stack = f :: frames := h.alike.stack.trans hstack
      obtain ⟨next, next', hstep, hstep', hlength, halike⟩ := h.alike.step h.blind hstack
      simp only [trace, Machine.steps, hstack, hstack', hstep, hstep', List.flatMap_cons,
        List.append_assoc] at hanswers ⊢
      obtain ⟨hfirst, hlater⟩ := List.append_inj hanswers hlength
      have hmoves := moves_of_step hstack hstep
      have hnext : next.Lockstep next' := by
        refine ⟨halike hfirst, (hmoves.preserves h.coherent).1, hmoves.blind h.coherent h.blind ?_⟩
        exact fun op hmove => absurd hmove (f.move_ne_host op)
      obtain ⟨hagrees, hsteps, hrest⟩ := ih hnext hlater
      refine ⟨.cons ?_ hagrees, hsteps, hrest⟩
      exact h.alike.agrees h.coherent hmoves (moves_of_step hstack' hstep') hnext.alike

theorem Lockstep.run [Link σ] (h : m.Lockstep m') {rest rest' : List (Except LinkError Unit)}
    (hanswers : (m'.trace m'.weight).flatMap Step.firstAnswers ++ rest' =
      (m.trace m.weight).flatMap Step.firstAnswers ++ rest) :
    List.Forall₂ Step.Agrees (m.trace m.weight) (m'.trace m'.weight) ∧ m.run.Lockstep m'.run ∧
      rest' = rest := by
  have hweight : m'.weight = m.weight := by
    obtain ⟨link, events, -, rfl⟩ := h.alike.exists_eq
    rfl
  unfold Machine.run
  rw [hweight] at hanswers ⊢
  exact h.steps m.weight hanswers

/-! ## Operation by operation -/

/-- The steps of a machine while the host performs one operation after the other. -/
def course [Link σ] (m : Machine σ ι) : List (Operation σ ι) → List (Step σ ι)
  | [] => []
  | op :: ops => m.performed op ++ course (m.start .host op).run ops

/-- The course of a machine at rest goes on with the run that led to it, and comes to rest again. -/
theorem Run.course [Link σ] {r : Registry σ ι} {steps : List (Step σ ι)} (h : Run r steps m)
    (hstack : m.stack = []) (ops : List (Operation σ ι)) :
    ∃ m', Run r (steps ++ m.course ops) m' ∧ m'.stack = [] := by
  induction ops generalizing steps m with
  | nil => exact ⟨m, (List.append_nil steps).symm ▸ h, hstack⟩
  | cons op ops ih =>
    obtain ⟨m', hrun, hrest⟩ := ih (h.perform hstack op) (stack_run _)
    rw [List.append_assoc] at hrun
    exact ⟨m', hrun, hrest⟩

theorem Lockstep.course [Link σ] (h : m.Lockstep m') (hstack : m.stack = [])
    {ops : List (Operation σ ι)} (hops : ∀ op ∈ ops, op.Blind)
    (hanswers : (m'.course ops).flatMap Step.firstAnswers =
      (m.course ops).flatMap Step.firstAnswers) :
    List.Forall₂ Step.Agrees (m.course ops) (m'.course ops) := by
  induction ops generalizing m m' with
  | nil => exact .nil
  | cons op ops ih =>
    obtain ⟨hop, hops⟩ := List.forall_mem_cons.1 hops
    have hmoves : m.Moves (.call .host op) (m.start .host op) := .call (.host op hstack)
    have hmoves' : m'.Moves (.call .host op) (m'.start .host op) :=
      .call (.host op (h.alike.stack.trans hstack))
    obtain ⟨hlength, halike⟩ := h.alike.start .host hop
    rw [← hmoves.firstAnswers_call, ← hmoves'.firstAnswers_call] at hlength halike
    simp only [Machine.course, performed, List.cons_append, List.flatMap_cons, List.flatMap_append]
      at hanswers ⊢
    obtain ⟨hfirst, hlater⟩ := List.append_inj hanswers hlength
    have hstart : (m.start .host op).Lockstep (m'.start .host op) := by
      refine ⟨halike hfirst, (hmoves.preserves h.coherent).1, hmoves.blind h.coherent h.blind ?_⟩
      rintro op' hmove
      obtain ⟨-, rfl⟩ := Move.call.inj hmove
      exact hop
    obtain ⟨hagrees, hrun, hrest⟩ := hstart.run hlater
    refine .cons (h.alike.agrees h.coherent hmoves hmoves' hstart.alike) ?_
    exact List.rel_append hagrees (ih hrun (stack_run _) hops hrest)

/-- Two hosts perform the same operations on new registries with the same policy, and neither the
operations nor the programs of the requests send past the registry. If the links answer the attempts of
registrations the same, then step by step the same happens, the answers and the completions included, and
the same is left: what is under way, the requests outstanding and their states, the next timeout, the
clock and the instance IDs. What the links answer to resends shows in nothing but the warnings that they
failed. -/
theorem failed_resends_invisible [Link σ] {link link' : σ} {policy : Policy} {r r' : Registry σ ι}
    {warnings warnings' : List Warning} (hr : Registry.create link policy = .ok (r, warnings))
    (hr' : Registry.create link' policy = .ok (r', warnings')) {ops : List (Operation σ ι)}
    (hops : ∀ op ∈ ops, op.Blind)
    (hanswers : (course ⟨r', [], []⟩ ops).flatMap Step.firstAnswers =
      (course ⟨r, [], []⟩ ops).flatMap Step.firstAnswers) :
    List.Forall₂ Step.Agrees (course ⟨r, [], []⟩ ops) (course ⟨r', [], []⟩ ops) := by
  obtain rfl := Registry.create_eq hr
  obtain rfl := Registry.create_eq hr'
  have hstart : Lockstep (⟨⟨link, policy, {}, [], 0⟩, [], []⟩ : Machine σ ι)
      ⟨⟨link', policy, {}, [], 0⟩, [], []⟩ :=
    ⟨⟨rfl, rfl, rfl⟩, coherent_start _ rfl, fun _ hname => (List.not_mem_nil hname).elim,
      fun _ hf => (List.not_mem_nil hf).elim⟩
  exact hstart.course rfl hops hanswers

/-- A link that answers what it is told to, and accepts what comes after that. -/
structure Scripted where
  script : List (Except LinkError Unit) := []

instance : Link Scripted where
  send _ _ link := (link.script.headD (.ok ()), ⟨link.script.tail⟩)

/-- The first link accepts everything. The second refuses to send a request again, first in an `update` of
the host and then in one of another request's program. The other request is answered and this one runs out
of time in both. -/
theorem failed_resends_invisible_refused :
    ∃ (r r' : Registry Scripted Nat) (ops : List (Operation Scripted Nat)),
      Registry.create {} {} = .ok (r, []) ∧
      Registry.create ⟨[.ok (), .ok (), .error .txFailure, .ok (), .error .noSpace]⟩ {} =
        .ok (r', []) ∧
      List.Forall₂ Step.Agrees (course ⟨r, [], []⟩ ops) (course ⟨r', [], []⟩ ops) ∧
      (course ⟨r, [], []⟩ ops).flatMap (fun s => Event.warnings s.events) = [] ∧
      (course ⟨r', [], []⟩ ops).flatMap (fun s => Event.warnings s.events) =
        [.resendFailed ⟨9, 0, 0, 2⟩ .txFailure, .resendFailed ⟨9, 0, 0, 2⟩ .noSpace] := by
  have hr : Registry.create ({} : Scripted) {} =
      .ok ((⟨{}, {}, {}, [], 0⟩ : Registry Scripted Nat), []) := rfl
  have hr' : Registry.create
      (⟨[.ok (), .ok (), .error .txFailure, .ok (), .error .noSpace]⟩ : Scripted) {} =
      .ok ((⟨⟨[.ok (), .ok (), .error .txFailure, .ok (), .error .noSpace]⟩, {}, {}, [], 0⟩ :
        Registry Scripted Nat), []) := rfl
  refine ⟨_, _, [.register ⟨9, .lent, ⟨0, 2, []⟩, 0⟩ .done,
      .register ⟨9, .lent, ⟨0, 2, []⟩, 1⟩ (.act (.update 4000) .done), .act (.update 2000),
      .act (.respond ⟨9, 1, 0, 2⟩ [0]), .act (.update 8000)],
    hr, hr', failed_resends_invisible hr hr' ?_ ?_, ?_, ?_⟩
  · simp [Operation.Blind, Program.Blind, Action.isBlind]
  · decide +kernel
  · decide +kernel
  · decide +kernel

end Machine

end PlatformMessaging
