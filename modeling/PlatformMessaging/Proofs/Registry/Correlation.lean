import PlatformMessaging.Link.Outbox
import PlatformMessaging.Proofs.Message
import PlatformMessaging.Proofs.Registry.Keys

/-!
# Responses reach their requests

A message completes an outstanding request exactly if it is a response from the request's endpoint under
its instance ID, type and command, and then the request gets what follows the header, unchanged
(`Machine.Run.responses_correlated`). No other request notices. In particular a terminus that answers the
message it was sent is heard by the request that sent it.

Keys of outstanding requests differ (`Registry.Keyed`), so a response cannot have the choice between two
requests, and the one that the registry finds is the one that is meant.
-/

namespace PlatformMessaging

open Slots

variable {σ ι : Type}

/-- The message, when it comes from the endpoint, is a response to the key: its header decodes without the
request bit, and the endpoint with the header's instance ID, type and command is the key. What follows the
header is `rest`. -/
def Key.IsAnsweredBy (key : Key) (eid : EndpointId) (msg rest : Bytes) : Prop :=
  ∃ h : Header, Header.decode msg = .ok (h, rest) ∧ h.request = false ∧
    key = ⟨eid, h.iid, h.typ, h.cmd⟩

namespace Key

variable {key : Key} {eid : EndpointId} {msg rest : Bytes}

theorem IsAnsweredBy.delivers (h : key.IsAnsweredBy eid msg rest) :
    (Action.inbound eid msg : Action σ).Delivers key rest := by
  obtain ⟨header, hdecode, hresponse, rfl⟩ := h
  exact .inbound eid msg header rest hdecode hresponse

theorem read_cons (key : Key) (code : UInt8) (data : Bytes) :
    key.read (code :: data) = .ok ⟨key.iid, key.typ, key.cmd, code, data⟩ := rfl

theorem isAnsweredBy_response {request : Request} {sent : Bytes}
    (hsent : request.encode key.iid = .ok sent) (htyp : request.typ = key.typ)
    (hcmd : request.cmd = key.cmd) :
    ∃ h body, Header.decode sent = .ok (h, body) ∧ h.request = true ∧ ∀ code data,
      key.IsAnsweredBy key.eid
        (Response.encode { Request.response ⟨h.typ, h.cmd, []⟩ h.iid with code := code, data := data })
        (code :: data) := by
  refine ⟨_, _, Request.decode_encode hsent, rfl, fun code data => ?_⟩
  obtain ⟨hiid, htyp', -⟩ := Request.encode_eq_ok.1 hsent
  refine ⟨_, Response.decode_encode hiid htyp', rfl, ?_⟩
  show key = ⟨key.eid, key.iid, request.typ, request.cmd⟩
  rw [htyp, hcmd]

end Key

namespace Registry

theorem isTaken_releaseStray {r : Registry σ ι} (hsound : r.ids.Sound) (key : Key) {e : Entry σ ι}
    (he : e ∈ entries r.slots) :
    (r.releaseStray key).ids.isTaken e.key.eid e.key.iid = r.ids.isTaken e.key.eid e.key.iid := by
  unfold releaseStray
  split_ifs with hholds
  · rfl
  · show (r.ids.release key.eid key.iid).isTaken e.key.eid e.key.iid = _
    refine Bool.eq_iff_iff.2 ((hsound.isTaken_release ..).trans (and_iff_left ?_))
    rintro ⟨heid, hiid⟩
    refine hholds ((any_holds_iff ..).2 ?_)
    rw [← heid, ← hiid]
    exact List.mem_map_of_mem he

variable [Link σ] {r : Registry σ ι} {eid : EndpointId} {msg : Bytes}

theorem inbound_ignored (r : Registry σ ι) (eid : EndpointId)
    (h : ∀ header rest, Header.decode msg = .ok (header, rest) → header.request = true) :
    (r.perform (.act (.inbound eid msg))).registry = r ∧
      sightings (r.perform (.act (.inbound eid msg))).events = [] := by
  have hstart : ∃ outcome, Machine.start ⟨r, [], []⟩ .host (.act (.inbound eid msg)) =
      ⟨r, [], [.returned .host outcome]⟩ := by
    show ∃ outcome, Machine.inbound ⟨r, [], []⟩ .host eid msg = _
    unfold Machine.inbound
    split
    · exact ⟨_, rfl⟩
    · rename_i header rest hdecode
      rw [if_pos (h header rest hdecode)]
      exact ⟨_, rfl⟩
  obtain ⟨outcome, hstart⟩ := hstart
  unfold perform
  rw [hstart, Machine.run_of_stack_eq_nil rfl]
  exact ⟨rfl, rfl⟩

theorem Plain.inbound_unanswered (hr : r.Plain) (hsound : r.ids.Sound)
    (hnone : ∀ e ∈ live r.slots, ∀ rest, ¬e.key.IsAnsweredBy eid msg rest) :
    sightings (r.perform (.act (.inbound eid msg))).events = [] ∧
      (r.perform (.act (.inbound eid msg))).registry.slots = r.slots ∧
      ∀ e ∈ entries r.slots,
        (r.perform (.act (.inbound eid msg))).registry.ids.isTaken e.key.eid e.key.iid =
          r.ids.isTaken e.key.eid e.key.iid := by
  by_cases hignored : ∀ header rest, Header.decode msg = .ok (header, rest) → header.request = true
  · obtain ⟨hregistry, hseen⟩ := r.inbound_ignored eid hignored
    rw [hregistry]
    exact ⟨hseen, rfl, fun _ _ => rfl⟩
  · push Not at hignored
    obtain ⟨h, rest, hdecode, hresponse⟩ := hignored
    have hanswered : Key.IsAnsweredBy ⟨eid, h.iid, h.typ, h.cmd⟩ eid msg rest :=
      ⟨h, hdecode, by simpa using hresponse, rfl⟩
    have hfind : find? r.slots ⟨eid, h.iid, h.typ, h.cmd⟩ = none := by
      refine find?_eq_none_iff_live.2 fun e he hkey => ?_
      exact hnone e he rest (hkey ▸ hanswered)
    obtain ⟨hregistry, outcome, hevents⟩ := hr.perform_stray hanswered.delivers hfind
    rw [hregistry, hevents]
    exact ⟨rfl, slots_releaseStray .., fun e he => isTaken_releaseStray hsound _ he⟩

theorem Plain.inbound_answered (hr : r.Plain) (hkeyed : r.Keyed) {x : Entry σ ι}
    (hx : x ∈ live r.slots) {rest : Bytes} (h : x.key.IsAnsweredBy eid msg rest) :
    ∃ ref, r.remove? ref = some (x, (r.perform (.act (.inbound eid msg))).registry) ∧
      sightings (r.perform (.act (.inbound eid msg))).events =
        [.ended x.label x.key (x.key.read rest)] := by
  obtain ⟨hmem, hlive⟩ := mem_live.1 hx
  obtain ⟨ref, e, outstanding, clock, outcome, hlive', hkey, hremove, hevents⟩ :=
    hr.perform_delivers h.delivers hmem hlive rfl
  have hentry : e ∈ entries r.slots :=
    (perm_entries_remove? (slots_of_remove? hremove).1).mem_iff.2 List.mem_cons_self
  obtain rfl := hkeyed.eq_of_key (mem_live.2 ⟨hentry, hlive'⟩) hx hkey
  refine ⟨ref, hremove, ?_⟩
  rw [hevents]
  rfl

omit [Link σ] in
theorem Keyed.remove_spares {r' : Registry σ ι} (hkeyed : r.Keyed) (hsound : r.ids.Sound)
    {ref : SlotRef} {x : Entry σ ι} (hx : x ∈ live r.slots) (hremove : r.remove? ref = some (x, r')) :
    x ∉ live r'.slots ∧ ∀ y ∈ live r.slots, y ≠ x → y ∈ live r'.slots ∧
      (¬(y.key.eid = x.key.eid ∧ y.key.iid = x.key.iid) →
        r'.ids.isTaken y.key.eid y.key.iid = r.ids.isTaken y.key.eid y.key.iid) := by
  obtain ⟨hslots, hids⟩ := slots_of_remove? hremove
  have hlive := (perm_entries_remove? hslots).filter Entry.isLive
  rw [List.filter_cons_of_pos (mem_live.1 hx).2] at hlive
  have hnodup := (List.nodup_cons.1 ((hlive.map Entry.key).nodup_iff.1 hkeyed.nodup)).1
  refine ⟨fun hmem => hnodup (List.mem_map_of_mem hmem), fun y hy hne => ⟨?_, fun hother => ?_⟩⟩
  · exact (List.mem_cons.1 (hlive.mem_iff.1 hy)).resolve_left hne
  · rw [hids]
    exact Bool.eq_iff_iff.2 ((hsound.isTaken_release ..).trans (and_iff_left hother))

end Registry

namespace Machine

variable [Link σ]

/-- **Responses reach their requests.** In any run of a new registry, when nothing is under way and no
outstanding request has a program, let a message come in. An outstanding request completes exactly if the
message is a response to its key. Then its end alone is told: the response with what follows the header as
completion code and data, or a violation if nothing does. A request that the message is no response to
stays as it is, with its timers and retries, and so does its instance ID unless it shares that of the one
that completes. A request or a message without a header changes nothing. The message of every outstanding
request was offered to the link, and what a terminus makes of it under the header that it reads is a
response that completes the request with the terminus' completion code and data. -/
theorem Run.responses_correlated {link : σ} {policy : Policy} {r : Registry σ ι}
    {warnings : List Warning} (hr : Registry.create link policy = .ok (r, warnings))
    {steps : List (Step σ ι)} {m : Machine σ ι} (h : Run r steps m) (hstack : m.stack = [])
    (hprograms : ∀ e ∈ entries m.registry.slots, e.transaction.callback = some .done)
    (eid : EndpointId) (msg : Bytes) :
    (∀ x ∈ live m.registry.slots,
      ((∃ result, .ended x.label x.key result ∈
          sightings (m.registry.perform (.act (.inbound eid msg))).events) ↔
        ∃ h rest, Header.decode msg = .ok (h, rest) ∧ h.request = false ∧
          x.key = ⟨eid, h.iid, h.typ, h.cmd⟩) ∧
      ∀ rest, x.key.IsAnsweredBy eid msg rest →
        sightings (m.registry.perform (.act (.inbound eid msg))).events = [.ended x.label x.key
          (match rest with
          | [] => .error (.violation (.unreadable (.protocol .missingCompletionCode)))
          | code :: data => .ok ⟨x.key.iid, x.key.typ, x.key.cmd, code, data⟩)] ∧
        x ∉ live (m.registry.perform (.act (.inbound eid msg))).registry.slots) ∧
    (∀ y ∈ live m.registry.slots, (∀ rest, ¬y.key.IsAnsweredBy eid msg rest) →
      y ∈ live (m.registry.perform (.act (.inbound eid msg))).registry.slots ∧
      ((∀ x ∈ live m.registry.slots, ∀ rest, x.key.IsAnsweredBy eid msg rest →
          ¬(y.key.eid = x.key.eid ∧ y.key.iid = x.key.iid)) →
        (m.registry.perform (.act (.inbound eid msg))).registry.ids.isTaken y.key.eid y.key.iid =
          m.registry.ids.isTaken y.key.eid y.key.iid)) ∧
    ((∀ h rest, Header.decode msg = .ok (h, rest) → h.request = true) →
      (m.registry.perform (.act (.inbound eid msg))).registry = m.registry ∧
      sightings (m.registry.perform (.act (.inbound eid msg))).events = []) ∧
    ∀ x ∈ live m.registry.slots,
      (∃ u ∈ steps, .sent x.label x.key x.transaction.request ∈ sightings u.events) ∧
      ∃ h body, Header.decode x.transaction.request = .ok (h, body) ∧ h.request = true ∧
        ∀ code data, sightings (m.registry.perform (.act (.inbound x.key.eid (Response.encode
            { Request.response ⟨h.typ, h.cmd, []⟩ h.iid with code := code, data := data })))).events =
          [.ended x.label x.key (.ok ⟨x.key.iid, x.key.typ, x.key.cmd, code, data⟩)] := by
  obtain ⟨hslots, hids⟩ : r.slots = [] ∧ r.ids = {} := by
    rw [Registry.create_eq hr]
    exact ⟨rfl, rfl⟩
  obtain ⟨hcoherent, hkeyed, hoffered⟩ := h.keyed hslots
  have hsound := h.sound hslots hids
  have hplain : m.registry.Plain := ⟨hcoherent.ended_eq_nil hstack, hprograms⟩
  refine ⟨fun x hx => ⟨⟨?_, ?_⟩, fun rest hanswered => ?_⟩, fun y hy hnot => ?_,
    m.registry.inbound_ignored eid, fun x hx => ⟨hoffered x (mem_live.1 hx).1, ?_⟩⟩
  · rintro ⟨result, hended⟩
    -- Whoever completes has the key of `x`, which is therefore the key that is answered.
    by_cases hany : ∃ e ∈ live m.registry.slots, ∃ rest, e.key.IsAnsweredBy eid msg rest
    · obtain ⟨e, he, rest, hanswered⟩ := hany
      obtain ⟨-, -, hseen⟩ := hplain.inbound_answered hkeyed he hanswered
      rw [hseen] at hended
      obtain ⟨-, hkey, -⟩ := Sighting.ended.inj (List.mem_singleton.1 hended)
      obtain ⟨header, hheader⟩ := hkey ▸ hanswered
      exact ⟨header, rest, hheader⟩
    · push Not at hany
      rw [(hplain.inbound_unanswered hsound hany).1] at hended
      cases hended
  · rintro ⟨header, rest, hheader⟩
    obtain ⟨-, -, hseen⟩ := hplain.inbound_answered hkeyed hx ⟨header, hheader⟩
    rw [hseen]
    exact ⟨_, List.mem_singleton_self _⟩
  · obtain ⟨ref, hremove, hseen⟩ := hplain.inbound_answered hkeyed hx hanswered
    refine ⟨?_, (hkeyed.remove_spares hsound hx hremove).1⟩
    rw [hseen]
    cases rest <;> rfl
  · by_cases hany : ∃ x ∈ live m.registry.slots, ∃ rest, x.key.IsAnsweredBy eid msg rest
    · obtain ⟨x, hx, rest, hanswered⟩ := hany
      obtain ⟨ref, hremove, -⟩ := hplain.inbound_answered hkeyed hx hanswered
      have hne : y ≠ x := by
        rintro rfl
        exact hnot rest hanswered
      obtain ⟨hstays, htaken⟩ := (hkeyed.remove_spares hsound hx hremove).2 y hy hne
      exact ⟨hstays, fun hother => htaken (hother x hx rest hanswered)⟩
    · push Not at hany
      obtain ⟨-, hsame, htaken⟩ := hplain.inbound_unanswered hsound hany
      rw [hsame]
      exact ⟨hy, fun _ => htaken y (mem_live.1 hy).1⟩
  · obtain ⟨data, hencode⟩ := hkeyed.messages x (mem_live.1 hx).1
    obtain ⟨header, body, hdecode, hrequest, hanswers⟩ :=
      x.key.isAnsweredBy_response hencode rfl rfl
    refine ⟨header, body, hdecode, hrequest, fun code data => ?_⟩
    obtain ⟨-, -, hseen⟩ := hplain.inbound_answered hkeyed hx (hanswers code data)
    rw [hseen, Key.read_cons]

/-- Three requests with the same instance ID, one of them registered by the program of an earlier one: two
to the same endpoint, and the third to another. A response completes the one whose command it has. -/
theorem Run.responses_correlated_shared :
    ∃ (r : Registry Outbox Nat) (steps : List (Step Outbox Nat)) (m : Machine Outbox Nat),
      Registry.create {} {} = .ok (r, []) ∧ Run r steps m ∧ m.stack = [] ∧
      (live m.registry.slots).map Entry.key = [⟨9, 4, 0, 3⟩, ⟨9, 4, 0, 2⟩, ⟨10, 4, 0, 2⟩] ∧
      sightings (m.registry.perform (.act (.inbound 9 [4, 0, 2, 5, 7]))).events =
        [.ended 1 ⟨9, 4, 0, 2⟩ (.ok ⟨4, 0, 2, 5, [7]⟩)] := by
  have hr : Registry.create ({} : Outbox) {} =
      .ok ((⟨{}, {}, {}, [], 0⟩ : Registry Outbox Nat), []) := rfl
  have h₁ := (Run.start (r := (⟨{}, {}, {}, [], 0⟩ : Registry Outbox Nat))).perform rfl
    (.register ⟨9, .given 4, ⟨0, 2, []⟩, 0⟩ (.register ⟨9, .given 4, ⟨0, 3, []⟩, 2⟩ .done .done))
  have h₂ := h₁.perform (stack_run _) (.act (.respond ⟨9, 4, 0, 2⟩ [0]))
  have h₃ := h₂.perform (stack_run _) (.register ⟨9, .given 4, ⟨0, 2, [1]⟩, 1⟩ .done)
  have h₄ := h₃.perform (stack_run _) (.register ⟨10, .given 4, ⟨0, 2, []⟩, 3⟩ .done)
  refine ⟨_, _, _, hr, h₄, stack_run _, by decide +kernel, ?_⟩
  obtain ⟨hcorrelated, -⟩ :=
    h₄.responses_correlated hr (stack_run _) (by decide +kernel) 9 [4, 0, 2, 5, 7]
  generalize hm : Machine.run (_ : Machine Outbox Nat) = m at hcorrelated ⊢
  have hx : ∃ x ∈ live m.registry.slots, x.label = 1 ∧ x.key = ⟨9, 4, 0, 2⟩ := by
    rw [← hm]
    decide +kernel
  obtain ⟨x, hx, hlabel, hkey⟩ := hx
  have hseen := ((hcorrelated x hx).2 [5, 7] ⟨⟨false, false, 4, 0, 2⟩, rfl, rfl, hkey⟩).1
  rwa [hlabel, hkey] at hseen

end Machine

end PlatformMessaging
