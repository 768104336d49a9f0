import PlatformMessaging.Proofs.Requester.Calls
import PlatformMessaging.Proofs.Requester.Stages

/-!
# Calls leave nothing behind

Main statement: `Diary.calls_leave_nothing`. Each call of the library has at most one request in the
registry at any time and none when it has returned, whichever of its ends it came to. So when all
calls have returned, nothing is outstanding and no instance ID is taken.

The arguments are those of the stages of a call: it goes on from a request only after that has ended,
with a dialogue that is finite, and each ticket of the registry is that of one call.
-/

namespace PlatformMessaging

open Slots

variable {κ σ ι α : Type}

theorem length_le_one_of_nodup {β : Type} {l : List β} (hnodup : l.Nodup)
    (h : ∀ a ∈ l, ∀ b ∈ l, a = b) : l.length ≤ 1 := by
  match l with
  | [] => exact Nat.zero_le 1
  | [a] => exact Nat.le_refl 1
  | a :: b :: rest =>
    have hmem : b ∈ a :: b :: rest := List.mem_cons_of_mem a List.mem_cons_self
    have hab : a = b := h a List.mem_cons_self b hmem
    exact absurd (hab ▸ List.mem_cons_self) (List.nodup_cons.1 hnodup).1

namespace Diary

variable {dialogue : κ → Dialogue α} {d : Diary κ σ ι α} {n : Nat}

theorem mem_requests {e : Entry σ (Purpose ι)} :
    e ∈ d.requests n ↔ e ∈ entries d.registry.slots ∧ ∃ t ∈ d.tickets n, e.label = .ticket t := by
  unfold requests
  rw [List.mem_filter]
  refine and_congr_right fun _ => ?_
  cases e.label <;> simp

theorem Consistent.exists_ticket (h : d.Consistent dialogue) {e : Entry σ (Purpose ι)}
    (he : e ∈ d.requests n) :
    ∃ t ∈ d.tickets n, e.label = .ticket t ∧ t ∉ d.ended.map Prod.fst := by
  obtain ⟨hmem, t, ht, hlabel⟩ := mem_requests.1 he
  exact ⟨t, ht, hlabel, (h.accounts.exists_entry_iff (h.lt_of_mem ht)).1 ⟨e, hmem, hlabel⟩⟩

theorem Consistent.length_requests (h : d.Consistent dialogue) (n : Nat) :
    (d.requests n).length ≤ 1 := by
  have hnodup : ((d.requests n).map Entry.label).Nodup :=
    h.accounts.nodup.of_append_left.sublist (List.filter_sublist.map _)
  rw [← List.length_map Entry.label]
  refine length_le_one_of_nodup hnodup fun l hl l' hl' => ?_
  obtain ⟨e, he, rfl⟩ := List.mem_map.1 hl
  obtain ⟨e', he', rfl⟩ := List.mem_map.1 hl'
  obtain ⟨t, ht, hlabel, hnot⟩ := h.exists_ticket he
  obtain ⟨t', ht', hlabel', hnot'⟩ := h.exists_ticket he'
  cases hcall : d.started[n]? with
  | none =>
    rw [(h.unknown n hcall).1] at ht
    cases ht
  | some call => rw [hlabel, hlabel', (h.stage n call hcall).single ht ht' hnot hnot']

theorem Consistent.requests_of_returned (h : d.Consistent dialogue) {a : α}
    (ha : some a ∈ d.answers n) : d.requests n = [] := by
  apply List.eq_nil_iff_forall_not_mem.2
  intro e he
  obtain ⟨t, ht, -, hnot⟩ := h.exists_ticket he
  obtain ⟨call, -, hstage⟩ := h.exists_call_of_polled (List.ne_nil_of_mem ha)
  exact hnot (hstage.ended ha ht)

theorem Consistent.exists_call_of_mem (h : d.Consistent dialogue) {e : Entry σ (Purpose ι)}
    (he : e ∈ entries d.registry.slots) : ∃ n < d.started.length, e ∈ d.requests n := by
  obtain ⟨t, hlabel, ht⟩ := h.accounts.exists_ticket he
  have hmem : t ∈ d.issued.map Prod.snd := by
    rw [h.issued]
    exact List.mem_range.2 ht
  obtain ⟨⟨n, t'⟩, hp, rfl⟩ := List.mem_map.1 hmem
  have htickets : t' ∈ d.tickets n := mem_share.2 hp
  refine ⟨n, ?_, mem_requests.2 ⟨he, t', htickets, hlabel⟩⟩
  by_contra hlength
  rw [(h.unknown n (List.getElem?_eq_none (Nat.le_of_not_lt hlength))).1] at htickets
  cases htickets

end Diary

theorem Registry.Owned.at_rest {r : Registry σ ι} (h : r.Owned) (hentries : entries r.slots = []) :
    r.outstanding = 0 ∧ r.nextTimeout = Clock.top ∧ ∀ eid, r.ids.count eid = 0 := by
  have hlive : live r.slots = [] := by
    unfold live
    rw [hentries]
    rfl
  refine ⟨?_, ?_, fun eid => InstanceIds.count_eq_zero fun iid => ?_⟩
  · unfold outstanding
    rw [hlive]
    rfl
  · unfold nextTimeout
    rw [hlive]
    rfl
  · rw [Bool.eq_false_iff]
    intro htaken
    have hmem := (h.isTaken eid iid).1 htaken
    unfold holders at hmem
    rw [hentries] at hmem
    cases hmem

namespace Diary

/-- Whatever comes in, whatever the link refuses and whenever the timers run: over any policy, each
request in the registry is that of a call, a call has at most one at any time, and none once it has
returned. When all calls have returned, nothing is outstanding, no timer runs and no ID is taken. -/
theorem calls_leave_nothing [Link σ] {link : σ} {policy : Policy} {q : Requester σ ι}
    {warnings : List Warning} (h : Requester.create link policy = .ok (q, warnings))
    (turns : List (Turn Call σ)) :
    let d := after (Call.dialogue policy) q turns
    (∀ e ∈ entries d.registry.slots, ∃ n < d.started.length, e ∈ d.requests n) ∧
    (∀ n, (d.requests n).length ≤ 1) ∧
    (∀ n reply, (n, some reply) ∈ d.told → d.requests n = []) ∧
    ((∀ n < d.started.length, ∃ reply, (n, some reply) ∈ d.told) →
      d.registry.outstanding = 0 ∧ d.registry.nextTimeout = Clock.top ∧
        ∀ eid, d.registry.ids.count eid = 0) := by
  intro d
  have hd : d.Consistent (Call.dialogue policy) := consistent_after h turns
  have hreturned : ∀ n reply, (n, some reply) ∈ d.told → d.requests n = [] :=
    fun n reply htold => hd.requests_of_returned (mem_share.2 htold)
  refine ⟨fun e he => hd.exists_call_of_mem he, hd.length_requests, hreturned, fun hall => ?_⟩
  apply hd.accounts.owned.at_rest
  apply List.eq_nil_iff_forall_not_mem.2
  intro e he
  obtain ⟨n, hn, hmem⟩ := hd.exists_call_of_mem he
  obtain ⟨reply, htold⟩ := hall n hn
  rw [hreturned n reply htold] at hmem
  cases hmem

/-- The requests of three calls are repeated. The first call is answered, the second may not ask for the
second part of its record, and the third runs out of time. -/
theorem calls_leave_nothing_refused :
    ∃ (q : Requester Outbox Unit) (turns : List (Turn Call Outbox)),
      Requester.create {} {} = .ok (q, []) ∧
      (after (Call.dialogue {}) q turns).told =
        [(0, none), (1, none), (2, none), (0, some (.tid (.ok 5))),
          (1, some (.record (.error (.request (.link .noSpace))))),
          (2, some (.info (.error .timedOut)))] ∧
      (after (Call.dialogue {}) q turns).registry.outstanding = 0 ∧
      (after (Call.dialogue {}) q turns).registry.nextTimeout = Clock.top ∧
      ∀ eid, (after (Call.dialogue {}) q turns).registry.ids.count eid = 0 := by
  have hq : Requester.create ({} : Outbox) {} =
      .ok ((⟨⟨{}, {}, {}, [], 0⟩, [], 0⟩ : Requester Outbox Unit), []) := rfl
  have h := calls_leave_nothing hq
    [.start (.getTid 9), .start (.getRecord 9 0), .start (.getInfo 8), .poll 0, .poll 1, .poll 2,
      .update 2000, .inbound 9 [0, 0, 2, 0, 5], .poll 0,
      .inbound 9 [1, 2, 0x51, 0, 0, 0, 0, 0, 1, 0, 0, 0, 1, 10, 0, 1, 0, 0, 0, 1, 1, 5, 0, 1, 0],
      .adjust fun link => link.refuse (some .noSpace), .poll 1, .update 8000, .poll 2]
  refine ⟨_, _, hq, by decide +kernel, h.2.2.2 fun n hn => ?_⟩
  have hcases : n = 0 ∨ n = 1 ∨ n = 2 := by
    change n < 3 at hn
    omega
  rcases hcases with rfl | rfl | rfl
  · exact ⟨.tid (.ok 5), by decide +kernel⟩
  · exact ⟨.record (.error (.request (.link .noSpace))), by decide +kernel⟩
  · exact ⟨.info (.error .timedOut), by decide +kernel⟩

end Diary

end PlatformMessaging
