import PlatformMessaging.Proofs.Requester.Alone

/-!
# Calls over a lossy network

Whatever a network does to requests and responses, and whatever else goes on with the same requester,
a call either tells of a request that was lost, or returns what it returns alone on a lossless
network (`World.Run.told_as_alone`). A plain request returns its response as it came, so that the
instance ID in it is the one that the request got, which need not be the one that it gets alone
(`World.Run.told_numbered_otherwise`).
-/

namespace PlatformMessaging

variable {τ ι κ : Type}

/-- A terminus that answers each request with its command. -/
def Terminus.echo : Terminus :=
  fun _ _ cmd _ => (0, [cmd])

namespace Requester

/-- A requester at rest whose next instance ID for an endpoint is a given one. -/
def idleAt (policy : Policy) (eid : EndpointId) (i : Fin 32) : Requester Outbox ι :=
  ⟨⟨{}, policy, ⟨[{ IdRow.fresh eid with next := i }]⟩, [], 0⟩, [], 0⟩

theorem idle_idleAt (policy : Policy) (eid : EndpointId) (i : Fin 32) :
    (idleAt policy eid i : Requester Outbox ι).Idle policy := by
  have hsound : InstanceIds.Sound ⟨[{ IdRow.fresh eid with next := i }]⟩ := by
    unfold InstanceIds.Sound
    simp
  refine ⟨rfl, rfl, hsound, ?_, rfl, rfl, by simp [idleAt]⟩
  intro eid' iid
  rw [Bool.eq_false_iff]
  intro htaken
  obtain ⟨r, hr, -, hholds⟩ := hsound.isTaken_iff.1 htaken
  obtain rfl := List.mem_singleton.1 hr
  exact IdRow.not_holds_fresh eid iid hholds

theorem offers_idleAt (policy : Policy) (eid : EndpointId) (i : Fin 32) :
    (idleAt policy eid i : Requester Outbox ι).Offers eid (UInt8.ofNat i) := by
  have hfree : ({ IdRow.fresh eid with next := i } : IdRow).free? = some i :=
    IdRow.free?_eq_next (IdRow.get_fresh eid i)
  have hrow : InstanceIds.row? ⟨[{ IdRow.fresh eid with next := i }]⟩ eid =
      some { IdRow.fresh eid with next := i } := by
    simp [InstanceIds.row?, IdRow.fresh]
  show (InstanceIds.allocate ⟨[{ IdRow.fresh eid with next := i }]⟩ eid).1 = _
  unfold InstanceIds.allocate
  rw [hrow]
  dsimp only
  rw [hfree]

end Requester

namespace World

/-- Two calls run at once. The first attempt of the first is lost, the second is answered before it and
once more afterwards, and the first is answered at its second attempt. -/
theorem exists_run_reordered :
    ∃ (q : Requester (Recorder Outbox) Nat) (w : World Outbox Nat (Nat × Call) Call.Reply),
      Requester.create ⟨{}, true, []⟩ {} = .ok (q, []) ∧
      Run Terminus.echo (fun name : Nat × Call => name.2.dialogue {}) q w ∧
      w.told = [((0, .getTid 9), .tid (.ok 2)),
        ((1, .send 9 ⟨1, 3, []⟩), .response (.ok ⟨1, 1, 3, 0, [3]⟩))] := by
  have hq : Requester.create (⟨{}, true, []⟩ : Recorder Outbox) {} =
      .ok ((⟨⟨⟨{}, true, []⟩, {}, {}, [], 0⟩, [], 0⟩ : Requester (Recorder Outbox) Nat), []) := rfl
  have h₀ : Run (τ := Outbox) (ι := Nat) Terminus.echo (fun name : Nat × Call => name.2.dialogue {})
      ⟨⟨⟨{}, true, []⟩, {}, {}, [], 0⟩, [], 0⟩ _ := .start
  have h₁ := (h₀.next (.start (0, .getTid 9)) trivial).next (.start (1, .send 9 ⟨1, 3, []⟩)) trivial
  have h₂ := (h₁.next (.poll fun _ => true) trivial).next (.update 2000) trivial
  have h₃ := h₂.next (.deliver ⟨9, [129, 1, 3], false⟩) (by decide +kernel)
  have h₄ := h₃.next (.deliver ⟨9, [129, 1, 3], true⟩) (by decide +kernel)
  have h₅ := h₄.next (.deliver ⟨9, [128, 0, 2], false⟩) (by decide +kernel)
  have h₆ := h₅.next (.poll fun _ => true) trivial
  exact ⟨_, _, hq, h₆, by decide +kernel⟩

/-- Over any run of a new requester in which only responses to current letters are delivered, a call
that is not told of a lost request returns what it returns alone on a lossless network: exactly that
with any requester at rest, if it is not a plain request, and up to the instance ID in the response if
it is one. That ID is the next one of the allocator when the call is polled for the first time, and
with a requester at rest that hands out the same ID the response is the same. -/
theorem Run.told_as_alone [Link τ] {f : Terminus} {link : Recorder τ} {policy : Policy}
    {q : Requester (Recorder τ) ι} {warnings : List Warning}
    (hq : Requester.create link policy = .ok (q, warnings))
    {w : World τ ι (κ × Call) Call.Reply}
    (h : Run f (fun name : κ × Call => name.2.dialogue policy) q w) {name : κ × Call} {reply : Call.Reply}
    (htold : (name, reply) ∈ w.told) (hlost : ∀ e, reply.failure? = some e → ¬e.IsLost) :
    (∀ q₀ : Requester Outbox ι, q₀.Idle policy → ∃ reply₀,
      q₀.EndsAlone f (.ready (name.2.dialogue policy)) reply₀ ∧
      reply₀.unnumbered = reply.unnumbered ∧
      ((∀ eid request, name.2 ≠ .send eid request) → reply₀ = reply)) ∧
    ∀ eid request r, name.2 = .send eid request → reply = .response (.ok r) →
      PolledAt f (fun name : κ × Call => name.2.dialogue policy) q w name eid r.iid ∧
      ∀ q₀ : Requester Outbox ι, q₀.Idle policy → q₀.Offers eid r.iid →
        q₀.EndsAlone f (.ready (name.2.dialogue policy)) reply := by
  have hfaithful := h.faithful (fun name : κ × Call => Call.relays policy name.2)
    (Requester.create_orderly hq)
  have hanswered : (name.2.dialogue policy).AnsweredFrom f
      (PolledAt f (fun name : κ × Call => name.2.dialogue policy) q w name) reply := by
    rcases hfaithful.told name reply htold with ⟨e, he, htells⟩ | hanswered
    · exact absurd he (hlost e htells)
    · exact hanswered
  refine ⟨fun q₀ hidle => ?_, ?_⟩
  · obtain ⟨reply₀, halone, hanswered₀⟩ := hidle.exists_endsAlone f (name.2.dialogue policy)
    exact ⟨reply₀, halone, Call.answeredFrom_unnumbered hanswered₀ hanswered⟩
  · obtain ⟨k, call⟩ := name
    rintro eid request r rfl rfl
    rcases Call.answeredFrom_send hanswered with ⟨htyp, iid, hpolled, heq⟩ | ⟨-, heq⟩
    · obtain rfl : r = f.response eid iid request := Except.ok.inj (Call.Reply.response.inj heq)
      refine ⟨hpolled, fun q₀ hidle hoffers => ?_⟩
      obtain ⟨reply₀, halone, hanswered₀⟩ :=
        hidle.exists_endsAlone f ((Call.send eid request).dialogue policy)
      rcases Call.answeredFrom_send hanswered₀ with ⟨-, iid₀, hoffers₀, rfl⟩ | ⟨hbad, -⟩
      · obtain rfl : iid₀ = iid := Except.ok.inj (hoffers₀.symm.trans hoffers)
        exact halone
      · exact absurd hbad (UInt8.not_lt.2 htyp)
    · cases heq

theorem Run.told_as_alone_reordered :
    ∃ (q : Requester (Recorder Outbox) Nat) (w : World Outbox Nat (Nat × Call) Call.Reply)
      (q₀ : Requester Outbox Nat),
      Run Terminus.echo (fun name : Nat × Call => name.2.dialogue {}) q w ∧
      w.told = [((0, .getTid 9), .tid (.ok 2)),
        ((1, .send 9 ⟨1, 3, []⟩), .response (.ok ⟨1, 1, 3, 0, [3]⟩))] ∧
      PolledAt Terminus.echo (fun name : Nat × Call => name.2.dialogue {}) q w
        (1, .send 9 ⟨1, 3, []⟩) 9 1 ∧
      q₀.Idle {} ∧
      q₀.EndsAlone Terminus.echo (.ready ((Call.getTid 9).dialogue {})) (.tid (.ok 2)) ∧
      q₀.EndsAlone Terminus.echo (.ready ((Call.send 9 ⟨1, 3, []⟩).dialogue {}))
        (.response (.ok ⟨1, 1, 3, 0, [3]⟩)) := by
  obtain ⟨q, w, hq, hrun, htold⟩ := exists_run_reordered
  have hidle := Requester.idle_idleAt (ι := Nat) {} 9 1
  have hfirst : ((0, Call.getTid 9), Call.Reply.tid (.ok 2)) ∈ w.told := by
    rw [htold]
    decide
  have hsecond : ((1, Call.send 9 ⟨1, 3, []⟩), Call.Reply.response (.ok ⟨1, 1, 3, 0, [3]⟩)) ∈
      w.told := by
    rw [htold]
    decide
  obtain ⟨hany, -⟩ := hrun.told_as_alone (ι := Nat) hq hfirst (by rintro e ⟨⟩)
  obtain ⟨reply₀, htid, -, hsame⟩ := hany _ hidle
  obtain rfl := hsame (by rintro eid request ⟨⟩)
  obtain ⟨-, hsend⟩ := hrun.told_as_alone (ι := Nat) hq hsecond (by rintro e ⟨⟩)
  obtain ⟨hpolled, halone⟩ := hsend 9 ⟨1, 3, []⟩ _ rfl rfl
  exact ⟨q, w, _, hrun, htold, hpolled, hidle, htid,
    halone _ hidle (Requester.offers_idleAt {} 9 1)⟩

/-- The response to a plain request has another instance ID than it has alone with a new requester. -/
theorem Run.told_numbered_otherwise :
    ∃ (q : Requester (Recorder Outbox) Nat) (w : World Outbox Nat (Nat × Call) Call.Reply)
      (q₀ : Requester Outbox Nat),
      Requester.create ⟨{}, true, []⟩ {} = .ok (q, []) ∧
      Run Terminus.echo (fun name : Nat × Call => name.2.dialogue {}) q w ∧
      ((1, .send 9 ⟨1, 3, []⟩), .response (.ok ⟨1, 1, 3, 0, [3]⟩)) ∈ w.told ∧
      Requester.create {} {} = .ok (q₀, []) ∧
      q₀.EndsAlone Terminus.echo (.ready ((Call.send 9 ⟨1, 3, []⟩).dialogue {}))
        (.response (.ok ⟨0, 1, 3, 0, [3]⟩)) ∧
      ¬q₀.EndsAlone Terminus.echo (.ready ((Call.send 9 ⟨1, 3, []⟩).dialogue {}))
        (.response (.ok ⟨1, 1, 3, 0, [3]⟩)) := by
  obtain ⟨q, w, hq, hrun, htold⟩ := exists_run_reordered
  have halone : (⟨⟨{}, {}, {}, [], 0⟩, [], 0⟩ : Requester Outbox Nat).EndsAlone Terminus.echo
      (.ready ((Call.send 9 ⟨1, 3, []⟩).dialogue {})) (.response (.ok ⟨0, 1, 3, 0, [3]⟩)) :=
    .goesOn rfl (.ends rfl)
  refine ⟨q, w, _, hq, hrun, ?_, rfl, halone, fun hother => ?_⟩
  · rw [htold]
    decide
  · cases halone.unique hother

end World

end PlatformMessaging
