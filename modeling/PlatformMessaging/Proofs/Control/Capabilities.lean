import PlatformMessaging.Control.Discovery
import PlatformMessaging.Proofs.Dialogue
import PlatformMessaging.Proofs.Wire.Messages
import Mathlib.Tactic.Common

/-!
# Capabilities told by masks

A terminus tells the types that it knows, and the commands of a type, by masks of 8 and 32 bytes. What
`getTypes` and `getCommands` return are exactly the codes whose bits are set, in ascending order, whatever
follows the mask (`Control.capabilities_listed_exactly`). So a set of codes comes back as it was told, and
different masks tell different sets.

A code is a byte, so a mask can have no more than 32 bytes: further positions would be taken for earlier ones.
This is the one place where the length of the mask counts (`lists_bits`); the rest compares masks bit by bit.
-/

namespace PlatformMessaging

theorem Dialogue.play_query {α : Type} (answers : Nat → Except RequestError Response) (n : Nat)
    (eid : EndpointId) (request : Request) (L : Layout α) :
    (Dialogue.query eid request L).play answers n =
      ([(eid, request)], match answers n with
        | .error e => .error e
        | .ok r => match r.body L with
          | .error e => .error (.messaging e)
          | .ok v => .ok v) := by
  unfold Dialogue.query Dialogue.andThen Dialogue.send
  rw [Dialogue.ask_bind, Dialogue.play_ask]
  rcases answers n with e | r
  · rfl
  · rw [Dialogue.done_bind]
    dsimp only
    rcases r.body L with e | v <;> rfl

namespace Control

/-! ## Bits of a mask -/

/-- The bit of a code is set: bit `n % 8` of byte `n / 8`. -/
def IsSet (mask : Bytes) (n : UInt8) : Prop :=
  ∃ b, mask[n.toNat / 8]? = some b ∧ b.toNat.testBit (n.toNat % 8) = true

/-- The codes are those whose bits are set, in ascending order. -/
structure Lists (mask : Bytes) (codes : List UInt8) : Prop where
  ascending : codes.Pairwise (· < ·)
  mem_iff : ∀ n, n ∈ codes ↔ IsSet mask n

theorem testBit_iff {mask : Bytes} {n : UInt8} : testBit mask n.toNat = true ↔ IsSet mask n := by
  unfold testBit IsSet
  cases mask[n.toNat / 8]? with
  | none => simp
  | some b => simp

theorem IsSet.lt_length {mask : Bytes} {n : UInt8} (h : IsSet mask n) :
    n.toNat < 8 * mask.length := by
  obtain ⟨b, hb, -⟩ := h
  obtain ⟨hlt, -⟩ := List.getElem?_eq_some_iff.1 hb
  omega

/-- Of a mask that has no position too many for a byte, `bits` tells the codes. -/
theorem lists_bits {mask : Bytes} (h : mask.length ≤ 32) : Lists mask (bits mask) := by
  have hbyte : ∀ k ∈ (List.range (8 * mask.length)).filter (testBit mask),
      (UInt8.ofNat k).toNat = k := by
    intro k hk
    have hlt := List.mem_range.1 (List.mem_filter.1 hk).1
    exact UInt8.toNat_ofNat_of_lt' (by show k < 256; omega)
  refine ⟨?_, fun n => ?_⟩
  · refine List.pairwise_map.2 ((List.pairwise_lt_range.filter _).imp_of_mem ?_)
    intro a b ha hb hab
    rw [UInt8.lt_iff_toNat_lt, hbyte a ha, hbyte b hb]
    exact hab
  · constructor
    · intro hn
      obtain ⟨k, hk, rfl⟩ := List.mem_map.1 hn
      rw [← testBit_iff, hbyte k hk]
      exact (List.mem_filter.1 hk).2
    · intro hset
      refine List.mem_map.2 ⟨n.toNat, ?_, UInt8.ofNat_toNat⟩
      exact List.mem_filter.2 ⟨List.mem_range.2 hset.lt_length, testBit_iff.2 hset⟩

/-- Position 256 would be taken for 0. -/
example : bits (List.replicate 32 0 ++ [1]) = [0] := by decide +kernel

theorem Lists.unique {mask : Bytes} {codes codes' : List UInt8} (h : Lists mask codes)
    (h' : Lists mask codes') : codes = codes' := by
  have hnodup : ∀ {l : List UInt8}, l.Pairwise (· < ·) → l.Nodup :=
    fun hl => hl.imp fun hlt heq => absurd (heq ▸ hlt) (UInt8.lt_irrefl _)
  refine List.Perm.eq_of_pairwise ?_ h.ascending h'.ascending ?_
  · exact fun a b _ _ hab hba => absurd (UInt8.lt_trans hab hba) (UInt8.lt_irrefl a)
  · refine (List.perm_ext_iff_of_nodup (hnodup h.ascending) (hnodup h'.ascending)).2 fun n => ?_
    rw [h.mem_iff, h'.mem_iff]

theorem eq_of_isSet_iff {mask mask' : Bytes} (hlength : mask.length = mask'.length)
    (hshort : mask.length ≤ 32) (h : ∀ n, IsSet mask n ↔ IsSet mask' n) : mask = mask' := by
  refine List.ext_getElem hlength fun i hi hi' => UInt8.toNat_inj.1 (Nat.eq_of_testBit_eq fun j => ?_)
  by_cases hj : j < 8
  · -- Bit `j` of byte `i` is that of the code `8 * i + j`.
    have hn : (UInt8.ofNat (8 * i + j)).toNat = 8 * i + j :=
      UInt8.toNat_ofNat_of_lt' (by show 8 * i + j < 256; omega)
    have hcode := h (UInt8.ofNat (8 * i + j))
    have hbyte : (8 * i + j) / 8 = i := by omega
    have hbit : (8 * i + j) % 8 = j := by omega
    unfold IsSet at hcode
    rw [hn, hbyte, hbit, List.getElem?_eq_getElem hi, List.getElem?_eq_getElem hi'] at hcode
    rw [Bool.eq_iff_iff]
    simpa only [Option.some.injEq, exists_eq_left'] using hcode
  · rw [Header.testBit_of_le _ (Nat.le_of_not_lt hj), Header.testBit_of_le _ (Nat.le_of_not_lt hj)]

/-! ## Masks as a terminus writes them -/

def setBit (mask : Bytes) (n : UInt8) : Bytes :=
  mask.modify (n.toNat / 8) fun b => b ||| 1 <<< (n % 8)

/-- The mask of so many bytes that tells the given codes, in whatever order they are given. -/
def maskOf (size : Nat) (codes : List UInt8) : Bytes :=
  codes.foldl setBit (List.replicate size 0)

@[simp] theorem length_setBit (mask : Bytes) (n : UInt8) : (setBit mask n).length = mask.length := by
  simp [setBit]

@[simp] theorem length_foldl_setBit (codes : List UInt8) (mask : Bytes) :
    (codes.foldl setBit mask).length = mask.length := by
  induction codes generalizing mask with
  | nil => rfl
  | cons n codes ih => rw [List.foldl_cons, ih, length_setBit]

@[simp] theorem length_maskOf (size : Nat) (codes : List UInt8) : (maskOf size codes).length = size := by
  simp [maskOf]

theorem testBit_or_shift (b n : UInt8) (j : Nat) :
    (b ||| 1 <<< (n % 8)).toNat.testBit j = (b.toNat.testBit j || decide (n.toNat % 8 = j)) := by
  have hlt : n.toNat % 8 < 8 := Nat.mod_lt _ (by decide)
  have hpow : 2 ^ (n.toNat % 8) < 2 ^ 8 := Nat.pow_lt_pow_right (by decide) hlt
  have hshift : (1 <<< (n % 8) : UInt8).toNat = 2 ^ (n.toNat % 8) := by
    rw [UInt8.toNat_shiftLeft, UInt8.toNat_mod]
    show 1 <<< (n.toNat % 8 % 8) % 2 ^ 8 = _
    rw [Nat.mod_mod, Nat.one_shiftLeft, Nat.mod_eq_of_lt hpow]
  rw [UInt8.toNat_or, Nat.testBit_or, hshift, Nat.testBit_two_pow]

theorem isSet_setBit {mask : Bytes} {c : UInt8} (hc : c.toNat < 8 * mask.length) (n : UInt8) :
    IsSet (setBit mask c) n ↔ n = c ∨ IsSet mask n := by
  have hsame : n = c ↔ c.toNat / 8 = n.toNat / 8 ∧ c.toNat % 8 = n.toNat % 8 := by
    rw [← UInt8.toNat_inj]
    omega
  unfold IsSet setBit
  rw [List.getElem?_modify, hsame]
  by_cases hbyte : c.toNat / 8 = n.toNat / 8
  · have hlt : n.toNat / 8 < mask.length := by omega
    rw [List.getElem?_eq_getElem hlt, or_comm]
    simp only [hbyte, Option.map_eq_map, Option.map_some, if_true, Option.some.injEq, exists_eq_left',
      testBit_or_shift, Bool.or_eq_true, decide_eq_true_eq, true_and]
  · simp [hbyte]

theorem isSet_foldl_setBit {codes : List UInt8} {mask : Bytes}
    (hcodes : ∀ c ∈ codes, c.toNat < 8 * mask.length) (n : UInt8) :
    IsSet (codes.foldl setBit mask) n ↔ n ∈ codes ∨ IsSet mask n := by
  induction codes generalizing mask with
  | nil => simp
  | cons c codes ih =>
    have hrest : ∀ c' ∈ codes, c'.toNat < 8 * (setBit mask c).length := by
      intro c' hc'
      rw [length_setBit]
      exact hcodes c' (List.mem_cons_of_mem _ hc')
    rw [List.foldl_cons, ih hrest, isSet_setBit (hcodes c List.mem_cons_self), List.mem_cons,
      or_left_comm, or_assoc]

theorem isSet_maskOf {size : Nat} {codes : List UInt8} (hcodes : ∀ c ∈ codes, c.toNat < 8 * size)
    (n : UInt8) : IsSet (maskOf size codes) n ↔ n ∈ codes := by
  have hnone : ¬IsSet (List.replicate size 0) n := by
    rintro ⟨b, hb, hbit⟩
    rw [List.getElem?_replicate] at hb
    split_ifs at hb
    obtain rfl := Option.some.inj hb
    simp at hbit
  unfold maskOf
  rw [isSet_foldl_setBit (by simpa using hcodes), or_iff_left hnone]

/-! ## Asking for a mask -/

/-- The dialogue asks once for a mask of so many bytes, and returns the codes that it tells. -/
structure ReadsMask (d : Dialogue (Except RequestError (List UInt8))) (eid : EndpointId)
    (request : Request) (size : Nat) : Prop where
  /-- Of a successful response with a mask, whatever follows it, the codes are returned. -/
  lists : ∀ (answers : Nat → Except RequestError Response) (r : Response), answers 0 = .ok r →
    r.code = CompletionCode.success.code → size ≤ r.data.length →
    ∃ codes, d.play answers 0 = ([(eid, request)], .ok codes) ∧ Lists (r.data.take size) codes
  /-- A set of codes that a terminus tells comes back in ascending order. -/
  returns : ∀ (answers : Nat → Except RequestError Response) (r : Response) (told codes : List UInt8)
    (surplus : Bytes), (∀ c ∈ told, c.toNat < 8 * size) → codes.Pairwise (· < ·) →
    (∀ n, n ∈ codes ↔ n ∈ told) → answers 0 = .ok r → r.code = CompletionCode.success.code →
    r.data = maskOf size told ++ surplus → d.play answers 0 = ([(eid, request)], .ok codes)
  /-- Different masks lead to different lists. -/
  differs : ∀ (answers answers' : Nat → Except RequestError Response) (r r' : Response),
    answers 0 = .ok r → answers' 0 = .ok r' → r.code = CompletionCode.success.code →
    r'.code = CompletionCode.success.code → size ≤ r.data.length → size ≤ r'.data.length →
    r.data.take size ≠ r'.data.take size → (d.play answers 0).2 ≠ (d.play answers' 0).2
  /-- A response that tells of a failure ends in an error. -/
  fails : ∀ (answers : Nat → Except RequestError Response) (r : Response), answers 0 = .ok r →
    r.code ≠ CompletionCode.success.code →
    d.play answers 0 = ([(eid, request)], .error (.messaging (.protocol (.failure r.code))))
  /-- So does a response that is too short for the mask. -/
  short : ∀ (answers : Nat → Except RequestError Response) (r : Response), answers 0 = .ok r →
    r.code = CompletionCode.success.code → r.data.length < size →
    d.play answers 0 = ([(eid, request)], .error (.messaging (.protocol .truncated)))
  /-- So does a request without a response. -/
  relays : ∀ (answers : Nat → Except RequestError Response) (e : RequestError),
    answers 0 = .error e → d.play answers 0 = ([(eid, request)], .error e)

section ReadsMask

variable {α : Type} {size : Nat} {make : Block size → α} {parts : α → Block size}
  {answers : Nat → Except RequestError Response} {eid : EndpointId} {request : Request}

theorem body_mask (r : Response) :
    r.body ((Layout.block size).convert make parts) =
      if r.code = CompletionCode.success.code then
        if h : size ≤ r.data.length then .ok (make ⟨r.data.take size, List.length_take_of_le h⟩)
        else .error (.protocol .truncated)
      else .error (.protocol (.failure r.code)) := by
  unfold Response.body Response.succeeded
  split_ifs with hcode hlong
  · simp [Layout.decode, Layout.convert, Layout.block, hlong]
  · simp [Layout.decode, Layout.convert, Layout.block, hlong]
  · rfl

theorem play_mask (hparts : ∀ v, parts (make v) = v) :
    ((Dialogue.query eid request ((Layout.block size).convert make parts)).andThen fun v =>
        .done (.ok (bits (parts v).bytes))).play answers 0 =
      ([(eid, request)], match answers 0 with
        | .error e => .error e
        | .ok r =>
          if r.code = CompletionCode.success.code then
            if size ≤ r.data.length then .ok (bits (r.data.take size))
            else .error (.messaging (.protocol .truncated))
          else .error (.messaging (.protocol (.failure r.code)))) := by
  unfold Dialogue.andThen
  rw [Dialogue.play_bind, Dialogue.play_query]
  rcases answers 0 with e | r
  · rfl
  · dsimp only
    rw [body_mask]
    split_ifs with hcode hlong
    · dsimp only
      rw [hparts]
      rfl
    · rfl
    · rfl

theorem readsMask (hparts : ∀ v, parts (make v) = v) (hsize : size ≤ 32) :
    ReadsMask ((Dialogue.query eid request ((Layout.block size).convert make parts)).andThen fun v =>
      .done (.ok (bits (parts v).bytes))) eid request size := by
  have hlists : ∀ r : Response, Lists (r.data.take size) (bits (r.data.take size)) :=
    fun r => lists_bits (Nat.le_trans (List.length_take_le ..) hsize)
  refine ⟨?_, ?_, ?_, ?_, ?_, ?_⟩
  · intro answers r hanswer hcode hlong
    refine ⟨_, ?_, hlists r⟩
    rw [play_mask hparts, hanswer]
    dsimp only
    rw [if_pos hcode, if_pos hlong]
  · intro answers r told codes surplus htold hascending hmem hanswer hcode hdata
    have htake : r.data.take size = maskOf size told := by
      rw [hdata, List.take_left' (length_maskOf size told)]
    have hlong : size ≤ r.data.length := by
      rw [hdata, List.length_append, length_maskOf]
      exact Nat.le_add_right _ _
    have hcodes : Lists (r.data.take size) codes := by
      refine ⟨hascending, fun n => ?_⟩
      rw [htake, isSet_maskOf htold, hmem]
    rw [play_mask hparts, hanswer]
    dsimp only
    rw [if_pos hcode, if_pos hlong, hcodes.unique (hlists r)]
  · intro answers answers' r r' hanswer hanswer' hcode hcode' hlong hlong' hne heq
    rw [play_mask hparts, play_mask hparts, hanswer, hanswer'] at heq
    dsimp only at heq
    rw [if_pos hcode, if_pos hcode', if_pos hlong, if_pos hlong', Except.ok.injEq] at heq
    refine hne (eq_of_isSet_iff ?_ (Nat.le_trans (List.length_take_le ..) hsize) fun n => ?_)
    · rw [List.length_take_of_le hlong, List.length_take_of_le hlong']
    · rw [← (hlists r).mem_iff, ← (hlists r').mem_iff, heq]
  · intro answers r hanswer hcode
    rw [play_mask hparts, hanswer]
    dsimp only
    rw [if_neg hcode]
  · intro answers r hanswer hcode hshort
    rw [play_mask hparts, hanswer]
    dsimp only
    rw [if_pos hcode, if_neg (Nat.not_le.2 hshort)]
  · intro answers e hanswer
    rw [play_mask hparts, hanswer]

end ReadsMask

/-! ## The result -/

/-- **Exactly the codes that are told are returned.** The types of a terminus are read from a mask of 8
bytes, and the commands of a type from one of 32. Every mask that has a position for each of its bits in a
byte tells the codes whose bits are set. -/
theorem capabilities_listed_exactly :
    (∀ eid, ReadsMask (getTypes eid) eid (request .getTypes []) 8) ∧
    (∀ eid typ version, ReadsMask (getCommands eid typ version) eid
      (request .getCommands (CommandsRequest.layout.write ⟨typ, version⟩)) 32) ∧
    ∀ mask : Bytes, mask.length ≤ 32 → Lists mask (bits mask) :=
  ⟨fun _ => readsMask (fun _ => rfl) (by decide), fun _ _ _ => readsMask (fun _ => rfl) (by decide),
    fun _ => lists_bits⟩

/-- A terminus tells of three types, the last one first, and two more bytes follow the mask. The last of all
commands has a place in a mask as well. -/
theorem capabilities_listed_with_surplus :
    (getTypes 9).play (Dialogue.given [.ok ⟨0, 0, 4, 0, [5, 0, 128, 0, 0, 0, 0, 0, 255, 1]⟩]) 0 =
      ([(9, request .getTypes [])], .ok [0, 2, 23]) ∧
    Lists (maskOf 32 [255]) (bits (maskOf 32 [255])) := by
  obtain ⟨htypes, -, hmask⟩ := capabilities_listed_exactly
  have hmem : ∀ n, n ∈ [0, 2, 23] ↔ n ∈ ([23, 0, 2] : List UInt8) := fun _ => List.Perm.mem_iff (by decide)
  refine ⟨?_, hmask _ (Nat.le_of_eq (length_maskOf 32 [255]))⟩
  exact (htypes 9).returns _ ⟨0, 0, 4, 0, [5, 0, 128, 0, 0, 0, 0, 0, 255, 1]⟩ [23, 0, 2] [0, 2, 23] [255, 1]
    (by simp) (by decide) hmem rfl rfl (by decide +kernel)

end Control

end PlatformMessaging
