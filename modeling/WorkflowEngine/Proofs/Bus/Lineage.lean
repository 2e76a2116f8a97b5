import Mathlib.Data.List.Nodup
import Mathlib.Data.List.Perm.Basic
import WorkflowEngine.Proofs.Bus.Batching

/-!
What a consumer that is never stopped does with each message. A message comes in once as it was sent
first, and then as often as a copy of it, sent again after a failure, comes back. Each copy that comes in
is held, goes to the handler in one call, and is sent again, dropped or refused if that call fails. Which
message a copy goes back to is written down beside the consumer; the consumer itself does not know.
-/

namespace WorkflowEngine

open Batch

/-- A message as it comes in, and the number of the message sent first that it goes back to. -/
structure Copy where
  origin : Nat
  message : Message

/-- A call of the handler, and the copies whose messages are in the batch. -/
structure HandlerCall where
  batch : Batch
  copies : List Copy

namespace Copy

/-- What is gathered together. -/
def key (c : Copy) : TenantId × String := (c.message.tenantId, c.message.kindName)

/-- How many of the copies go back to a message. -/
def tally (o : Nat) (cs : List Copy) : Nat := cs.countP (·.origin == o)

variable {o : Nat} {c : Copy} {cs cs' : List Copy}

@[simp] theorem tally_nil : tally o [] = 0 := rfl

@[simp] theorem tally_append : tally o (cs ++ cs') = tally o cs + tally o cs' := List.countP_append

@[simp] theorem tally_singleton : tally o [c] = if c.origin = o then 1 else 0 := by
  simp [tally, List.countP_cons]

theorem tally_perm (o : Nat) (perm : cs.Perm cs') : tally o cs = tally o cs' := perm.countP_eq _

theorem tally_pos (hc : c ∈ cs) : 0 < tally c.origin cs :=
  List.countP_pos_iff.mpr ⟨c, hc, beq_self_eq_true _⟩

theorem any_iff : cs.any (·.origin == o) = true ↔ 0 < tally o cs := by
  rw [tally, List.countP_pos_iff, List.any_eq_true]

theorem nodup_of_tally (once : ∀ o, tally o cs ≤ 1) : cs.Nodup := by
  refine List.Nodup.of_map origin (List.nodup_iff_count_le_one.mpr fun o => ?_)
  rw [List.count, List.countP_map]
  exact once o

end Copy

/-- A consumer with all that it has done, and where each copy is. -/
structure Lineage where
  consumer : Consumer
  /-- The messages that came in as they were sent first. -/
  first : List Message := []
  /-- All that came in, in the order of arrival. -/
  arrived : List Copy := []
  /-- What came in and was not handed over yet, in the order of arrival. -/
  held : List Copy := []
  calls : List HandlerCall := []
  running : List HandlerCall := []
  /-- The calls that came to an end, and whether they went well. -/
  finished : List (HandlerCall × Bool) := []
  /-- What could not be handled and is to be sent again. -/
  returning : List Copy := []
  /-- What was sent again and has not come back. -/
  underway : List Copy := []
  /-- What could not be handled and had no retry left. -/
  dropped : List Copy := []
  /-- What should have been sent again when that was refused. -/
  refused : List Copy := []

inductive LineageStep where
  /-- A message comes in as it was sent first. -/
  | first (m : Message)
  /-- One of the copies that were sent again comes back. -/
  | again (i : Nat)
  | tick
  /-- One of the calls comes to an end. -/
  | finish (n : Nat) (ok : Bool)
  /-- One of the messages of a failed call is sent again, if it has a retry left. -/
  | giveBack (n : Nat) (accepted : Bool)

namespace Lineage

open Copy (tally tally_append tally_pos tally_perm any_iff)

/-- Nothing is to be done before the next message or tick. -/
def waits (s : Lineage) : Bool := s.running.isEmpty && s.returning.isEmpty

/-- The copies whose messages are gathered in a batch. -/
def share (s : Lineage) (b : Batch) : List Copy := s.held.filter (·.key == b.key)

def handOver (s : Lineage) (b : Batch) : Lineage :=
  let call : HandlerCall := ⟨b, s.share b⟩
  { s with
    held := s.held.filter (·.key != b.key)
    calls := s.calls ++ [call]
    running := s.running ++ [call] }

def arrive (s : Lineage) (c : Copy) : Lineage :=
  let (full, consumer) := s.consumer.receive c.message
  full.toList.foldl handOver
    { s with consumer, arrived := s.arrived ++ [c], held := s.held ++ [c] }

def flush (s : Lineage) : Lineage :=
  let (batches, consumer) := s.consumer.flush
  batches.foldl handOver { s with consumer }

def finish (s : Lineage) (n : Nat) (call : HandlerCall) (ok : Bool) : Lineage :=
  { s with
    running := s.running.eraseIdx n
    finished := s.finished ++ [(call, ok)]
    returning := if ok then s.returning else s.returning ++ call.copies }

def sendAgain (s : Lineage) (n : Nat) (c : Copy) (accepted : Bool) : Lineage :=
  let returning := s.returning.eraseIdx n
  match c.message.redelivery? with
  | none => { s with returning, dropped := s.dropped ++ [c] }
  | some m =>
    if accepted then { s with returning, underway := s.underway ++ [{ c with message := m }] }
    else { s with returning, refused := s.refused ++ [c] }

/-- Does a step, if it is one that can be done now. -/
def step (s : Lineage) : LineageStep → Lineage
  | .first m =>
    if s.waits then { s with first := s.first ++ [m] }.arrive ⟨s.first.length, m⟩ else s
  | .again i =>
    match s.underway[i]? with
    | none => s
    | some c => if s.waits then { s with underway := s.underway.eraseIdx i }.arrive c else s
  | .tick => if s.waits then s.flush else s
  | .finish n ok =>
    match s.running[n]? with
    | none => s
    | some call => s.finish n call ok
  | .giveBack n accepted =>
    match s.returning[n]? with
    | none => s
    | some c => s.sendAgain n c accepted

variable {s : Lineage} {b : Batch} {bs : List Batch} {c : Copy} {call : HandlerCall} {m : Message} {o : Nat}

/-! ### Order -/

/-- Under each key there is gathered what is held of it, and the calls of a key have had what came in of it
before, in the order of arrival. -/
structure Filed (bs : List Batch) (s : Lineage) : Prop where
  keyed : (bs.map key).Nodup
  gathered : ∀ k, under k bs = (s.held.filter (·.key == k)).map (·.message)
  calls : ∀ call ∈ s.calls, call.batch.messages = call.copies.map (·.message) ∧
    ∀ c ∈ call.copies, c.key = call.batch.key
  running : ∀ call ∈ s.running, call ∈ s.calls
  order : ∀ k, (s.calls.filter (·.batch.key == k)).flatMap (·.copies) ++ s.held.filter (·.key == k) =
    s.arrived.filter (·.key == k)

/-- What is held of the other keys. -/
theorem held_handOver (s : Lineage) (b : Batch) (k : TenantId × String) :
    (s.handOver b).held.filter (·.key == k) = if b.key = k then [] else s.held.filter (·.key == k) := by
  rw [handOver, List.filter_filter]
  split
  · rename_i here
    simp [here]
  · rename_i other
    refine List.filter_congr fun c _ => ?_
    by_cases same : c.key = k
    · simp [same, Ne.symm other]
    · simp [same]

theorem Filed.handOver (filed : Filed bs s) (hb : b ∈ bs) :
    Filed (bs.filter (·.key != b.key)) (s.handOver b) where
  keyed := filed.keyed.sublist (List.filter_sublist.map _)
  gathered k := by
    rw [held_handOver, under, List.filter_filter]
    split
    · rename_i here
      simp [here]
    · rename_i other
      rw [← filed.gathered k, under]
      congr 1
      refine List.filter_congr fun b' _ => ?_
      by_cases same : b'.key = k
      · simp [same, Ne.symm other]
      · simp [same]
  calls := List.forall_mem_append.mpr ⟨filed.calls, List.forall_mem_singleton.mpr
    ⟨(under_of_mem filed.keyed hb).symm.trans (filed.gathered b.key),
      fun c hc => eq_of_beq (List.mem_filter.mp hc).2⟩⟩
  running := List.forall_mem_append.mpr
    ⟨fun call hcall => List.mem_append_left _ (filed.running call hcall),
      List.forall_mem_singleton.mpr (List.mem_append_right _ List.mem_cons_self)⟩
  order k := by
    rw [held_handOver]
    simp only [Lineage.handOver, List.filter_append, List.flatMap_append]
    rw [← filed.order k, List.append_assoc]
    split
    · rename_i here
      simp [here, share]
    · rename_i other
      simp [other]

/-- Once all batches are handed over, nothing is held. -/
theorem Filed.handOverAll (filed : Filed bs s) : Filed [] (bs.foldl Lineage.handOver s) := by
  induction bs generalizing s with
  | nil => exact filed
  | cons b rest ih =>
    have fresh := (List.nodup_cons.mp filed.keyed).1
    have others : (b :: rest).filter (·.key != b.key) = rest := by
      rw [List.filter_cons_of_neg (by simp), List.filter_eq_self]
      intro b' hb'
      exact bne_iff_ne.mpr fun same => fresh (List.mem_map.mpr ⟨b', hb', same⟩)
    exact ih (others ▸ filed.handOver List.mem_cons_self)

theorem Filed.held_nil (filed : Filed [] s) : s.held = [] :=
  List.eq_nil_iff_forall_not_mem.mpr fun c hc => by
    have none := List.map_eq_nil_iff.mp (filed.gathered c.key).symm
    exact List.filter_eq_nil_iff.mp none c hc (beq_self_eq_true _)

theorem Filed.gather (filed : Filed bs s) (c : Copy) (consumer : Consumer) :
    Filed (Batch.gather c.message bs)
      { s with consumer, arrived := s.arrived ++ [c], held := s.held ++ [c] } where
  keyed := (keys_gather filed.keyed).1
  gathered k := by
    rw [under_gather filed.keyed, filed.gathered k]
    by_cases here : c.key = k
    · simp [here, ← Copy.key.eq_def c]
    · simp [here, ← Copy.key.eq_def c]
  calls := filed.calls
  running := filed.running
  order k := by
    simp only [List.filter_append, ← List.append_assoc]
    rw [filed.order k]

/-- What is handed over is taken out of what is held, and nothing else is touched. -/
theorem handOverAll_eq (bs : List Batch) (s : Lineage) : ∃ made held,
    bs.foldl handOver s = { s with held, calls := s.calls ++ made, running := s.running ++ made } ∧
      made.map (·.batch) = bs ∧ s.held.Perm (made.flatMap (·.copies) ++ held) := by
  induction bs generalizing s with
  | nil => exact ⟨[], s.held, by simp, rfl, List.Perm.refl _⟩
  | cons b rest ih =>
    obtain ⟨made, held, same, batches, perm⟩ := ih (s.handOver b)
    refine ⟨⟨b, s.share b⟩ :: made, held, ?_, congrArg (b :: ·) batches, ?_⟩
    · rw [List.foldl_cons, same]
      simp [handOver]
    · rw [List.flatMap_cons, List.append_assoc]
      exact (List.filter_append_perm (·.key == b.key) s.held).symm.trans (perm.append_left _)

theorem arrive_eq (s : Lineage) (c : Copy) : ∃ made held,
    s.arrive c = { s with
      consumer := (s.consumer.receive c.message).2
      arrived := s.arrived ++ [c]
      held
      calls := s.calls ++ made
      running := s.running ++ made } ∧
    made.map (·.batch) = (s.consumer.receive c.message).1.toList ∧
    (s.held ++ [c]).Perm (made.flatMap (·.copies) ++ held) :=
  handOverAll_eq _ { s with
    consumer := (s.consumer.receive c.message).2, arrived := s.arrived ++ [c], held := s.held ++ [c] }

theorem flush_eq (s : Lineage) : ∃ made held,
    s.flush = { s with
      consumer := s.consumer.flush.2, held, calls := s.calls ++ made, running := s.running ++ made } ∧
    made.map (·.batch) = s.consumer.flush.1 ∧ s.held.Perm (made.flatMap (·.copies) ++ held) :=
  handOverAll_eq _ { s with consumer := s.consumer.flush.2 }

theorem Filed.arrive (filed : Filed s.consumer.batches s) (c : Copy) :
    Filed (s.arrive c).consumer.batches (s.arrive c) := by
  unfold Lineage.arrive
  rcases s.consumer.receive_cases c.message with waits | ⟨b, hb, -, -, full⟩
  · rw [waits]
    exact filed.gather c _
  · rw [full]
    exact (filed.gather c _).handOver hb

theorem Filed.flush (filed : Filed s.consumer.batches s) : Filed s.flush.consumer.batches s.flush := by
  have empty : Filed s.consumer.batches { s with consumer := s.consumer.flush.2 } := { filed with }
  obtain ⟨made, held, same, -⟩ := s.flush_eq
  have done : Filed [] s.flush := empty.handOverAll
  rw [same] at done ⊢
  exact done

theorem Filed.step (filed : Filed s.consumer.batches s) (x : LineageStep) :
    Filed (s.step x).consumer.batches (s.step x) := by
  cases x with
  | first m =>
    simp only [Lineage.step]
    split
    · have told : Filed s.consumer.batches { s with first := s.first ++ [m] } := { filed with }
      exact told.arrive _
    · exact filed
  | again i =>
    simp only [Lineage.step]
    split
    · exact filed
    · split
      · have back : Filed s.consumer.batches { s with underway := s.underway.eraseIdx i } := { filed with }
        exact back.arrive _
      · exact filed
  | tick =>
    simp only [Lineage.step]
    split
    · exact filed.flush
    · exact filed
  | finish n ok =>
    simp only [Lineage.step, Lineage.finish]
    split
    · exact filed
    · exact { filed with running := fun call hcall => filed.running call (List.mem_of_mem_eraseIdx hcall) }
  | giveBack n accepted =>
    simp only [Lineage.step, Lineage.sendAgain]
    repeat' split
    all_goals exact { filed with }

/-! ### Accounts -/

/-- How many calls of the handler had a copy that goes back to a message. -/
def timesHandled (s : Lineage) (o : Nat) : Nat := s.calls.countP (·.copies.any (·.origin == o))

/-- The copies whose messages the handler has not had yet. -/
def ahead (s : Lineage) : List Copy := s.underway ++ s.held

def handled (s : Lineage) : List Copy := (s.finished.filter (·.2)).flatMap (·.1.copies)

def failed (s : Lineage) : List Copy := (s.finished.filter (!·.2)).flatMap (·.1.copies)

/-- The copies that failed and were not sent again. -/
def lost (s : Lineage) : List Copy := s.dropped ++ s.refused

/-- The copies whose messages the handler has had, and of which nothing was sent again. -/
def behind (s : Lineage) : List Copy :=
  s.running.flatMap (·.copies) ++ s.handled ++ s.returning ++ s.lost

/-- The calls for the message of a copy and the retries that the copy has left come to the retries that the
message was sent with, and `n` more. -/
def Counts (s : Lineage) (c : Copy) (n : Nat) : Prop :=
  ∃ m, s.first[c.origin]? = some m ∧ s.timesHandled c.origin + c.message.retries = m.retries + n

/-- There is one copy of each message, and each call but the last has taken a retry from it. -/
structure Balanced (s : Lineage) : Prop where
  single : ∀ o, tally o s.ahead + tally o s.behind = if o < s.first.length then 1 else 0
  ahead : ∀ c ∈ s.ahead, s.Counts c 0
  behind : ∀ c ∈ s.behind, s.Counts c 1
  past : ∀ c ∈ s.calls.flatMap (·.copies), ∃ n, s.Counts c (n + 1)
  once : (s.calls.flatMap (·.copies)).Nodup
  returning : ∀ c ∈ s.returning, c ∈ s.failed
  dropped : ∀ c ∈ s.dropped, c ∈ s.failed ∧ c.message.retries = 0
  refused : ∀ c ∈ s.refused, c ∈ s.failed ∧ 0 < c.message.retries

theorem Counts.later {s' : Lineage} {n n' : Nat} (counts : s.Counts c n) (first : s'.first = s.first)
    (more : s'.timesHandled c.origin + n = s.timesHandled c.origin + n') : s'.Counts c n' := by
  obtain ⟨m, sent, sum⟩ := counts
  refine ⟨m, first ▸ sent, ?_⟩
  omega

theorem Counts.unique {n n' : Nat} (counts : s.Counts c n) (counts' : s.Counts c n') : n = n' := by
  obtain ⟨m, sent, sum⟩ := counts
  obtain ⟨m', sent', sum'⟩ := counts'
  cases sent.symm.trans sent'
  omega

theorem Balanced.single_le (balanced : s.Balanced) (o : Nat) :
    tally o s.ahead + tally o s.behind ≤ 1 := by
  rw [balanced.single o]
  split <;> omega

/-- A call counts for the messages whose copies it has. -/
theorem timesHandled_handOver (s : Lineage) (b : Batch) (o : Nat) :
    (s.handOver b).timesHandled o = s.timesHandled o + if 0 < tally o (s.share b) then 1 else 0 := by
  rw [timesHandled, handOver, List.countP_append, List.countP_singleton]
  exact congrArg _ (if_congr any_iff rfl rfl)

theorem ahead_handOver (s : Lineage) (b : Batch) : s.ahead.Perm (s.share b ++ (s.handOver b).ahead) :=
  ((List.filter_append_perm (·.key == b.key) s.held).symm.append_left s.underway).trans
    (List.perm_append_comm_assoc _ _ _)

theorem behind_handOver (s : Lineage) (b : Batch) : (s.handOver b).behind.Perm (s.share b ++ s.behind) := by
  unfold Lineage.behind handOver
  simp only [List.flatMap_append, List.flatMap_singleton, List.append_assoc]
  exact List.perm_append_comm_assoc _ _ _

theorem Balanced.handOver (balanced : s.Balanced) (b : Batch) : (s.handOver b).Balanced := by
  have before := s.ahead_handOver b
  have after := s.behind_handOver b
  have single (o : Nat) : tally o (s.share b) + tally o (s.handOver b).ahead + tally o s.behind ≤ 1 := by
    have single := balanced.single_le o
    rwa [tally_perm o before, tally_append] at single
  -- a call is counted for the copies that it has, and all others go back to other messages
  have held : ∀ c ∈ s.share b, s.Counts c 0 := fun c hc =>
    balanced.ahead c (before.mem_iff.mpr (List.mem_append_left _ hc))
  have counted : ∀ c, 0 < tally c.origin (s.share b) → ∀ n, s.Counts c n →
      (s.handOver b).Counts c (n + 1) :=
    fun c some n counts => counts.later rfl (by rw [timesHandled_handOver, if_pos some]; omega)
  have apart : ∀ c, tally c.origin (s.share b) = 0 → ∀ n, s.Counts c n → (s.handOver b).Counts c n :=
    fun c none n counts => counts.later rfl
      (by rw [timesHandled_handOver, if_neg (by omega), Nat.add_zero])
  refine ⟨fun o => ?_, fun c hc => ?_, fun c hc => ?_, fun c hc => ?_, ?_, balanced.returning,
    balanced.dropped, balanced.refused⟩
  · have sum := balanced.single o
    rw [tally_perm o before, tally_append] at sum
    rw [tally_perm o after, tally_append]
    exact (by omega : _ = _).trans sum
  · have here := tally_pos hc
    have single := single c.origin
    exact apart c (by omega) 0 (balanced.ahead c (before.mem_iff.mpr (List.mem_append_right _ hc)))
  · rcases List.mem_append.mp (after.mem_iff.mp hc) with mine | other
    · exact counted c (tally_pos mine) 0 (held c mine)
    · have here := tally_pos other
      have single := single c.origin
      exact apart c (by omega) 1 (balanced.behind c other)
  · rw [Lineage.handOver, List.flatMap_append, List.flatMap_singleton] at hc
    rcases List.mem_append.mp hc with old | mine
    · obtain ⟨n, counts⟩ := balanced.past c old
      rcases Nat.eq_zero_or_pos (tally c.origin (s.share b)) with none | some
      · exact ⟨n, apart c none (n + 1) counts⟩
      · exact ⟨n + 1, counted c some (n + 1) counts⟩
    · exact ⟨0, counted c (tally_pos mine) 0 (held c mine)⟩
  · rw [Lineage.handOver, List.flatMap_append, List.flatMap_singleton]
    refine List.nodup_append'.mpr ⟨balanced.once, Copy.nodup_of_tally fun o => ?_, fun c old mine => ?_⟩
    · have single := single o
      exact (by omega : tally o (s.share b) ≤ 1)
    · obtain ⟨n, counts⟩ := balanced.past c old
      cases counts.unique (held c mine)

theorem Balanced.handOverAll (balanced : s.Balanced) (bs : List Batch) :
    (bs.foldl Lineage.handOver s).Balanced :=
  List.foldlRecOn bs _ balanced fun _ balanced b _ => balanced.handOver b

/-- A message comes in that was not there before. -/
theorem Balanced.enter (balanced : s.Balanced) (m : Message) :
    Balanced { s with first := s.first ++ [m], held := s.held ++ [⟨s.first.length, m⟩] } := by
  have known : ∀ c n, s.Counts c n →
      Counts { s with first := s.first ++ [m], held := s.held ++ [⟨s.first.length, m⟩] } c n := by
    rintro c n ⟨m', sent, sum⟩
    exact ⟨m', (List.getElem?_append_left (List.getElem?_eq_some_iff.mp sent).1).trans sent, sum⟩
  -- no call has had a copy that goes back to it
  have none : s.timesHandled s.first.length = 0 := by
    refine List.countP_eq_zero.mpr fun call hcall any => ?_
    obtain ⟨c, hc, same⟩ := List.any_eq_true.mp any
    obtain ⟨n, m', sent, -⟩ := balanced.past c (List.mem_flatMap.mpr ⟨call, hcall, hc⟩)
    exact absurd (eq_of_beq same) (Nat.ne_of_lt (List.getElem?_eq_some_iff.mp sent).1)
  refine ⟨fun o => ?_, fun c hc => ?_, fun c hc => known c 1 (balanced.behind c hc),
    fun c hc => (balanced.past c hc).imp fun n => known c (n + 1), balanced.once, balanced.returning,
    balanced.dropped, balanced.refused⟩
  · have before := balanced.single o
    simp only [Lineage.ahead, tally_append, Copy.tally_singleton, List.length_append,
      List.length_singleton] at before ⊢
    change _ + tally o s.behind = _
    split at before <;> split <;> split <;> omega
  · rw [Lineage.ahead, ← List.append_assoc] at hc
    rcases List.mem_append.mp hc with old | new
    · exact known c 0 (balanced.ahead c old)
    · cases List.mem_singleton.mp new
      exact ⟨m, List.getElem?_concat_length, (congrArg (· + m.retries) none).trans (Nat.zero_add _)⟩

theorem Balanced.moved {s' : Lineage} (balanced : s.Balanced) (first : s'.first = s.first)
    (calls : s'.calls = s.calls) (ahead : s'.ahead.Perm s.ahead) (behind : s'.behind.Perm s.behind)
    (returning : ∀ c ∈ s'.returning, c ∈ s'.failed)
    (dropped : ∀ c ∈ s'.dropped, c ∈ s'.failed ∧ c.message.retries = 0)
    (refused : ∀ c ∈ s'.refused, c ∈ s'.failed ∧ 0 < c.message.retries) : s'.Balanced := by
  have counts : ∀ c n, s.Counts c n → s'.Counts c n := fun c n counts =>
    counts.later first (by rw [timesHandled, calls, timesHandled])
  exact {
    single o := by rw [tally_perm o ahead, tally_perm o behind, first, balanced.single o]
    ahead c hc := counts c 0 (balanced.ahead c (ahead.mem_iff.mp hc))
    behind c hc := counts c 1 (balanced.behind c (behind.mem_iff.mp hc))
    past c hc := (balanced.past c (calls ▸ hc)).imp fun n => counts c (n + 1)
    once := calls ▸ balanced.once
    returning
    dropped
    refused }

theorem failed_finish (s : Lineage) (n : Nat) (call : HandlerCall) (ok : Bool) :
    (s.finish n call ok).failed = s.failed ++ if ok then [] else call.copies := by
  cases ok <;> simp [failed, finish]

theorem behind_finish {n : Nat} (here : s.running[n]? = some call) (ok : Bool) :
    (s.finish n call ok).behind.Perm s.behind := by
  classical
  obtain ⟨bound, rfl⟩ := List.getElem?_eq_some_iff.mp here
  have running := (List.getElem_cons_eraseIdx_perm bound).flatMap_right (·.copies)
  refine List.perm_iff_count.mpr fun c => ?_
  have count := List.perm_iff_count.mp running c
  cases ok <;> simp [Lineage.behind, finish, Lineage.handled, lost] at count ⊢ <;> omega

theorem Balanced.finish {n : Nat} (balanced : s.Balanced) (here : s.running[n]? = some call) (ok : Bool) :
    (s.finish n call ok).Balanced := by
  have failed := s.failed_finish n call ok
  refine balanced.moved rfl rfl (List.Perm.refl _) (behind_finish here ok) (fun c hc => ?_)
    (fun c hc => ?_) (fun c hc => ?_)
  · rw [failed]
    cases ok with
    | true => exact List.mem_append_left _ (balanced.returning c hc)
    | false =>
      exact (List.mem_append.mp hc).elim (fun old => List.mem_append_left _ (balanced.returning c old))
        (List.mem_append_right _)
  · rw [failed]
    exact (balanced.dropped c hc).imp_left (List.mem_append_left _)
  · rw [failed]
    exact (balanced.refused c hc).imp_left (List.mem_append_left _)

theorem behind_eraseIdx {n : Nat} (here : s.returning[n]? = some c) :
    (c :: behind { s with returning := s.returning.eraseIdx n }).Perm s.behind := by
  obtain ⟨bound, rfl⟩ := List.getElem?_eq_some_iff.mp here
  have moved := List.getElem_cons_eraseIdx_perm bound
  unfold behind
  simp only [List.append_assoc]
  refine List.perm_middle.symm.trans (List.Perm.append_left _ ?_)
  refine List.perm_middle.symm.trans (List.Perm.append_left _ ?_)
  exact moved.append_right s.lost

theorem lost_dropped (s : Lineage) (c : Copy) :
    (lost { s with dropped := s.dropped ++ [c] }).Perm (c :: s.lost) := by
  unfold lost
  rw [List.append_assoc]
  exact List.perm_middle

theorem lost_refused (s : Lineage) (c : Copy) :
    (lost { s with refused := s.refused ++ [c] }).Perm (c :: s.lost) := by
  unfold lost
  rw [← List.append_assoc]
  exact List.perm_append_singleton c _

/-- What is sent again is behind no more, and has a retry less. -/
theorem Balanced.sendAgain {n : Nat} (balanced : s.Balanced) (here : s.returning[n]? = some c)
    (accepted : Bool) : (s.sendAgain n c accepted).Balanced := by
  have fails := balanced.returning c (List.mem_of_getElem? here)
  have others : ∀ c' ∈ s.returning.eraseIdx n, c' ∈ s.failed := fun c' hc' =>
    balanced.returning c' (List.mem_of_mem_eraseIdx hc')
  have moved := behind_eraseIdx here
  obtain ⟨m, sent, sum⟩ := balanced.behind c (moved.mem_iff.mp List.mem_cons_self)
  unfold Lineage.sendAgain
  dsimp only
  split
  · rename_i spent
    refine balanced.moved rfl rfl (List.Perm.refl _) (((lost_dropped _ c).append_left _).trans
      (List.perm_middle.trans moved)) others
      (List.forall_mem_append.mpr ⟨balanced.dropped, ?_⟩) balanced.refused
    exact List.forall_mem_singleton.mpr ⟨fails, Message.retries_of_dropped spent⟩
  rename_i m' again
  have less := Message.retries_of_again again
  split
  · refine ⟨fun o => ?_, List.forall_mem_append.mpr ⟨fun c' hc' => ?_, fun c' hc' => ?_⟩, fun c' hc' => ?_,
      balanced.past, balanced.once, others, balanced.dropped, balanced.refused⟩
    · have before := balanced.single o
      rw [← tally_perm o moved, ← List.singleton_append, tally_append] at before
      change _ + tally o (Lineage.behind { s with returning := s.returning.eraseIdx n }) = _
      simp only [Lineage.ahead, tally_append, Copy.tally_singleton] at before ⊢
      exact (by omega : _ = _).trans before
    · rcases List.mem_append.mp hc' with old | new
      · exact balanced.ahead c' (List.mem_append_left _ old)
      · cases List.mem_singleton.mp new
        exact ⟨m, sent, by change s.timesHandled c.origin + m'.retries = _; omega⟩
    · exact balanced.ahead c' (List.mem_append_right _ hc')
    · exact balanced.behind c' (moved.mem_iff.mp (List.mem_cons_of_mem _ hc'))
  · refine balanced.moved rfl rfl (List.Perm.refl _) (((lost_refused _ c).append_left _).trans
      (List.perm_middle.trans moved)) others
      balanced.dropped (List.forall_mem_append.mpr ⟨balanced.refused, ?_⟩)
    exact List.forall_mem_singleton.mpr ⟨fails, by omega⟩

theorem Balanced.arrive (balanced : Balanced { s with held := s.held ++ [c] }) : (s.arrive c).Balanced := by
  unfold Lineage.arrive
  refine Balanced.handOverAll ?_ _
  exact { balanced with }

theorem ahead_again {i : Nat} (here : s.underway[i]? = some c) :
    (ahead { s with underway := s.underway.eraseIdx i, held := s.held ++ [c] }).Perm s.ahead := by
  obtain ⟨bound, rfl⟩ := List.getElem?_eq_some_iff.mp here
  unfold ahead
  rw [← List.append_assoc]
  exact (List.perm_append_singleton _ _).trans
    ((List.getElem_cons_eraseIdx_perm bound).append_right s.held)

theorem Balanced.step (balanced : s.Balanced) (x : LineageStep) : (s.step x).Balanced := by
  cases x with
  | first m =>
    simp only [Lineage.step]
    split
    · exact (balanced.enter m).arrive
    · exact balanced
  | again i =>
    simp only [Lineage.step]
    split
    · exact balanced
    · rename_i c here
      split
      · refine Balanced.arrive ?_
        exact balanced.moved rfl rfl (ahead_again here) (List.Perm.refl _) balanced.returning
          balanced.dropped balanced.refused
      · exact balanced
  | tick =>
    simp only [Lineage.step]
    split
    · refine Balanced.handOverAll ?_ _
      exact { balanced with }
    · exact balanced
  | finish n ok =>
    simp only [Lineage.step]
    split
    · exact balanced
    · rename_i here
      exact balanced.finish here ok
  | giveBack n accepted =>
    simp only [Lineage.step]
    split
    · exact balanced
    · rename_i here
      exact balanced.sendAgain here accepted

end Lineage

end WorkflowEngine
