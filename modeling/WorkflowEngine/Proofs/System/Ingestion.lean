import Mathlib.Data.List.Dedup
import WorkflowEngine.Engine.ReadModel
import WorkflowEngine.Proofs.ReadModel.Dedup

/-!
Events that are written through the memory of those written last, with writes that may fail. Nothing is
lost: what a call that went well was given is in the log, or something of its identity. A call that failed
leaves no key behind. And as long as there is room for all identities nothing is written twice.
-/

namespace WorkflowEngine.Engine

variable {e : Engine} {m start : ReadModel} {written : List TaskEvent} {all : List String}

/-- A call to write events of a tenant, with the operations that fail at the time. -/
structure Submission where
  now : Instant
  tenant : TenantId
  events : List TaskEvent
  failing : List String := []

variable {s : Submission} {ss before after : List Submission}

def submit (e : Engine) (s : Submission) : Except Fault Nat × Engine :=
  { e with failing := s.failing }.writeEvents s.now s.tenant s.events

def submitAll (e : Engine) (ss : List Submission) : Engine := ss.foldl (fun e s => (e.submit s).2) e

/-- A call writes what the memory lets through and notes it, or it fails and nothing is noted. -/
theorem submit_cases (e : Engine) (s : Submission) (model : e.readModel = .sound m) :
    (∃ n, (e.submit s).1 = .ok n ∧
      (e.submit s).2.readModel = .sound (m.insertEvents s.now s.tenant (e.cache.unseen s.events).1) ∧
      (e.submit s).2.cache = (e.cache.unseen s.events).2.remember (e.cache.unseen s.events).1) ∨
    (∃ fault, (e.submit s).1 = .error fault) ∧ (e.submit s).2.readModel = .sound m ∧
      (e.submit s).2.cache = (e.cache.unseen s.events).2 := by
  unfold submit writeEvents
  simp only
  split
  · rename_i empty
    rw [List.isEmpty_iff.mp empty]
    refine Or.inl ⟨0, rfl, model.trans (congrArg _ ?_), rfl⟩
    simp [ReadModel.insertEvents]
  · by_cases fails : s.failing.contains ReadModelOp.insertEvents.name = true
    · simp only [writeModel, count, fails, if_true]
      exact Or.inr ⟨⟨_, rfl⟩, model, trivial⟩
    · simp only [writeModel, count, fails, model]
      exact Or.inl ⟨_, rfl, rfl, rfl⟩

/-- What has been written since the start, and that the memory knows of nothing else. -/
structure Logged (start : ReadModel) (written : List TaskEvent) (e : Engine) : Prop where
  model : ∃ m, e.readModel = .sound m ∧ m.events = start.events ++ written
  cached : ∀ key ∈ e.cache.keys, ∃ x ∈ written, x.dedupKey = key

/-- With room for all keys the memory has the keys of all that was written, and each was written once. -/
structure Spares (all : List String) (written : List TaskEvent) (e : Engine) : Prop where
  roomy : e.cache.Roomy all
  known : ∀ x ∈ written, x.dedupKey ∈ e.cache.keys
  distinct : (written.map (·.dedupKey)).Nodup

/-- Only events of the tenant that calls are given. -/
def Submission.Own (s : Submission) : Prop := ∀ x ∈ s.events, x.tenantId = s.tenant

instance (s : Submission) : Decidable s.Own := inferInstanceAs (Decidable (∀ x ∈ s.events, _))

theorem submit_logged (all : List String) (logged : Logged start written e) (own : s.Own) : ∃ more,
    Logged start (written ++ more) (e.submit s).2 ∧
    (∀ n, (e.submit s).1 = .ok n → ∀ x ∈ s.events, ∃ y ∈ written ++ more, y.dedupKey = x.dedupKey) ∧
    ((∀ x ∈ s.events, x.dedupKey ∈ all) → Spares all written e →
      Spares all (written ++ more) (e.submit s).2) := by
  obtain ⟨⟨m, model, log⟩, cached⟩ := logged
  have sifted := DedupCache.unseen_sifted e.cache [] s.events
  have apart := DedupCache.unseen_apart e.cache [] s.events
  change DedupCache.Sifted _ _ _ (e.cache.unseen s.events) at sifted
  change DedupCache.Apart _ _ (e.cache.unseen s.events) at apart
  have cases := submit_cases e s model
  generalize e.cache.unseen s.events = parts at sifted apart cases
  obtain ⟨fresh, cache⟩ := parts
  have still (roomy : e.cache.Roomy all) : cache.Roomy all :=
    ⟨apart.keys.nodup_iff.mpr roomy.nodup, fun _ h => roomy.within (apart.keys.subset h),
      apart.capacity.symm ▸ roomy.room⟩
  rcases cases with ⟨n, done, model', cache'⟩ | ⟨⟨fault, failed⟩, model', cache'⟩
  · refine ⟨fresh, ⟨⟨_, model', ?_⟩, ?_⟩, fun _ _ x hx => ?_, fun listed spares => ⟨?_, ?_, ?_⟩⟩
    · have whole : fresh.filter (·.tenantId == s.tenant) = fresh := by
        refine List.filter_eq_self.mpr fun x hx => ?_
        simpa using own x (sifted.fresh x hx)
      rw [ReadModel.insertEvents, whole, log, List.append_assoc]
    · rw [cache']
      intro key hkey
      rcases DedupCache.mem_remember hkey with old | ⟨x, hx, same⟩
      · obtain ⟨x, hx, same⟩ := cached key (sifted.keys key old)
        exact ⟨x, List.mem_append_left _ hx, same⟩
      · exact ⟨x, List.mem_append_right _ hx, same⟩
    · rcases sifted.known x hx with old | batch | ⟨y, hy, same⟩
      · obtain ⟨y, hy, same⟩ := cached _ old
        exact ⟨y, List.mem_append_left _ hy, same⟩
      · cases batch
      · exact ⟨y, List.mem_append_right _ hy, same⟩
    · rw [cache']
      exact ((still spares.roomy).remember fun x hx => listed x (sifted.fresh x hx)).1
    · rw [cache']
      intro x hx
      refine ((still spares.roomy).remember fun x hx => listed x (sifted.fresh x hx)).2 x ?_
      exact (List.mem_append.mp hx).imp_left fun old => apart.keys.symm.subset (spares.known x old)
    · rw [List.map_append]
      refine List.nodup_append.mpr ⟨spares.distinct, apart.distinct, ?_⟩
      rintro key old _ new rfl
      obtain ⟨x, hx, rfl⟩ := List.mem_map.mp old
      obtain ⟨y, hy, same⟩ := List.mem_map.mp new
      exact (apart.unknown y hy).1 (same ▸ spares.known x hx)
  · refine ⟨[], ⟨⟨m, model', by simpa using log⟩, ?_⟩, fun n done => ?_, fun _ spares => ⟨?_, ?_, ?_⟩⟩
    · rw [cache', List.append_nil]
      exact fun key hkey => cached key (sifted.keys key hkey)
    · rw [failed] at done
      cases done
    · exact cache' ▸ still spares.roomy
    · rw [cache', List.append_nil]
      exact fun x hx => apart.keys.symm.subset (spares.known x hx)
    · rw [List.append_nil]
      exact spares.distinct

theorem submitAll_logged (all : List String) (logged : Logged start written e)
    (own : ∀ s ∈ ss, s.Own) : ∃ more,
    Logged start (written ++ more) (e.submitAll ss) ∧
    (∀ before s after n, ss = before ++ s :: after → ((e.submitAll before).submit s).1 = .ok n →
      ∀ x ∈ s.events, ∃ y ∈ written ++ more, y.dedupKey = x.dedupKey) ∧
    ((∀ s ∈ ss, ∀ x ∈ s.events, x.dedupKey ∈ all) → Spares all written e →
      Spares all (written ++ more) (e.submitAll ss)) := by
  induction ss generalizing e written with
  | nil =>
    refine ⟨[], (List.append_nil written).symm ▸ logged, fun before s after n split => ?_, fun _ spares => ?_⟩
    · exact absurd (congrArg List.length split) (by simp)
    · exact (List.append_nil written).symm ▸ spares
  | cons s rest ih =>
    obtain ⟨first, others⟩ := List.forall_mem_cons.mp own
    obtain ⟨fresh, logged₁, written₁, spares₁⟩ := submit_logged all logged first
    obtain ⟨more, logged₂, written₂, spares₂⟩ := ih logged₁ others
    rw [List.append_assoc] at logged₂ written₂ spares₂
    refine ⟨fresh ++ more, logged₂, fun before s' after n split done x hx => ?_, fun listed spares => ?_⟩
    · cases before with
      | nil =>
        cases split
        obtain ⟨y, hy, same⟩ := written₁ n done x hx
        exact ⟨y, List.append_assoc _ _ _ ▸ List.mem_append_left more hy, same⟩
      | cons _ before =>
        cases split
        exact written₂ before s' after n rfl done x hx
    · obtain ⟨head, tail⟩ := List.forall_mem_cons.mp listed
      exact spares₂ tail (spares₁ head spares)

theorem submit_error {fault : Fault} (model : e.readModel = .sound m)
    (failed : (e.submit s).1 = .error fault) :
    ∀ key ∈ (e.submit s).2.cache.keys, key ∈ e.cache.keys := by
  rcases submit_cases e s model with ⟨n, done, _⟩ | ⟨_, _, cache⟩
  · rw [failed] at done
    cases done
  · rw [cache]
    exact (DedupCache.unseen_sifted e.cache [] s.events).keys

/-- For a memory of any capacity, empty at first, and whichever of the writes fail: of each event that a
call was given which went well one of its identity is in the log; a call that failed adds no key; and as
long as there are no more identities than there is room, no two entries written have one identity. -/
theorem ingestion_keeps_events {capacity : Nat} (empty : e.cache = .ofCapacity capacity)
    (readable : e.readModel = .sound m) (own : ∀ s ∈ ss, s.Own) :
    ∃ m' written, (e.submitAll ss).readModel = .sound m' ∧ m'.events = m.events ++ written ∧
      (∀ before s after n, ss = before ++ s :: after → ((e.submitAll before).submit s).1 = .ok n →
        ∀ x ∈ s.events, ∃ y ∈ written, y.identity = x.identity) ∧
      (∀ before s after fault, ss = before ++ s :: after →
        ((e.submitAll before).submit s).1 = .error fault →
          ∀ key ∈ ((e.submitAll before).submit s).2.cache.keys, key ∈ (e.submitAll before).cache.keys) ∧
      (((ss.flatMap (·.events)).map (·.identity)).dedup.length ≤ max capacity 1 →
        (written.map (·.identity)).Nodup) := by
  have start : Logged m [] e := by
    refine ⟨⟨m, readable, (List.append_nil _).symm⟩, ?_⟩
    rw [empty]
    exact List.forall_mem_nil _
  -- The keys of all identities, each once: there is room for them if there is room for the identities.
  let all := ((ss.flatMap (·.events)).map (·.identity)).dedup.map identityKey
  obtain ⟨written, logged, kept, spares⟩ := submitAll_logged all start own
  rw [List.nil_append] at logged kept spares
  obtain ⟨⟨m', readable', log⟩, _⟩ := logged
  refine ⟨m', written, readable', log, ?_, ?_, fun room => ?_⟩
  · intro before s after n split done x hx
    obtain ⟨y, hy, same⟩ := kept before s after n split done x hx
    exact ⟨y, hy, TaskEvent.identity_of_key same⟩
  · intro before s after fault split failed
    have ours : ∀ s ∈ before, s.Own := fun s hs => own s (split ▸ List.mem_append_left _ hs)
    obtain ⟨_, ⟨⟨m₁, readable₁, _⟩, _⟩, _⟩ := submitAll_logged [] start ours
    exact submit_error readable₁ failed
  · have listed : ∀ s ∈ ss, ∀ x ∈ s.events, x.dedupKey ∈ all := by
      intro s hs x hx
      refine List.mem_map.mpr ⟨x.identity, List.mem_dedup.mpr ?_, rfl⟩
      exact List.mem_map_of_mem (List.mem_flatMap.mpr ⟨s, hs, hx⟩)
    have roomy : Spares all [] e := by
      refine ⟨?_, List.forall_mem_nil _, .nil⟩
      rw [empty]
      exact ⟨.nil, List.nil_subset _, (List.length_map _).trans_le room⟩
    have distinct := (spares listed roomy).distinct
    have keys : written.map (·.dedupKey) = (written.map (·.identity)).map identityKey := by
      rw [List.map_map]
      rfl
    exact List.Nodup.of_map identityKey (keys ▸ distinct)

/-- A task starts, which is told twice, and ends, which cannot be written at first. -/
def startedEnded : List Submission :=
  let started : TaskEvent := { (default : TaskEvent) with taskId := 1, eventType := .started }
  let finished : TaskEvent := { (default : TaskEvent) with taskId := 1, eventType := .finished }
  [⟨.epoch, default, [started, started], []⟩,
    ⟨.epoch, default, [started, finished], ["insert_task_events"]⟩,
    ⟨.epoch, default, [finished, started], []⟩]

theorem startedEnded_written : ∃ m' written,
    ({ cache := .ofCapacity 2 : Engine }.submitAll startedEnded).readModel = .sound m' ∧
      m'.events = written ∧ (∃ y ∈ written, y.identity = (1, .finished, 0)) ∧
        (written.map (·.identity)).Nodup := by
  have own : ∀ s ∈ startedEnded, s.Own := by decide +kernel
  obtain ⟨m', written, readable, log, kept, _, distinct⟩ :=
    ingestion_keeps_events (e := { cache := .ofCapacity 2 }) rfl rfl own
  have done : ((submitAll { cache := .ofCapacity 2 } (startedEnded.take 2)).submit
      startedEnded[2]).1 = .ok 1 := by
    rfl
  refine ⟨m', written, readable, log, ?_, distinct (by decide +kernel)⟩
  exact kept (startedEnded.take 2) startedEnded[2] [] 1 rfl done _ List.mem_cons_self

end WorkflowEngine.Engine
