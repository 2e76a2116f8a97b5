import WorkflowEngine.Pool.Rehearsal
import WorkflowEngine.Proofs.Pool.Runs

/-!
A pool that follows a script takes the steps of a pool with its runs, and no others: whatever is asked of it
and however much time passes, its state is one that such steps lead to.
-/

namespace WorkflowEngine

namespace Pool

/-- Who looks for the order to stop in time does as the pool does. -/
theorem request_in_time (p : Pool) (t : TenantId) : p.unaware false (·.request t) = p.request t := by
  rw [request_unaware, request_eq]
  simp

theorem finish_in_time (p : Pool) (t : TenantId) (e : Ending) :
    p.unaware false (·.finish t e) = p.finish t e := by
  by_cases calm : e = .panicked
  · subst calm
    rfl
  · rw [finish_unaware calm, finish_eq calm]
    simp

end Pool

namespace Pooling

variable {s : Pooling} {t : TenantId} {n : Nat} {x : PoolRun} {rest : List PoolRun}

theorem perm_gone (here : s.runs[n]? = some x) (perm : s.runs.Perm (x :: rest)) :
    (s.runs.eraseIdx n).Perm rest :=
  ((perm_of_here here).trans perm).cons_inv

theorem perm_moved (here : s.runs[n]? = some x) (perm : s.runs.Perm (x :: rest)) (y : PoolRun) :
    (s.runs.set n y).Perm (y :: rest) :=
  (perm_of_moved here y).trans ((perm_gone here perm).cons y)

end Pooling

namespace Rehearsal

open Pooling

variable {r r' : Rehearsal} {s : Pooling} {t : TenantId} {i : Invocation}

def runs (r : Rehearsal) : List PoolRun :=
  r.starting.map (⟨·, .ready⟩) ++ r.active.map (⟨·.tenant, .invoked⟩)

/-- The pool of the rehearsal is this one, with the same runs. -/
structure Plays (r : Rehearsal) (s : Pooling) : Prop where
  pool : s.pool = r.pool
  runs : s.runs.Perm r.runs

/-- The pool gets there by steps. -/
def Leads (r : Rehearsal) (s : Pooling) : Prop := ∃ steps : List PoolingStep, r.Plays (s.run steps)

theorem Plays.leads (plays : r.Plays s) : r.Leads s := ⟨[], plays⟩

theorem Leads.step (x : PoolingStep) (leads : r.Leads (s.step x)) : r.Leads s := by
  obtain ⟨steps, plays⟩ := leads
  exact ⟨x :: steps, plays⟩

theorem Leads.trans (leads : r.Leads s) (more : ∀ s, r.Plays s → r'.Leads s) : r'.Leads s := by
  obtain ⟨steps, plays⟩ := leads
  obtain ⟨steps', plays'⟩ := more _ plays
  exact ⟨steps ++ steps', by rwa [Pooling.run, List.foldl_append]⟩

theorem plays_request (plays : r.Plays s) (t : TenantId) :
    (r.request t).2.Plays (s.step (.request t false)) := by
  obtain ⟨pool, runs⟩ := plays
  simp only [Pooling.step, Pool.request_in_time, pool, request]
  refine ⟨rfl, ?_⟩
  cases (r.pool.request t).1 with
  | false => exact runs
  | true =>
    simp only [if_true, Rehearsal.runs, List.map_append, List.map_cons, List.map_nil, List.append_assoc]
    refine (List.perm_append_singleton _ _).trans (.trans ?_ List.perm_middle.symm)
    exact runs.cons _

theorem plays_cancel (plays : r.Plays s) : r.cancel.Plays (s.step .cancel) :=
  ⟨congrArg Pool.cancel plays.pool, plays.runs⟩

/-- A run that is ready begins its invocation. -/
theorem leads_invoke (pool : s.pool = r.pool) (runs : s.runs.Perm (⟨t, .ready⟩ :: r.runs)) :
    (r.invoke t).Leads s := by
  obtain ⟨n, here⟩ := List.getElem?_of_mem (runs.symm.subset List.mem_cons_self)
  refine Leads.step (.invoke n) (Plays.leads ?_)
  simp only [Pooling.step, here]
  refine ⟨pool, (perm_moved here runs _).trans ?_⟩
  simp only [invoke, Rehearsal.runs, List.map_append, List.map_cons, List.map_nil, ← List.append_assoc]
  refine (List.perm_append_singleton _ _).symm.trans (.of_eq ?_)
  split <;> rfl

/-- A run whose invocation has ended goes on as the pool says. -/
theorem leads_proceed {e : Ending} (pool : s.pool = r.pool)
    (runs : s.runs.Perm (⟨t, .ended e⟩ :: r.runs)) :
    (if (r.pool.finish t e).1 then { r with pool := (r.pool.finish t e).2 }.invoke t
      else { r with pool := (r.pool.finish t e).2 }).Leads s := by
  obtain ⟨n, here⟩ := List.getElem?_of_mem (runs.symm.subset List.mem_cons_self)
  refine Leads.step (.proceed n false) ?_
  simp only [Pooling.step, here, Pool.finish_in_time, pool]
  split
  · exact leads_invoke rfl (perm_moved here runs _)
  · exact Plays.leads ⟨rfl, perm_gone here runs⟩

/-- An invocation ends. -/
theorem leads_finish {e : Ending} (pool : s.pool = r.pool)
    (runs : s.runs.Perm (⟨t, .invoked⟩ :: r.runs)) :
    (if (r.pool.finish t e).1 then { r with pool := (r.pool.finish t e).2 }.invoke t
      else { r with pool := (r.pool.finish t e).2 }).Leads s := by
  obtain ⟨n, here⟩ := List.getElem?_of_mem (runs.symm.subset List.mem_cons_self)
  refine Leads.step (.finish n e) ?_
  simp only [Pooling.step, here]
  exact leads_proceed pool (perm_moved here runs _)

theorem leads_conclude (plays : r.Plays s) (mem : i ∈ r.active) : (r.conclude i).Leads s := by
  obtain ⟨pool, runs⟩ := plays
  have split : s.runs.Perm (⟨i.tenant, .invoked⟩ :: Rehearsal.runs { r with active := r.active.erase i }) := by
    refine runs.trans (.trans (.append_left _ ((List.perm_cons_erase mem).map _)) ?_)
    exact List.perm_middle
  unfold conclude
  cases i.cue with
  | ending e => exact leads_finish pool split
  | cancels =>
    refine Leads.step .cancel ?_
    exact leads_finish (s := s.step .cancel) (e := .more)
      (r := { r with active := r.active.erase i, pool := r.pool.cancel }) (congrArg Pool.cancel pool) split

theorem due?_mem (due : r.due? = some i) : i ∈ r.active := by
  revert i
  unfold due?
  refine List.foldlRecOn (motive := fun best : Option Invocation => ∀ {i}, best = some i → i ∈ r.active)
    _ _ (by simp) fun best ih j listed i first => ?_
  have active : j ∈ r.active := (List.mem_filter.mp listed).1
  split at first
  · cases first
    exact active
  · split at first
    · cases first
      exact active
    · exact ih first

/-- Every run notices that the pool was cancelled. -/
theorem leads_abandon (plays : r.Plays s) (cancelled : r.pool.cancelled = true) : r.abandon.Leads s := by
  obtain ⟨timeout, script, now, pool, starting, active, calls⟩ := r
  induction active generalizing pool s with
  | nil => exact plays.leads
  | cons i rest ih =>
    have first := plays.runs.trans List.perm_middle
    obtain ⟨n, here⟩ := List.getElem?_of_mem (first.symm.subset List.mem_cons_self)
    refine Leads.step (.stop n) (ih (pool.release i.tenant) ?_ cancelled)
    simp only [Pooling.step, here]
    have stopped : s.pool.cancelled = true := plays.pool ▸ cancelled
    rw [if_pos stopped]
    exact ⟨congrArg (·.release i.tenant) plays.pool, perm_gone here first⟩

theorem leads_step (plays : r.Plays s) (next : r.step? = some r') : r'.Leads s := by
  unfold step? at next
  split at next
  · rename_i t rest starting
    cases next
    refine leads_invoke plays.pool (plays.runs.trans (.of_eq ?_))
    simp [Rehearsal.runs, starting]
  · split at next
    · rename_i i due
      cases next
      exact leads_conclude plays (due?_mem due)
    · split at next
      · rename_i all
        cases next
        exact leads_abandon plays (Bool.and_eq_true_iff.mp all).1
      · cases next

theorem leads_settle (plays : r.Plays s) : r.settle.Leads s := by
  unfold settle
  generalize r.bound = fuel
  induction fuel generalizing r s with
  | zero => exact plays.leads
  | succ fuel ih =>
    unfold settleWithin
    split
    · rename_i r' next
      exact (leads_step plays next).trans fun s plays => ih plays
    · exact plays.leads

theorem leads_runUntil (target fuel : Nat) (plays : r.Plays s) : (runUntil target fuel r).Leads s := by
  induction fuel generalizing r s with
  | zero => exact Plays.leads ⟨plays.pool, plays.runs⟩
  | succ fuel ih =>
    refine (leads_settle plays).trans fun s plays => ?_
    unfold runUntil
    dsimp only
    split
    · split
      · exact ih ⟨plays.pool, plays.runs⟩
      · exact Plays.leads ⟨plays.pool, plays.runs⟩
    · exact Plays.leads ⟨plays.pool, plays.runs⟩

theorem leads_advance (plays : r.Plays s) (millis : Nat) : (r.advance millis).Leads s :=
  (leads_runUntil _ _ plays).trans fun _ plays => leads_settle plays

theorem leads_shutdown (plays : r.Plays s) : r.shutdown.Leads s := by
  unfold shutdown
  generalize r.bound = fuel
  induction fuel generalizing r s with
  | zero => exact plays.leads
  | succ fuel ih =>
    refine (leads_settle plays).trans fun s plays => ?_
    unfold shutdownWithin
    dsimp only
    split
    · exact ih ⟨plays.pool, plays.runs⟩
    · exact plays.leads

/-- What can be asked of a rehearsal. -/
inductive Demand where
  | request (t : TenantId)
  | cancel
  | settle
  | advance (millis : Nat)
  | shutdown
  deriving DecidableEq, Repr

def obey (r : Rehearsal) : Demand → Rehearsal
  | .request t => (r.request t).2
  | .cancel => r.cancel
  | .settle => r.settle
  | .advance millis => r.advance millis
  | .shutdown => r.shutdown

theorem leads_obey (plays : r.Plays s) (d : Demand) : (r.obey d).Leads s := by
  cases d with
  | request t => exact Leads.step _ (plays_request plays t).leads
  | cancel => exact Leads.step _ (plays_cancel plays).leads
  | settle => exact leads_settle plays
  | advance millis => exact leads_advance plays millis
  | shutdown => exact leads_shutdown plays

/-- Whatever is asked of a rehearsal, its pool and runs are those that some steps lead to. -/
theorem leads_rehearsed (timeout : Nat) (script : List ScriptLine) (ds : List Demand) :
    (ds.foldl obey { timeout, script }).Leads {} :=
  List.foldlRecOn (motive := fun r : Rehearsal => r.Leads {}) ds obey
    (Plays.leads ⟨rfl, .refl _⟩) fun _ leads d _ => leads.trans fun _ plays => leads_obey plays d

/-- In a rehearsal no tenant ever has two runs. -/
theorem rehearsed_distinct (timeout : Nat) (script : List ScriptLine) (ds : List Demand) :
    ((ds.foldl obey { timeout, script }).runs.map (·.tenant)).Nodup := by
  obtain ⟨steps, plays⟩ := leads_rehearsed timeout script ds
  exact (plays.runs.map (·.tenant)).nodup_iff.mp (sound_empty.run steps).distinct

end Rehearsal

end WorkflowEngine
