import Mathlib.Data.List.Nodup
import Mathlib.Data.List.Perm.Basic
import Mathlib.Tactic.Tauto
import WorkflowEngine.Pool.State

/-!
The runs of a pool. Requests, invocations that begin and end, and the order to stop come in any order, and
what a run does between two invocations is a step of its own. A tenant is taken to have a run in flight just
as long as it has one, unless an invocation has panicked: from then on it is taken to have one for ever.
-/

namespace WorkflowEngine

namespace Pool

variable {p : Pool} {t u : TenantId} {b : Bool}

/-- Notes whether the run of a tenant is to go once more. -/
def note (p : Pool) (t : TenantId) (again : Bool) : Pool :=
  { p with inFlight := p.inFlight.map fun e => if e.1 == t then (t, again) else e }

def enter (p : Pool) (t : TenantId) : Pool :=
  { p with inFlight := p.inFlight ++ [(t, false)], live := p.live ++ [t] }

def lose (p : Pool) (t : TenantId) : Pool := { p with live := p.live.filter (· != t) }

theorem request_eq (p : Pool) (t : TenantId) : p.request t =
    if p.cancelled then (false, p)
    else if p.isRunning t then (false, p.note t true) else (true, p.enter t) := rfl

theorem finish_eq {e : Ending} (calm : e ≠ .panicked) (p : Pool) (t : TenantId) : p.finish t e =
    if p.cancelled then (false, p.release t)
    else if e = .more then (true, p)
    else if p.again t then (true, p.note t false) else (false, p.release t) := by
  cases e with
  | panicked => exact absurd rfl calm
  | more | done | failed | timedOut => rfl

@[simp] theorem isRunning_note : (p.note t b).isRunning u = p.isRunning u := by
  simp only [isRunning, note, List.any_map]
  refine congrArg (List.any p.inFlight) (funext fun e => ?_)
  by_cases mine : e.1 = t <;> simp [mine]

theorem again_note : (p.note t b).again u = if u = t then p.isRunning t && b else p.again u := by
  simp only [again, isRunning, note, List.any_map]
  split
  · rename_i same
    subst same
    have noted : ((fun e => e.1 == u && e.2) ∘ fun e => if e.1 == u then (u, b) else e) =
        fun e : TenantId × Bool => e.1 == u && b := by
      funext e
      by_cases mine : e.1 = u <;> simp [mine, beq_false_of_ne]
    rw [noted]
    cases b <;> simp
  · rename_i other
    refine congrArg (List.any p.inFlight) (funext fun e => ?_)
    by_cases mine : e.1 = t <;> simp [mine, beq_false_of_ne (Ne.symm other)]

@[simp] theorem isRunning_enter : (p.enter t).isRunning u = (p.isRunning u || u == t) := by
  simp [isRunning, enter, BEq.comm]

@[simp] theorem again_enter : (p.enter t).again u = p.again u := by
  simp [again, enter]

/-- What is said of the runs of one tenant is said of those that stay. -/
theorem any_release {f : TenantId × Bool → Bool} (own : ∀ e, f e = true → e.1 = u) :
    (p.release t).inFlight.any f = (p.inFlight.any f && u != t) := by
  rw [release, List.any_filter]
  by_cases same : u = t
  · have none (e : TenantId × Bool) : (e.1 != t && f e) = false := by
      cases mine : f e <;> simp [bne, same ▸ own e, mine]
    simp [none, same]
  · have all (e : TenantId × Bool) : (e.1 != t && f e) = f e := by
      cases mine : f e
      · simp
      · simpa [own e mine] using same
    simp [all, same]

@[simp] theorem isRunning_release : (p.release t).isRunning u = (p.isRunning u && u != t) :=
  any_release fun _ mine => beq_iff_eq.mp mine

@[simp] theorem again_release : (p.release t).again u = (p.again u && u != t) :=
  any_release fun _ mine => beq_iff_eq.mp (Bool.and_eq_true_iff.mp mine).1

@[simp] theorem isRunning_lose : (p.lose t).isRunning u = p.isRunning u := rfl

@[simp] theorem again_lose : (p.lose t).again u = p.again u := rfl

/-- What is done by one who may have looked for the order to stop before it came. -/
def unaware (p : Pool) (early : Bool) (act : Pool → Bool × Pool) : Bool × Pool :=
  let (answer, q) := act { p with cancelled := p.cancelled && !early }
  (answer, { q with cancelled := p.cancelled })

theorem request_unaware (p : Pool) (early : Bool) (t : TenantId) : p.unaware early (·.request t) =
    if p.cancelled && !early then (false, p)
    else if p.isRunning t then (false, p.note t true) else (true, p.enter t) := by
  have same : Pool.isRunning { p with cancelled := p.cancelled && !early } t = p.isRunning t := rfl
  simp only [unaware, request_eq, same]
  cases p.cancelled && !early <;> cases p.isRunning t <;> rfl

theorem finish_unaware {e : Ending} (calm : e ≠ .panicked) (p : Pool) (early : Bool) (t : TenantId) :
    p.unaware early (·.finish t e) =
      if p.cancelled && !early then (false, p.release t)
      else if e = .more then (true, p)
      else if p.again t then (true, p.note t false) else (false, p.release t) := by
  have same : Pool.again { p with cancelled := p.cancelled && !early } t = p.again t := rfl
  simp only [unaware, finish_eq calm, same]
  cases p.cancelled && !early <;> by_cases more : e = .more <;> cases p.again t <;> simp [more] <;> rfl

theorem finish_panicked_unaware (p : Pool) (early : Bool) (t : TenantId) :
    p.unaware early (·.finish t .panicked) = (false, p.lose t) := rfl

end Pool

/-! ### Runs and what happens to them -/

/-- How far a run is. -/
inductive RunPhase where
  /-- The operation is about to be invoked. -/
  | ready
  | invoked
  | ended (e : Ending)
  deriving DecidableEq, Repr

structure PoolRun where
  tenant : TenantId
  phase : RunPhase
  deriving DecidableEq, Repr

/-- Why a run goes on. -/
inductive Renewal where
  /-- There was more to do. -/
  | unfinished
  /-- It was asked to go once more. -/
  | asked
  deriving DecidableEq, Repr

inductive PoolEvent where
  | requested (t : TenantId) (started : Bool)
  | began (t : TenantId)
  | ended (t : TenantId) (e : Ending)
  | renewed (t : TenantId) (why : Renewal)
  /-- The run is over. -/
  | closed (t : TenantId)
  deriving DecidableEq, Repr

/-- A pool, the runs that are alive, and what has happened, the latest first. -/
structure Pooling where
  pool : Pool := {}
  runs : List PoolRun := []
  log : List PoolEvent := []
  deriving DecidableEq, Repr

/-- A step of a caller, of one of the runs, or of who cancels the pool. A caller or a run that looks for the
order to stop may have done so early. -/
inductive PoolingStep where
  | request (t : TenantId) (early : Bool)
  | invoke (n : Nat)
  | finish (n : Nat) (e : Ending)
  | proceed (n : Nat) (early : Bool)
  | cancel
  /-- A run that waits notices that the pool was cancelled. -/
  | stop (n : Nat)
  deriving DecidableEq, Repr

namespace Pooling

/-- Does a step, if it is one that can be done now. -/
def step (s : Pooling) : PoolingStep → Pooling
  | .request t early =>
    let (started, pool) := s.pool.unaware early (·.request t)
    { pool
      runs := if started then s.runs ++ [⟨t, .ready⟩] else s.runs
      log := .requested t started :: s.log }
  | .invoke n =>
    match s.runs[n]? with
    | some ⟨t, .ready⟩ => { s with runs := s.runs.set n ⟨t, .invoked⟩, log := .began t :: s.log }
    | _ => s
  | .finish n e =>
    match s.runs[n]? with
    | some ⟨t, .invoked⟩ => { s with runs := s.runs.set n ⟨t, .ended e⟩, log := .ended t e :: s.log }
    | _ => s
  | .proceed n early =>
    match s.runs[n]? with
    | some ⟨t, .ended e⟩ =>
      let (again, pool) := s.pool.unaware early (·.finish t e)
      if again then
        { pool
          runs := s.runs.set n ⟨t, .ready⟩
          log := .renewed t (if e = .more then .unfinished else .asked) :: s.log }
      else { pool, runs := s.runs.eraseIdx n, log := .closed t :: s.log }
    | _ => s
  | .cancel => { s with pool := s.pool.cancel }
  | .stop n =>
    match s.runs[n]? with
    | some ⟨_, .ended _⟩ | none => s
    | some ⟨t, _⟩ =>
      if s.pool.cancelled then
        { pool := s.pool.release t, runs := s.runs.eraseIdx n, log := .closed t :: s.log }
      else s

def run (s : Pooling) (steps : List PoolingStep) : Pooling := steps.foldl step s

variable {s s' : Pooling} {t : TenantId} {n : Nat} {e : Ending} {x : PoolRun} {phase : RunPhase}

/-- What a step can come to. -/
inductive Turn (s : Pooling) : Pooling → Prop where
  | still : Turn s s
  | cancelled : Turn s { s with pool := s.pool.cancel }
  | refused (t : TenantId) (stopped : s.pool.cancelled = true) :
      Turn s { s with log := .requested t false :: s.log }
  | reminded (t : TenantId) (running : s.pool.isRunning t = true) :
      Turn s { s with pool := s.pool.note t true, log := .requested t false :: s.log }
  | started (t : TenantId) (idle : s.pool.isRunning t = false) :
      Turn s
        { pool := s.pool.enter t, runs := s.runs ++ [⟨t, .ready⟩], log := .requested t true :: s.log }
  | began (t : TenantId) (n : Nat) (here : s.runs[n]? = some ⟨t, .ready⟩) :
      Turn s { s with runs := s.runs.set n ⟨t, .invoked⟩, log := .began t :: s.log }
  | ended (t : TenantId) (e : Ending) (n : Nat) (here : s.runs[n]? = some ⟨t, .invoked⟩) :
      Turn s { s with runs := s.runs.set n ⟨t, .ended e⟩, log := .ended t e :: s.log }
  | unfinished (t : TenantId) (n : Nat) (here : s.runs[n]? = some ⟨t, .ended .more⟩) :
      Turn s { s with runs := s.runs.set n ⟨t, .ready⟩, log := .renewed t .unfinished :: s.log }
  | asked (t : TenantId) (e : Ending) (n : Nat) (here : s.runs[n]? = some ⟨t, .ended e⟩)
      (calm : e ≠ .panicked) (again : s.pool.again t = true) :
      Turn s
        { pool := s.pool.note t false
          runs := s.runs.set n ⟨t, .ready⟩
          log := .renewed t .asked :: s.log }
  | satisfied (t : TenantId) (e : Ending) (n : Nat) (here : s.runs[n]? = some ⟨t, .ended e⟩)
      (calm : e ≠ .panicked) (none : s.pool.again t = false) :
      Turn s { pool := s.pool.release t, runs := s.runs.eraseIdx n, log := .closed t :: s.log }
  | stopped (t : TenantId) (phase : RunPhase) (n : Nat) (here : s.runs[n]? = some ⟨t, phase⟩)
      (calm : phase ≠ .ended .panicked) (stopped : s.pool.cancelled = true) :
      Turn s { pool := s.pool.release t, runs := s.runs.eraseIdx n, log := .closed t :: s.log }
  | lost (t : TenantId) (n : Nat) (here : s.runs[n]? = some ⟨t, .ended .panicked⟩) :
      Turn s { pool := s.pool.lose t, runs := s.runs.eraseIdx n, log := .closed t :: s.log }

theorem turn_request (s : Pooling) (t : TenantId) (early : Bool) : Turn s (s.step (.request t early)) := by
  simp only [step, Pool.request_unaware]
  split
  · rename_i stopped
    exact .refused t (Bool.and_eq_true_iff.mp stopped).1
  · split
    · rename_i running
      exact .reminded t running
    · rename_i idle
      exact .started t (Bool.eq_false_iff.mpr idle)

theorem turn_proceed (s : Pooling) (n : Nat) (early : Bool) : Turn s (s.step (.proceed n early)) := by
  simp only [step]
  split
  · rename_i t e here
    by_cases calm : e = .panicked
    · subst calm
      rw [Pool.finish_panicked_unaware]
      exact .lost t n here
    · rw [Pool.finish_unaware calm]
      by_cases stopped : (s.pool.cancelled && !early) = true
      · rw [if_pos stopped]
        refine .stopped t _ n here (fun h => calm (RunPhase.ended.inj h)) ?_
        exact (Bool.and_eq_true_iff.mp stopped).1
      · rw [if_neg stopped]
        by_cases more : e = .more
        · subst more
          exact .unfinished t n here
        · simp only [more, if_false]
          cases again : s.pool.again t with
          | true => exact .asked t e n here calm again
          | false => exact .satisfied t e n here calm again
  · exact .still

theorem step_turn (s : Pooling) (x : PoolingStep) : Turn s (s.step x) := by
  cases x with
  | request t early => exact turn_request s t early
  | proceed n early => exact turn_proceed s n early
  | cancel => exact .cancelled
  | invoke n =>
    simp only [step]
    split
    · rename_i t here
      exact .began t n here
    · exact .still
  | finish n e =>
    simp only [step]
    split
    · rename_i t here
      exact .ended t e n here
    · exact .still
  | stop n =>
    simp only [step]
    split
    · exact .still
    · exact .still
    · rename_i t phase waits here
      split
      · rename_i stopped
        exact .stopped t phase n here (waits .panicked) stopped
      · exact .still

/-! ### Where the runs are -/

section

variable {runs : List PoolRun} {now next : RunPhase} {u : TenantId}

theorem perm_of_here (here : runs[n]? = some x) : (x :: runs.eraseIdx n).Perm runs := by
  obtain ⟨bound, rfl⟩ := List.getElem?_eq_some_iff.mp here
  exact List.getElem_cons_eraseIdx_perm bound

theorem perm_of_moved (here : runs[n]? = some x) (y : PoolRun) :
    (runs.set n y).Perm (y :: runs.eraseIdx n) := by
  obtain ⟨bound, -⟩ := List.getElem?_eq_some_iff.mp here
  exact List.set_perm_cons_eraseIdx bound y

theorem mem_gone (distinct : (runs.map (·.tenant)).Nodup) (here : runs[n]? = some ⟨t, now⟩) :
    ⟨u, phase⟩ ∈ runs.eraseIdx n ↔ u ≠ t ∧ ⟨u, phase⟩ ∈ runs := by
  have perm := perm_of_here here
  have alone : t ∉ (runs.eraseIdx n).map (·.tenant) :=
    (List.nodup_cons.mp ((perm.map (·.tenant)).nodup_iff.mpr distinct)).1
  rw [← perm.mem_iff, List.mem_cons]
  constructor
  · intro stays
    exact ⟨fun same => alone (same ▸ List.mem_map_of_mem stays), .inr stays⟩
  · rintro ⟨other, same | stays⟩
    · exact absurd (PoolRun.mk.inj same).1 other
    · exact stays

theorem mem_moved (distinct : (runs.map (·.tenant)).Nodup) (here : runs[n]? = some ⟨t, now⟩) :
    ⟨u, phase⟩ ∈ runs.set n ⟨t, next⟩ ↔ if u = t then phase = next else ⟨u, phase⟩ ∈ runs := by
  rw [(perm_of_moved here _).mem_iff, List.mem_cons, mem_gone distinct here, PoolRun.mk.injEq]
  split <;> simp [*]

theorem distinct_gone (distinct : (runs.map (·.tenant)).Nodup) (n : Nat) :
    ((runs.eraseIdx n).map (·.tenant)).Nodup :=
  distinct.sublist ((List.eraseIdx_sublist runs n).map (·.tenant))

theorem distinct_moved (distinct : (runs.map (·.tenant)).Nodup) (here : runs[n]? = some ⟨t, now⟩) :
    ((runs.set n ⟨t, next⟩).map (·.tenant)).Nodup := by
  rw [((perm_of_moved here _).map (·.tenant)).nodup_iff]
  exact ((perm_of_here here).map (·.tenant)).nodup_iff.mpr distinct

end

/-- A run for the tenant is alive. -/
def Alive (s : Pooling) (t : TenantId) : Prop := ∃ phase, ⟨t, phase⟩ ∈ s.runs

/-- An invocation for the tenant has panicked. -/
def Panicked (s : Pooling) (t : TenantId) : Prop := .ended t .panicked ∈ s.log

structure Sound (s : Pooling) : Prop where
  distinct : (s.runs.map (·.tenant)).Nodup
  running (t : TenantId) : s.pool.isRunning t = true ↔ s.Alive t ∨ s.Panicked t
  live (t : TenantId) : t ∈ s.pool.live ↔ s.Alive t
  told (t : TenantId) (e : Ending) : ⟨t, .ended e⟩ ∈ s.runs → .ended t e ∈ s.log
  doomed (t : TenantId) (phase : RunPhase) :
    s.Panicked t → ⟨t, phase⟩ ∈ s.runs → phase = .ended .panicked

theorem sound_empty : Sound {} where
  distinct := List.nodup_nil
  running t := by simp [Pool.isRunning, Alive, Panicked]
  live t := by simp [Alive]
  told t e mem := absurd mem List.not_mem_nil
  doomed t phase panicked := absurd panicked List.not_mem_nil

section

variable {now next : RunPhase} {pool : Pool} {event : PoolEvent} {log : List PoolEvent} {u : TenantId}

theorem alive_moved (distinct : (s.runs.map (·.tenant)).Nodup) (here : s.runs[n]? = some ⟨t, now⟩) :
    Alive { pool, runs := s.runs.set n ⟨t, next⟩, log } u ↔ s.Alive u := by
  simp only [Alive, mem_moved distinct here]
  split
  · rename_i same
    subst same
    exact iff_of_true ⟨next, rfl⟩ ⟨now, List.mem_of_getElem? here⟩
  · exact Iff.rfl

theorem alive_gone (distinct : (s.runs.map (·.tenant)).Nodup) (here : s.runs[n]? = some ⟨t, now⟩) :
    Alive { pool, runs := s.runs.eraseIdx n, log } u ↔ u ≠ t ∧ s.Alive u := by
  simp only [Alive, mem_gone distinct here, exists_and_left]

theorem alive_new : Alive { pool, runs := s.runs ++ [⟨t, next⟩], log } u ↔ s.Alive u ∨ u = t := by
  simp [Alive, exists_or]

/-- Nobody starts, nobody stops and no invocation ends. -/
theorem Sound.aside (sound : s.Sound)
    (running : ∀ u, pool.isRunning u = s.pool.isRunning u) (live : pool.live = s.pool.live)
    (same : ∀ u e, .ended u e ∈ log ↔ .ended u e ∈ s.log) : Sound { s with pool, log } where
  distinct := sound.distinct
  running u := by rw [running, sound.running]; exact or_congr_right (same u .panicked).symm
  live u := by rw [live]; exact sound.live u
  told u e mem := (same u e).mpr (sound.told u e mem)
  doomed u phase panicked := sound.doomed u phase ((same u .panicked).mp panicked)

/-- The run of a tenant goes on. -/
theorem Sound.moved (sound : s.Sound) (here : s.runs[n]? = some ⟨t, now⟩)
    (calm : now ≠ .ended .panicked) (running : ∀ u, pool.isRunning u = s.pool.isRunning u)
    (live : pool.live = s.pool.live) (tells : ∀ u e, event = .ended u e ↔ u = t ∧ next = .ended e) :
    Sound { pool, runs := s.runs.set n ⟨t, next⟩, log := event :: s.log } where
  distinct := distinct_moved sound.distinct here
  running u := by
    have told : .ended u .panicked ∈ event :: s.log ↔
        (u = t ∧ next = .ended .panicked) ∨ s.Panicked u := by
      rw [List.mem_cons, eq_comm, tells]
      rfl
    have alive : u = t → s.Alive u := fun same => ⟨now, same ▸ List.mem_of_getElem? here⟩
    rw [running, sound.running, alive_moved sound.distinct here, Panicked, Panicked, told]
    tauto
  live u := by
    rw [live, sound.live]
    exact (alive_moved sound.distinct here).symm
  told u e mem := by
    rw [mem_moved sound.distinct here] at mem
    split at mem
    · rename_i same
      rw [(tells u e).mpr ⟨same, mem.symm⟩]
      exact List.mem_cons_self
    · exact List.mem_cons_of_mem _ (sound.told u e mem)
  doomed u phase panicked mem := by
    rw [mem_moved sound.distinct here] at mem
    obtain now | before := List.mem_cons.mp panicked
    · obtain ⟨same, ended⟩ := (tells u .panicked).mp now.symm
      rwa [if_pos same, ended] at mem
    · split at mem
      · rename_i same
        subst same
        exact absurd (sound.doomed u _ before (List.mem_of_getElem? here)) calm
      · exact sound.doomed u phase before mem

/-- The run of a tenant is over. -/
theorem Sound.gone (sound : s.Sound) (here : s.runs[n]? = some ⟨t, now⟩)
    (running : ∀ u, pool.isRunning u = true ↔
      s.pool.isRunning u = true ∧ (u = t → now = .ended .panicked))
    (live : ∀ u, u ∈ pool.live ↔ u ∈ s.pool.live ∧ u ≠ t) :
    Sound { pool, runs := s.runs.eraseIdx n, log := .closed t :: s.log } where
  distinct := distinct_gone sound.distinct n
  running u := by
    have told : Panicked { pool, runs := s.runs.eraseIdx n, log := .closed t :: s.log } u ↔
        s.Panicked u := by
      simp [Panicked]
    have doom : s.Panicked t ↔ now = .ended .panicked := by
      refine ⟨fun panicked => sound.doomed t now panicked (List.mem_of_getElem? here), ?_⟩
      rintro rfl
      exact sound.told t .panicked (List.mem_of_getElem? here)
    rw [running, sound.running, alive_gone sound.distinct here, told, ← doom]
    by_cases same : u = t
    · subst same
      tauto
    · tauto
  live u := by
    rw [live, sound.live, and_comm]
    exact (alive_gone sound.distinct here).symm
  told u e mem := List.mem_cons_of_mem _ (sound.told u e ((mem_gone sound.distinct here).mp mem).2)
  doomed u phase panicked mem :=
    sound.doomed u phase (by simpa [Panicked] using panicked) ((mem_gone sound.distinct here).mp mem).2

theorem Sound.new (sound : s.Sound) (idle : s.pool.isRunning t = false) :
    Sound
      { pool := s.pool.enter t
        runs := s.runs ++ [⟨t, .ready⟩]
        log := .requested t true :: s.log } := by
  have rest : ¬ (s.Alive t ∨ s.Panicked t) := fun busy =>
    Bool.false_ne_true (idle.symm.trans ((sound.running t).mpr busy))
  have told (u : TenantId) (e : Ending) :
      .ended u e ∈ .requested t true :: s.log ↔ .ended u e ∈ s.log := by simp
  refine ⟨?_, fun u => ?_, fun u => ?_, fun u e mem => (told u e).mpr ?_, fun u phase panicked mem => ?_⟩
  · rw [List.map_append]
    refine List.Nodup.append sound.distinct (List.nodup_singleton t) (List.disjoint_singleton.mpr fun there => ?_)
    obtain ⟨x, mem, rfl⟩ := List.mem_map.mp there
    exact rest (.inl ⟨x.phase, mem⟩)
  · rw [Pool.isRunning_enter, Bool.or_eq_true, sound.running, alive_new, Panicked, Panicked, told]
    rw [beq_iff_eq, or_right_comm]
  · rw [alive_new, ← sound.live]
    simp [Pool.enter]
  · obtain old | new := List.mem_append.mp mem
    · exact sound.told u e old
    · cases List.mem_singleton.mp new
  · have before : s.Panicked u := (told u .panicked).mp panicked
    obtain old | new := List.mem_append.mp mem
    · exact sound.doomed u phase before old
    · cases List.mem_singleton.mp new
      exact absurd (.inr before) rest

end

theorem Sound.released (sound : s.Sound) (here : s.runs[n]? = some ⟨t, phase⟩)
    (calm : phase ≠ .ended .panicked) :
    Sound { pool := s.pool.release t, runs := s.runs.eraseIdx n, log := .closed t :: s.log } := by
  refine sound.gone here (fun u => ?_) fun u => ?_
  · rw [Pool.isRunning_release, Bool.and_eq_true, bne_iff_ne]
    exact and_congr_right fun _ => ⟨fun other same => absurd same other, fun doom same => calm (doom same)⟩
  · simp [Pool.release]

theorem Sound.turn (sound : s.Sound) (turn : Turn s s') : s'.Sound := by
  cases turn with
  | still => exact sound
  | cancelled => exact sound.aside (fun _ => rfl) rfl fun _ _ => Iff.rfl
  | refused t stopped => exact sound.aside (fun _ => rfl) rfl fun _ _ => by simp
  | reminded t running => exact sound.aside (fun _ => Pool.isRunning_note) rfl fun _ _ => by simp
  | started t idle => exact sound.new idle
  | began t n here => exact sound.moved here (by simp) (fun _ => rfl) rfl fun _ _ => by simp
  | ended t e n here =>
    exact sound.moved here (by simp) (fun _ => rfl) rfl fun _ _ => by simp [eq_comm]
  | unfinished t n here => exact sound.moved here (by simp) (fun _ => rfl) rfl fun _ _ => by simp
  | asked t e n here calm again =>
    exact sound.moved here (calm ∘ RunPhase.ended.inj) (fun _ => Pool.isRunning_note) rfl fun _ _ => by simp
  | satisfied t e n here calm none => exact sound.released here (calm ∘ RunPhase.ended.inj)
  | stopped t phase n here calm stopped => exact sound.released here calm
  | lost t n here => exact sound.gone here (fun u => by simp) fun u => by simp [Pool.lose]

theorem Sound.run (sound : s.Sound) (steps : List PoolingStep) : (s.run steps).Sound :=
  List.foldlRecOn steps step sound fun s sound x _ => sound.turn (step_turn s x)

theorem Turn.log_suffix (turn : Turn s s') : s.log <:+ s'.log := by
  cases turn with
  | still | cancelled => exact List.suffix_rfl
  | _ => exact List.suffix_cons _ _

/-- A run is only ever started for a tenant that has none in flight. -/
theorem Turn.alive (turn : Turn s s') (sound : s.Sound) (alive : s'.Alive t) :
    s.Alive t ∨ s.pool.isRunning t = false := by
  cases turn with
  | still | cancelled | refused | reminded => exact .inl alive
  | began u n here | ended u e n here | unfinished u n here | asked u e n here =>
    exact .inl ((alive_moved sound.distinct here).mp alive)
  | satisfied u e n here | stopped u phase n here | lost u n here =>
    exact .inl ((alive_gone sound.distinct here).mp alive).2
  | started u idle =>
    obtain old | rfl := alive_new.mp alive
    · exact .inl old
    · exact .inr idle

/-- Once the run of a tenant has ended in a panic there is no other, whatever happens. -/
theorem Sound.wedged (sound : s.Sound) (panicked : s.Panicked t) (absent : ¬ s.Alive t)
    (steps : List PoolingStep) : (s.run steps).Panicked t ∧ ¬ (s.run steps).Alive t := by
  have kept : (s.run steps).Sound ∧ (s.run steps).Panicked t ∧ ¬ (s.run steps).Alive t := by
    refine List.foldlRecOn (motive := fun s => s.Sound ∧ s.Panicked t ∧ ¬ s.Alive t) steps step
      ⟨sound, panicked, absent⟩ ?_
    rintro s ⟨sound, panicked, absent⟩ x -
    have turn := step_turn s x
    refine ⟨sound.turn turn, turn.log_suffix.subset panicked, fun alive => ?_⟩
    obtain alive | idle := turn.alive sound alive
    · exact absent alive
    · exact Bool.false_ne_true (idle.symm.trans ((sound.running t).mpr (.inr panicked)))
  exact kept.2

/-- A tenant is taken to have a run in flight just when a run of it is alive or an invocation for it has
panicked. So on a pool that goes on, a tenant without a run can be started, unless an invocation for it has
panicked: then it can never be started again. -/
theorem isRunning_iff_alive_or_panicked (steps : List PoolingStep) (t : TenantId) :
    let s := Pooling.run {} steps
    (s.pool.isRunning t = true ↔ s.Alive t ∨ s.Panicked t) ∧
      (t ∈ s.pool.live ↔ s.Alive t) ∧
      (s.pool.cancelled = false → ¬ s.Alive t → ¬ s.Panicked t →
        (s.pool.request t).1 = true ∧ (s.step (.request t false)).Alive t) ∧
      (s.Panicked t → ¬ s.Alive t → ∀ more,
        ¬ (s.run more).Alive t ∧ ((s.run more).pool.request t).1 = false) := by
  have sound := sound_empty.run steps
  refine ⟨sound.running t, sound.live t, fun goes absent calm => ?_, fun panicked absent more => ?_⟩
  · have idle : (Pooling.run {} steps).pool.isRunning t = false :=
      Bool.eq_false_iff.mpr fun running => ((sound.running t).mp running).elim absent calm
    have started : ((Pooling.run {} steps).pool.request t).1 = true := by
      simp [Pool.request_eq, goes, idle]
    refine ⟨started, ?_⟩
    simp [step, Pool.request_unaware, goes, idle, Alive]
  · obtain ⟨still, never⟩ := sound.wedged panicked absent more
    have running := ((sound.run more).running t).mpr (.inr still)
    refine ⟨never, ?_⟩
    rw [Pool.request_eq, running]
    split <;> rfl

/-- The one invocation for a tenant panics. -/
def panicOf (t : TenantId) : List PoolingStep :=
  [.request t false, .invoke 0, .finish 0 .panicked, .proceed 0 false]

theorem panicOf_wedges :
    (run {} (panicOf ⟨1⟩)).pool.isRunning ⟨1⟩ = true ∧ ¬ (run {} (panicOf ⟨1⟩)).Alive ⟨1⟩ ∧
      (∀ more, (((run {} (panicOf ⟨1⟩)).run more).pool.request ⟨1⟩).1 = false) ∧
      ((run {} (panicOf ⟨1⟩)).pool.request ⟨2⟩).1 = true := by
  have absent (t : TenantId) : ¬ (run {} (panicOf ⟨1⟩)).Alive t := by
    rintro ⟨phase, mem⟩
    exact absurd mem List.not_mem_nil
  have panicked : (run {} (panicOf ⟨1⟩)).Panicked ⟨1⟩ := by
    show _ ∈ [_, _, _, _]
    simp
  have calm : ¬ (run {} (panicOf ⟨1⟩)).Panicked ⟨2⟩ := by
    show _ ∉ [_, _, _, _]
    simp
  obtain ⟨running, -, -, never⟩ := isRunning_iff_alive_or_panicked (panicOf ⟨1⟩) ⟨1⟩
  obtain ⟨-, -, starts, -⟩ := isRunning_iff_alive_or_panicked (panicOf ⟨1⟩) ⟨2⟩
  exact ⟨running.mpr (.inr panicked), absent ⟨1⟩, fun more => (never panicked (absent ⟨1⟩) more).2,
    (starts rfl (absent ⟨2⟩) calm).1⟩

end Pooling

end WorkflowEngine
