import WorkflowEngine.Proofs.History
import WorkflowEngine.Proofs.Pool.Runs

/-!
Requests and invocations of a pool that is not cancelled and whose operation does not panic. Invocations for
one tenant never overlap, a request starts a run just when none is in flight, none is lost, and those that
come during one invocation cause one more at most.
-/

namespace WorkflowEngine

namespace PoolEvent

def IsRequest (t : TenantId) (event : PoolEvent) : Prop := ∃ started, event = .requested t started

def IsEnding (t : TenantId) (event : PoolEvent) : Prop := ∃ e, event = .ended t e

/-- What makes an invocation begin. -/
def IsPrompt (t : TenantId) (event : PoolEvent) : Prop :=
  event = .requested t true ∨ ∃ why, event = .renewed t why

/-- What happens now goes with what has happened before. -/
def Lawful (past : List PoolEvent) : PoolEvent → Prop
  -- a run is started just when none is open
  | .requested t started => started = true ↔ ¬ Since (· = .requested t true) (· = .closed t) past
  -- no invocation begins while another is in progress, and none without a cause of its own
  | .began t => ¬ Since (· = .began t) (IsEnding t) past ∧ Since (IsPrompt t) (· = .began t) past
  | .ended t _ => Since (· = .began t) (IsEnding t) past
  | .renewed t .unfinished =>
    Since (· = .ended t .more) (fun event => event = .began t ∨ IsPrompt t event) past
  -- one of the requests that came meanwhile has not been answered yet
  | .renewed t .asked => Since (· = .requested t false) (· = .renewed t .asked) past
  -- the last invocation began after the last request
  | .closed t => .began t ∈ past ∧ ¬ Since (IsRequest t) (· = .began t) past

def tenant : PoolEvent → TenantId
  | .requested t _ | .began t | .ended t _ | .renewed t _ | .closed t => t

end PoolEvent

namespace Pooling

open PoolEvent

variable {s s' : Pooling} {t u : TenantId} {x : PoolingStep} {n : Nat} {phase : RunPhase}

/-- The steps of a pool that is not cancelled and whose operation does not panic. -/
def Calm : PoolingStep → Prop
  | .cancel => False
  | .finish _ e => e ≠ .panicked
  | _ => True

structure Quiet (s : Pooling) : Prop where
  goes : s.pool.cancelled = false
  calm (t : TenantId) : ¬ s.Panicked t

theorem Quiet.step (quiet : s.Quiet) (calm : Calm x) : (s.step x).Quiet := by
  obtain ⟨goes, calm'⟩ := quiet
  have other {event : PoolEvent} (honest : ∀ t, event ≠ .ended t .panicked) (t : TenantId) :
      .ended t .panicked ∉ event :: s.log :=
    fun mem => (List.mem_cons.mp mem).elim (fun same => honest t same.symm) (calm' t)
  cases x with
  | request t early => exact ⟨goes, other (by simp)⟩
  | cancel => exact calm.elim
  | invoke n =>
    simp only [Pooling.step]
    split
    · exact ⟨goes, other (by simp)⟩
    · exact ⟨goes, calm'⟩
  | finish n e =>
    simp only [Pooling.step]
    split
    · exact ⟨goes, other fun t same => calm (PoolEvent.ended.inj same).2⟩
    · exact ⟨goes, calm'⟩
  | proceed n early =>
    simp only [Pooling.step]
    split
    · split
      · exact ⟨goes, other (by simp)⟩
      · exact ⟨goes, other (by simp)⟩
    · exact ⟨goes, calm'⟩
  | stop n =>
    simp only [Pooling.step]
    split
    · exact ⟨goes, calm'⟩
    · exact ⟨goes, calm'⟩
    · rw [goes]
      exact ⟨goes, calm'⟩

/-- What is known of a tenant goes with what has happened. -/
structure Heeds (s : Pooling) (t : TenantId) : Prop where
  opened : Since (· = .requested t true) (· = .closed t) s.log ↔ s.Alive t
  busy : Since (· = .began t) (IsEnding t) s.log ↔ ⟨t, .invoked⟩ ∈ s.runs
  prompted : ⟨t, .ready⟩ ∈ s.runs → Since (IsPrompt t) (· = .began t) s.log
  reported (e : Ending) : ⟨t, .ended e⟩ ∈ s.runs →
    Since (· = .ended t e) (fun event => event = .began t ∨ IsPrompt t event) s.log
  flag : s.pool.again t = true ↔ Since (· = .requested t false) (· = .renewed t .asked) s.log
  heard (phase : RunPhase) : ⟨t, phase⟩ ∈ s.runs → phase ≠ .ready →
    .began t ∈ s.log ∧ (s.pool.again t = true ∨ ¬ Since (IsRequest t) (· = .began t) s.log)
  tally : s.log.count (.began t) + (if ⟨t, .ready⟩ ∈ s.runs then 1 else 0) =
    s.log.count (.requested t true) + s.log.count (.renewed t .unfinished) +
      s.log.count (.renewed t .asked)

theorem heeds_empty (t : TenantId) : Heeds {} t where
  opened := by simp [Alive]
  busy := by simp
  prompted mem := absurd mem List.not_mem_nil
  reported e mem := absurd mem List.not_mem_nil
  flag := by simp [Pool.again]
  heard phase mem := absurd mem List.not_mem_nil
  tally := by simp

section

variable {pool : Pool} {runs : List PoolRun} {event : PoolEvent}

/-- What happens to one tenant is nothing to another. -/
theorem Heeds.apart (heeds : s.Heeds u) (other : u ≠ event.tenant)
    (again : pool.again u = s.pool.again u)
    (same : ∀ phase, ⟨u, phase⟩ ∈ runs ↔ ⟨u, phase⟩ ∈ s.runs) :
    Heeds { pool, runs, log := event :: s.log } u := by
  have requested (started : Bool) : event ≠ .requested u started := by
    rintro rfl
    exact other rfl
  have began : event ≠ .began u := by
    rintro rfl
    exact other rfl
  have ended (e : Ending) : event ≠ .ended u e := by
    rintro rfl
    exact other rfl
  have renewed (why : Renewal) : event ≠ .renewed u why := by
    rintro rfl
    exact other rfl
  have closed : event ≠ .closed u := by
    rintro rfl
    exact other rfl
  refine ⟨?_, ?_, ?_, fun e => ?_, ?_, fun phase => ?_, ?_⟩
  · simpa [requested, closed, Alive, same] using heeds.opened
  · simpa [began, ended, IsEnding, same] using heeds.busy
  · simpa [requested, began, renewed, IsPrompt, same] using heeds.prompted
  · simpa [requested, began, ended, renewed, IsPrompt, same] using heeds.reported e
  · simpa [requested, renewed, again] using heeds.flag
  · simpa [requested, began, began.symm, IsRequest, again, same] using heeds.heard phase
  · simpa [requested, began, renewed, same, List.count_cons] using heeds.tally

/-- One who has a run in flight is reminded. -/
theorem Heeds.reminded (heeds : s.Heeds t) (running : s.pool.isRunning t = true) :
    Heeds { s with pool := s.pool.note t true, log := .requested t false :: s.log } t where
  opened := by simpa [Alive] using heeds.opened
  busy := by simpa [IsEnding] using heeds.busy
  prompted mem := by simpa [IsPrompt] using heeds.prompted mem
  reported e mem := by simpa [IsPrompt] using heeds.reported e mem
  flag := by simp [Pool.again_note, running]
  heard phase mem late := by simpa [Pool.again_note, running] using (heeds.heard phase mem late).1
  tally := by simpa [List.count_cons] using heeds.tally

/-- The tenant has a run that is so far. -/
def AtPhase (runs : List PoolRun) (t : TenantId) (phase : RunPhase) : Prop :=
  ∀ other, ⟨t, other⟩ ∈ runs ↔ other = phase

/-- A run that is made ready is to begin once more. -/
theorem Heeds.tally_prompted (heeds : s.Heeds t) (was : (⟨t, .ready⟩ : PoolRun) ∉ s.runs)
    (now : ⟨t, .ready⟩ ∈ runs) (prompt : IsPrompt t event) :
    (event :: s.log).count (.began t) + (if ⟨t, .ready⟩ ∈ runs then 1 else 0) =
      (event :: s.log).count (.requested t true) + (event :: s.log).count (.renewed t .unfinished) +
        (event :: s.log).count (.renewed t .asked) := by
  have tally := heeds.tally
  rw [if_neg was] at tally
  rw [if_pos now]
  obtain rfl | ⟨why, rfl⟩ := prompt
  · simp only [List.count_cons_self, List.count_cons_of_ne, ne_eq, reduceCtorEq, not_false_eq_true]
    omega
  · cases why with
    | unfinished | asked =>
      simp only [List.count_cons_self, List.count_cons_of_ne, ne_eq, PoolEvent.renewed.injEq, reduceCtorEq,
        and_false, not_false_eq_true]
      omega

theorem Heeds.started (heeds : s.Heeds t) (was : ∀ phase, (⟨t, phase⟩ : PoolRun) ∉ s.runs)
    (now : AtPhase runs t .ready) :
    Heeds { pool := s.pool.enter t, runs, log := .requested t true :: s.log } t where
  opened := by simp [Alive, now _]
  busy := by simpa [IsEnding, now _, was] using heeds.busy
  prompted mem := by simp [IsPrompt]
  reported e mem := by cases (now _).mp mem
  flag := by simpa using heeds.flag
  heard phase mem late := absurd ((now phase).mp mem) late
  tally := heeds.tally_prompted (was _) ((now _).mpr rfl) (.inl rfl)

theorem Heeds.began (heeds : s.Heeds t) (was : AtPhase s.runs t .ready)
    (now : AtPhase runs t .invoked) : Heeds { s with runs, log := .began t :: s.log } t where
  opened := by simpa [Alive, was _, now _] using heeds.opened
  busy := by simp [now _]
  prompted mem := by cases (now _).mp mem
  reported e mem := by cases (now _).mp mem
  flag := by simpa using heeds.flag
  heard phase mem late := by simp [IsRequest]
  tally := by
    have tally := heeds.tally
    simp [was _] at tally
    simp [now _, tally]

theorem Heeds.ended {e : Ending} (heeds : s.Heeds t) (was : AtPhase s.runs t .invoked)
    (now : AtPhase runs t (.ended e)) : Heeds { s with runs, log := .ended t e :: s.log } t where
  opened := by simpa [Alive, was _, now _] using heeds.opened
  busy := by simp [IsEnding, now _]
  prompted mem := by cases (now _).mp mem
  reported e mem := by
    cases (now _).mp mem
    simp
  flag := by simpa using heeds.flag
  heard phase mem late := by simpa [IsRequest, was _] using heeds.heard .invoked
  tally := by simpa [was _, now _] using heeds.tally

theorem Heeds.unfinished {e : Ending} (heeds : s.Heeds t) (was : AtPhase s.runs t (.ended e))
    (now : AtPhase runs t .ready) :
    Heeds { s with runs, log := .renewed t .unfinished :: s.log } t where
  opened := by simpa [Alive, was _, now _] using heeds.opened
  busy := by simpa [IsEnding, was _, now _] using heeds.busy
  prompted mem := by simp [IsPrompt]
  reported e mem := by cases (now _).mp mem
  flag := by simpa using heeds.flag
  heard phase mem late := absurd ((now phase).mp mem) late
  tally := heeds.tally_prompted (by simp [was _]) ((now _).mpr rfl) (.inr ⟨_, rfl⟩)

theorem Heeds.asked {e : Ending} (heeds : s.Heeds t) (was : AtPhase s.runs t (.ended e))
    (now : AtPhase runs t .ready) :
    Heeds { pool := s.pool.note t false, runs, log := .renewed t .asked :: s.log } t where
  opened := by simpa [Alive, was _, now _] using heeds.opened
  busy := by simpa [IsEnding, was _, now _] using heeds.busy
  prompted mem := by simp [IsPrompt]
  reported e mem := by cases (now _).mp mem
  flag := by simp [Pool.again_note]
  heard phase mem late := absurd ((now phase).mp mem) late
  tally := heeds.tally_prompted (by simp [was _]) ((now _).mpr rfl) (.inr ⟨_, rfl⟩)

theorem Heeds.satisfied {e : Ending} (heeds : s.Heeds t) (was : AtPhase s.runs t (.ended e))
    (now : ∀ phase, (⟨t, phase⟩ : PoolRun) ∉ runs) (none : s.pool.again t = false) :
    Heeds { pool := s.pool.release t, runs, log := .closed t :: s.log } t where
  opened := by simp [Alive, now]
  busy := by simpa [IsEnding, was _, now] using heeds.busy
  prompted mem := absurd mem (now _)
  reported e mem := absurd mem (now _)
  flag := by simpa [none] using heeds.flag
  heard phase mem := absurd mem (now _)
  tally := by simpa [was _, now] using heeds.tally

end

theorem Sound.atPhase (sound : s.Sound) (here : s.runs[n]? = some ⟨t, phase⟩) :
    AtPhase s.runs t phase := by
  intro other
  rw [← (perm_of_here here).mem_iff, List.mem_cons, mem_gone sound.distinct here]
  simp

theorem Sound.atPhase_moved {now : RunPhase} (sound : s.Sound) (here : s.runs[n]? = some ⟨t, phase⟩) :
    AtPhase (s.runs.set n ⟨t, now⟩) t now := by
  intro other
  rw [mem_moved sound.distinct here, if_pos rfl]

theorem Sound.erased (sound : s.Sound) (here : s.runs[n]? = some ⟨t, phase⟩) (other : RunPhase) :
    ⟨t, other⟩ ∉ s.runs.eraseIdx n :=
  fun mem => ((mem_gone sound.distinct here).mp mem).1 rfl

theorem Sound.absent (sound : s.Sound) (idle : s.pool.isRunning t = false) (phase : RunPhase) :
    ⟨t, phase⟩ ∉ s.runs :=
  fun mem => Bool.false_ne_true (idle.symm.trans ((sound.running t).mpr (.inl ⟨phase, mem⟩)))

theorem Quiet.not_cancelled (quiet : s.Quiet) : s.pool.cancelled ≠ true :=
  fun stopped => Bool.false_ne_true (quiet.goes.symm.trans stopped)

theorem Quiet.not_lost (quiet : s.Quiet) (sound : s.Sound) :
    s.runs[n]? ≠ some ⟨t, .ended .panicked⟩ :=
  fun here => quiet.calm t (sound.told t .panicked (List.mem_of_getElem? here))

theorem Quiet.turn_heeds (quiet : s.Quiet) (sound : s.Sound) (quiet' : s'.Quiet) (turn : Turn s s')
    (heeds : s.Heeds u) : s'.Heeds u := by
  cases turn with
  | still => exact heeds
  | cancelled => exact absurd rfl quiet'.not_cancelled
  | refused t stopped | stopped t phase n here calm stopped => exact absurd stopped quiet.not_cancelled
  | lost t n here => exact absurd here (quiet.not_lost sound)
  | reminded t running =>
    by_cases mine : u = t
    · subst mine
      exact heeds.reminded running
    · exact heeds.apart mine (by rw [Pool.again_note, if_neg mine]) fun phase => Iff.rfl
  | started t idle =>
    by_cases mine : u = t
    · subst mine
      refine heeds.started (sound.absent idle) fun phase => ?_
      simp [sound.absent idle]
    · exact heeds.apart mine Pool.again_enter fun phase => by simp [mine]
  | began t n here =>
    by_cases mine : u = t
    · subst mine
      exact heeds.began (sound.atPhase here) (sound.atPhase_moved here)
    · exact heeds.apart mine rfl fun phase => by rw [mem_moved sound.distinct here, if_neg mine]
  | ended t e n here =>
    by_cases mine : u = t
    · subst mine
      exact heeds.ended (sound.atPhase here) (sound.atPhase_moved here)
    · exact heeds.apart mine rfl fun phase => by rw [mem_moved sound.distinct here, if_neg mine]
  | unfinished t n here =>
    by_cases mine : u = t
    · subst mine
      exact heeds.unfinished (sound.atPhase here) (sound.atPhase_moved here)
    · exact heeds.apart mine rfl fun phase => by rw [mem_moved sound.distinct here, if_neg mine]
  | asked t e n here calm again =>
    by_cases mine : u = t
    · subst mine
      exact heeds.asked (sound.atPhase here) (sound.atPhase_moved here)
    · exact heeds.apart mine (by rw [Pool.again_note, if_neg mine]) fun phase => by
        rw [mem_moved sound.distinct here, if_neg mine]
  | satisfied t e n here calm none =>
    by_cases mine : u = t
    · subst mine
      exact heeds.satisfied (sound.atPhase here) (sound.erased here) none
    · exact heeds.apart mine (by simp [mine]) fun phase => by
        rw [mem_gone sound.distinct here, and_iff_right mine]

theorem Quiet.turn_lawful (quiet : s.Quiet) (sound : s.Sound) (quiet' : s'.Quiet) (turn : Turn s s')
    (heeds : ∀ u, s.Heeds u) {event : PoolEvent} (new : s'.log = event :: s.log) :
    event.Lawful s.log := by
  cases turn with
  | still | cancelled => exact absurd new List.ne_cons_self
  | refused t stopped | stopped t phase n here calm stopped => exact absurd stopped quiet.not_cancelled
  | lost t n here => exact absurd here (quiet.not_lost sound)
  | reminded t running =>
    cases new
    have alive := ((sound.running t).mp running).resolve_right (quiet.calm t)
    simpa [Lawful] using (heeds t).opened.mpr alive
  | started t idle =>
    cases new
    refine iff_of_true rfl fun opened => ?_
    obtain ⟨phase, mem⟩ := (heeds t).opened.mp opened
    exact sound.absent idle phase mem
  | began t n here =>
    cases new
    refine ⟨fun busy => ?_, (heeds t).prompted (List.mem_of_getElem? here)⟩
    cases (sound.atPhase here _).mp ((heeds t).busy.mp busy)
  | ended t e n here =>
    cases new
    exact (heeds t).busy.mpr (List.mem_of_getElem? here)
  | unfinished t n here =>
    cases new
    exact (heeds t).reported .more (List.mem_of_getElem? here)
  | asked t e n here calm again =>
    cases new
    exact (heeds t).flag.mp again
  | satisfied t e n here calm none =>
    cases new
    obtain ⟨begun, heard⟩ := (heeds t).heard _ (List.mem_of_getElem? here) (by simp)
    exact ⟨begun, heard.resolve_left (Bool.eq_false_iff.mp none)⟩

/-! ### Whole runs -/

/-- A request for the tenant. -/
def Asks (t : TenantId) (x : PoolingStep) : Prop := ∃ early, x = .request t early

/-- Each invocation that was asked for answers to requests that came before. -/
theorem Turn.asked_le (turn : Turn s s') (t : TenantId) :
    s'.log.count (.renewed t .asked) + (s'.pool.again t).toNat + s.log.count (.requested t false) ≤
      s.log.count (.renewed t .asked) + (s.pool.again t).toNat + s'.log.count (.requested t false) := by
  cases turn with
  | still | cancelled => exact Nat.le_refl _
  | refused | started | began | ended | unfinished => simp [List.count_cons]
  | reminded u running =>
    by_cases mine : t = u
    · subst mine
      simp [Pool.again_note, running]
      omega
    · simp [Pool.again_note, mine, Ne.symm mine]
  | asked u e n here calm again =>
    by_cases mine : t = u
    · subst mine
      simp [Pool.again_note, again]
    · simp [Pool.again_note, mine, Ne.symm mine]
  | lost u => simp
  | satisfied u | stopped u =>
    simp only [Pool.again_release]
    cases s.pool.again t <;> simp [Bool.toNat_le]

theorem count_requested_step {started : Bool} (other : ¬ Asks t x) :
    (s.step x).log.count (.requested t started) = s.log.count (.requested t started) := by
  cases x with
  | request u early =>
    have apart : u ≠ t := by
      rintro rfl
      exact other ⟨early, rfl⟩
    show List.count _ (_ :: s.log) = _
    simp [apart]
  | cancel => rfl
  | invoke n | finish n e =>
    simp only [step]
    split
    · simp
    · rfl
  | proceed n early =>
    simp only [step]
    split
    · split
      · simp
      · simp
    · rfl
  | stop n =>
    simp only [step]
    split
    · rfl
    · rfl
    · split
      · simp
      · rfl

/-- What has happened to a pool that goes on and does not panic. -/
structure Orderly (s : Pooling) : Prop where
  sound : s.Sound
  quiet : s.Quiet
  heeds (t : TenantId) : s.Heeds t
  lawful (event : PoolEvent) (past : List PoolEvent) : event :: past <:+ s.log → event.Lawful past

theorem orderly_empty : Orderly {} where
  sound := sound_empty
  quiet := ⟨rfl, fun _ => List.not_mem_nil⟩
  heeds := heeds_empty
  lawful _ _ there := absurd (List.suffix_nil.mp there) (List.cons_ne_nil _ _)

theorem Turn.log_eq (turn : Turn s s') : s'.log = s.log ∨ ∃ event, s'.log = event :: s.log := by
  cases turn with
  | still | cancelled => exact .inl rfl
  | _ => exact .inr ⟨_, rfl⟩

theorem Orderly.step (orderly : s.Orderly) (calm : Calm x) : (s.step x).Orderly := by
  obtain ⟨sound, quiet, heeds, lawful⟩ := orderly
  have turn := step_turn s x
  have quiet' := quiet.step calm
  refine ⟨sound.turn turn, quiet', fun t => quiet.turn_heeds sound quiet' turn (heeds t), ?_⟩
  intro event past there
  obtain same | ⟨latest, new⟩ := turn.log_eq
  · exact lawful event past (same ▸ there)
  rw [new, List.suffix_cons_iff] at there
  obtain now | before := there
  · cases now
    exact quiet.turn_lawful sound quiet' turn heeds new
  · exact lawful event past before

theorem Orderly.run {steps : List PoolingStep} (orderly : s.Orderly) (calm : ∀ x ∈ steps, Calm x) :
    (s.run steps).Orderly :=
  List.foldlRecOn steps Pooling.step orderly fun _ orderly x mem => orderly.step (calm x mem)

theorem count_requested_run {steps : List PoolingStep} (others : ∀ x ∈ steps, ¬ Asks t x) (started : Bool) :
    (s.run steps).log.count (.requested t started) = s.log.count (.requested t started) :=
  List.foldlRecOn (motive := fun s' : Pooling =>
      s'.log.count (.requested t started) = s.log.count (.requested t started)) steps step rfl
    fun _ same x mem => (count_requested_step (others x mem)).trans same

/-- Without another request no more than one more invocation is asked for. -/
theorem asked_run {steps : List PoolingStep} (others : ∀ x ∈ steps, ¬ Asks t x) :
    (s.run steps).log.count (.renewed t .asked) + ((s.run steps).pool.again t).toNat ≤
      s.log.count (.renewed t .asked) + (s.pool.again t).toNat := by
  induction steps generalizing s with
  | nil => exact Nat.le_refl _
  | cons x rest ih =>
    obtain ⟨other, others⟩ := List.forall_mem_cons.mp others
    have first := (step_turn s x).asked_le t
    have later := ih others (s := s.step x)
    rw [count_requested_step other] at first
    show ((s.step x).run rest).log.count _ + (((s.step x).run rest).pool.again t).toNat ≤ _
    omega

/-- As long as nothing panics and the pool is not cancelled, invocations in progress are for different
tenants, a request starts a run just when the tenant has none, and what happens goes with what happened
before. Without another request there is one more invocation at most than work was left to do. -/
theorem requests_heeded (steps : List PoolingStep) (calm : ∀ x ∈ steps, Calm x) (t : TenantId) :
    let s := Pooling.run {} steps
    ((s.runs.filter (·.phase = .invoked)).map (·.tenant)).Nodup ∧
      ((s.pool.request t).1 = true ↔ ¬ s.Alive t) ∧
      (∀ event past, event :: past <:+ s.log → event.Lawful past) ∧
      (∀ more : List PoolingStep, (∀ x ∈ more, Calm x ∧ ¬ Asks t x) → ⟨t, .invoked⟩ ∈ s.runs →
        (s.run more).log.count (.began t) + s.log.count (.renewed t .unfinished) ≤
          s.log.count (.began t) + (s.run more).log.count (.renewed t .unfinished) + 1) := by
  intro s
  have orderly : s.Orderly := orderly_empty.run calm
  refine ⟨?_, ?_, orderly.lawful, fun more further busy => ?_⟩
  · exact orderly.sound.distinct.sublist (List.filter_sublist.map _)
  · have running := orderly.sound.running t
    rw [or_iff_left (orderly.quiet.calm t)] at running
    rw [← running, Pool.request_eq, orderly.quiet.goes]
    cases s.pool.isRunning t <;> simp
  · have calm' : (s.run more).Orderly := orderly.run fun x mem => (further x mem).1
    have others : ∀ x ∈ more, ¬ Asks t x := fun x mem => (further x mem).2
    obtain ⟨n, bound, here⟩ := List.getElem_of_mem busy
    have now : ¬ (⟨t, .ready⟩ : PoolRun) ∈ s.runs := by
      rw [orderly.sound.atPhase (List.getElem?_eq_some_iff.mpr ⟨bound, here⟩)]
      simp
    have before := (orderly.heeds t).tally
    have after := (calm'.heeds t).tally
    have same := count_requested_run (s := s) others true
    have once := asked_run (s := s) others
    have most : (s.pool.again t).toNat ≤ 1 := Bool.toNat_le _
    rw [if_neg now] at before
    omega

/-- Two requests come while the operation is at work for the tenant. -/
def remindedTwice (t : TenantId) : List PoolingStep :=
  [.request t false, .invoke 0, .request t false, .request t true]

/-- It fails, and then there is nothing left to do. -/
def failThenFinish : List PoolingStep :=
  [.finish 0 .failed, .proceed 0 false, .invoke 0, .finish 0 .done, .proceed 0 true]

theorem remindedTwice_once_more :
    ((run {} (remindedTwice ⟨1⟩)).pool.request ⟨1⟩).1 = false ∧
      ((run {} (remindedTwice ⟨1⟩)).run failThenFinish).log.count (.began ⟨1⟩) ≤ 2 ∧
      (run {} (remindedTwice ⟨1⟩ ++ failThenFinish)).log = .closed ⟨1⟩ ::
        [.ended ⟨1⟩ .done, .began ⟨1⟩, .renewed ⟨1⟩ .asked, .ended ⟨1⟩ .failed,
          .requested ⟨1⟩ false, .requested ⟨1⟩ false, .began ⟨1⟩, .requested ⟨1⟩ true] ∧
      PoolEvent.Lawful [.ended ⟨1⟩ .done, .began ⟨1⟩, .renewed ⟨1⟩ .asked, .ended ⟨1⟩ .failed,
        .requested ⟨1⟩ false, .requested ⟨1⟩ false, .began ⟨1⟩, .requested ⟨1⟩ true] (.closed ⟨1⟩) := by
  have calm : ∀ x ∈ remindedTwice ⟨1⟩, Calm x := by simp [remindedTwice, Calm]
  have calm' : ∀ x ∈ remindedTwice ⟨1⟩ ++ failThenFinish, Calm x := by
    simp [remindedTwice, failThenFinish, Calm]
  have further : ∀ x ∈ failThenFinish, Calm x ∧ ¬ Asks ⟨1⟩ x := by simp [failThenFinish, Calm, Asks]
  have busy : ⟨⟨1⟩, .invoked⟩ ∈ (run {} (remindedTwice ⟨1⟩)).runs := by decide
  obtain ⟨-, starts, -, once⟩ := requests_heeded (remindedTwice ⟨1⟩) calm ⟨1⟩
  obtain ⟨-, -, lawful, -⟩ := requests_heeded (remindedTwice ⟨1⟩ ++ failThenFinish) calm' ⟨1⟩
  exact ⟨Bool.eq_false_iff.mpr fun started => starts.mp started ⟨_, busy⟩,
    once failThenFinish further busy, rfl, lawful _ _ List.suffix_rfl⟩

end Pooling

end WorkflowEngine
