import WorkflowEngine.Host.Loops

/-!
A manager at work. It is notified, what was sent to it arrives, and it evaluates its strategy at a tick or
when a request lies ready. No notice is lost on the way: until a request has made an evaluation begin since,
one lies ready or is on its way. No more than these two are ever outstanding. An evaluation is seen from the
manager, which is busy behind a step and was not before.
-/

namespace WorkflowEngine

namespace Requests

variable {r : Requests}

/-- How many lie ready or are on their way. -/
def outstanding (r : Requests) : Nat := r.waiting.toNat + r.sending.toNat

theorem outstanding_le (r : Requests) : r.outstanding ≤ 2 :=
  Nat.add_le_add (Bool.toNat_le r.waiting) (Bool.toNat_le r.sending)

theorem outstanding_eq_zero : r.outstanding = 0 ↔ r.waiting = false ∧ r.sending = false := by
  simp [outstanding]

theorem notify_outstanding (r : Requests) :
    r.notify.2.outstanding = r.outstanding + r.notify.1.toNat := by
  obtain ⟨waiting, sending⟩ := r
  cases sending <;> simp [notify, outstanding]

theorem notify_outstanding_pos (r : Requests) : 0 < r.notify.2.outstanding := by
  simp [notify, outstanding]

@[simp] theorem deliver_outstanding (r : Requests) : r.deliver.outstanding = r.outstanding := by
  obtain ⟨waiting, sending⟩ := r
  cases waiting <;> cases sending <;> rfl

/-- What is outstanding lies ready once it has arrived. -/
theorem deliver_waiting (some : 0 < r.outstanding) : r.deliver.waiting = true := by
  obtain ⟨waiting, sending⟩ := r
  cases waiting <;> cases sending <;> first | rfl | exact absurd some (Nat.lt_irrefl 0)

theorem take_outstanding (ready : r.waiting = true) : r.outstanding = r.take.outstanding + 1 := by
  simp [take, outstanding, ready, Nat.add_comm]

end Requests

/-- The requests to a manager, and whether it evaluates. -/
structure Evaluating where
  requests : Requests := {}
  busy : Bool := false
  deriving DecidableEq, Repr

inductive EvaluatingStep where
  | notify
  /-- A request arrives, if there is room for it. -/
  | deliver
  /-- A tick makes an evaluation begin. -/
  | tick
  /-- A request makes an evaluation begin. -/
  | take
  | finish
  deriving DecidableEq, Repr

namespace Evaluating

/-- Does a step, if it is one that can be done now. -/
def step (s : Evaluating) : EvaluatingStep → Evaluating
  | .notify => { s with requests := s.requests.notify.2 }
  | .deliver => { s with requests := s.requests.deliver }
  | .tick => { s with busy := true }
  | .take => if s.busy || !s.requests.waiting then s else { requests := s.requests.take, busy := true }
  | .finish => { s with busy := false }

def run (s : Evaluating) (steps : List EvaluatingStep) : Evaluating := steps.foldl step s

/-- The step makes an evaluation begin. -/
def begins (s : Evaluating) (x : EvaluatingStep) : Bool := !s.busy && (s.step x).busy

/-- The step makes an evaluation begin that a request asked for. -/
def answers (s : Evaluating) (x : EvaluatingStep) : Bool := x == .take && s.begins x

/-- By the step there is more outstanding than before. -/
def sends (s : Evaluating) (x : EvaluatingStep) : Bool :=
  decide (s.requests.outstanding < (s.step x).requests.outstanding)

/-- How many of the steps are such ones when they are done. -/
def tally (is : Evaluating → EvaluatingStep → Bool) (s : Evaluating) : List EvaluatingStep → Nat
  | [] => 0
  | x :: rest => (is s x).toNat + tally is (s.step x) rest

variable {s : Evaluating} {x : EvaluatingStep}

/-- A request is taken when the manager is idle and one lies ready. -/
theorem begins_take : s.begins .take = (!s.busy && s.requests.waiting) := by
  obtain ⟨⟨waiting, sending⟩, busy⟩ := s
  cases waiting <;> cases busy <;> rfl

theorem step_take (begun : s.begins .take = true) :
    s.requests.outstanding = (s.step .take).requests.outstanding + 1 := by
  rw [begins_take, Bool.and_eq_true, Bool.not_eq_true'] at begun
  obtain ⟨idle, ready⟩ := begun
  simp [step, idle, ready, Requests.take_outstanding ready]

theorem step_take_of_not (idle : s.begins .take = false) : s.step .take = s := by
  rw [begins_take, Bool.and_eq_false_iff, Bool.not_eq_false'] at idle
  exact if_pos (by simpa using idle)

/-- Only a notice sends a request. -/
theorem sends_eq_false (silent : x ≠ .notify) : s.sends x = false := by
  cases x with
  | notify => exact absurd rfl silent
  | deliver | tick | finish => simp [sends, step]
  | take =>
    cases begun : s.begins .take with
    | false => simp [sends, step_take_of_not begun]
    | true => simp [sends, step_take begun]

/-- A step adds to what is outstanding as much as it sends, and takes away what it answers. -/
theorem step_outstanding (s : Evaluating) (x : EvaluatingStep) :
    (s.answers x).toNat + (s.step x).requests.outstanding =
      s.requests.outstanding + (s.sends x).toNat := by
  cases x with
  | notify =>
    have more := s.requests.notify_outstanding
    simp only [answers, sends, step, more]
    cases s.requests.notify.1 <;> simp
  | deliver => simp [answers, sends, step]
  | tick | finish => simp [answers, sends, step]
  | take =>
    cases begun : s.begins .take with
    | false => simp [answers, sends, step_take_of_not begun, begun]
    | true =>
      rw [sends_eq_false (x := .take) nofun, step_take begun]
      simp [answers, begun, Nat.add_comm]

theorem run_outstanding (s : Evaluating) (steps : List EvaluatingStep) :
    tally answers s steps + (s.run steps).requests.outstanding =
      s.requests.outstanding + tally sends s steps := by
  induction steps generalizing s with
  | nil => exact Nat.add_comm _ _
  | cons x rest ih =>
    have first := s.step_outstanding x
    have later := ih (s.step x)
    show (s.answers x).toNat + tally answers (s.step x) rest + ((s.step x).run rest).requests.outstanding =
      _ + ((s.sends x).toNat + tally sends (s.step x) rest)
    omega

theorem tally_sends {steps : List EvaluatingStep} (silent : .notify ∉ steps) : tally sends s steps = 0 := by
  induction steps generalizing s with
  | nil => rfl
  | cons x rest ih =>
    rw [List.mem_cons, not_or] at silent
    rw [tally, sends_eq_false (Ne.symm silent.1), ih silent.2]
    rfl

/-- If something is outstanding and nothing is in the end, a request has made an evaluation begin. -/
theorem exists_begins (steps : List EvaluatingStep) (before : 0 < s.requests.outstanding)
    (after : (s.run steps).requests.outstanding = 0) :
    ∃ mid rest, steps = mid ++ .take :: rest ∧ (s.run mid).begins .take = true := by
  induction steps generalizing s with
  | nil => exact absurd after (Nat.ne_of_gt before)
  | cons x rest ih =>
    cases answered : s.answers x with
    | true =>
      obtain ⟨take, begun⟩ := Bool.and_eq_true_iff.mp answered
      obtain rfl := eq_of_beq take
      exact ⟨[], rest, rfl, begun⟩
    | false =>
      have conserved := s.step_outstanding x
      rw [answered] at conserved
      obtain ⟨mid, later, split, begun⟩ := ih (s := s.step x) (by simp at conserved; omega) after
      exact ⟨x :: mid, later, congrArg (x :: ·) split, begun⟩

/-- What is outstanding is answered as soon as it has arrived and the manager is idle. -/
theorem begins_of_outstanding (some : 0 < s.requests.outstanding) :
    (s.run [.finish, .deliver]).begins .take = true := by
  rw [begins_take]
  simp [run, step, Requests.deliver_waiting some]

/-- Whenever no request lies ready and none is on its way, an evaluation has begun since the last notice.
Two requests at most are outstanding, and so is the number of evaluations that are still asked for when the
notices cease. Each of them begins, and one at every tick that finds the manager idle. -/
theorem notices_heeded (steps : List EvaluatingStep) :
    let s := run {} steps
    (s.requests.waiting = false → s.requests.sending = false →
      ∀ before after, steps = before ++ .notify :: after →
        ∃ mid rest, after = mid ++ .take :: rest ∧
          (run {} (before ++ .notify :: mid)).begins .take = true) ∧
    tally sends {} steps = tally answers {} steps + s.requests.outstanding ∧
    s.requests.outstanding ≤ 2 ∧
    (∀ more, .notify ∉ more → tally answers s more ≤ s.requests.outstanding) ∧
    (0 < s.requests.outstanding → (s.run [.finish, .deliver]).begins .take = true) ∧
    (s.busy = false → s.begins .tick = true) := by
  intro s
  refine ⟨?_, ?_, s.requests.outstanding_le, fun more silent => ?_, begins_of_outstanding, fun idle => ?_⟩
  · rintro waiting sending before after rfl
    have noticed : 0 < ((run {} before).step .notify).requests.outstanding :=
      Requests.notify_outstanding_pos _
    have none : (((run {} before).step .notify).run after).requests.outstanding = 0 := by
      rw [Requests.outstanding_eq_zero]
      have same : s = ((run {} before).step .notify).run after := List.foldl_append
      exact same ▸ ⟨waiting, sending⟩
    obtain ⟨mid, rest, split, begun⟩ := exists_begins after noticed none
    refine ⟨mid, rest, split, ?_⟩
    rwa [show run {} (before ++ .notify :: mid) = ((run {} before).step .notify).run mid from
      List.foldl_append]
  · have conserved := run_outstanding {} steps
    rw [show ({} : Evaluating).requests.outstanding = 0 from rfl, Nat.zero_add] at conserved
    exact conserved.symm
  · have conserved := run_outstanding s more
    rw [tally_sends silent] at conserved
    omega
  · simp [begins, step, idle]

/-- Three notices come, one of them while a request is on its way. -/
def burst : List EvaluatingStep := [.notify, .deliver, .notify, .notify]

/-- What was sent is answered. -/
def afterwards : List EvaluatingStep :=
  [.take, .deliver, .tick, .finish, .take, .finish, .tick, .finish, .take]

theorem burst_heeded : (run {} burst).run afterwards = {} ∧
    tally begins (run {} burst) afterwards = 3 ∧ tally answers (run {} burst) afterwards = 2 ∧
    tally answers (run {} burst) afterwards ≤ (run {} burst).requests.outstanding ∧
    ∃ mid rest, afterwards = mid ++ .take :: rest ∧ (run {} (burst ++ mid)).begins .take = true := by
  obtain ⟨heeded, -⟩ := notices_heeded (burst ++ afterwards)
  obtain ⟨-, -, -, few, -⟩ := notices_heeded burst
  exact ⟨rfl, rfl, rfl, few afterwards (by decide), heeded rfl rfl [.notify, .deliver, .notify] afterwards rfl⟩

end Evaluating

/-! ### Managers of a host -/

namespace Host

variable {h h' : Host} {id : ManagerId} {s : Evaluating} {m : Manager} {x : Loop} {t : Ticker}

/-- The managers and their loops. -/
def stations (h : Host) : List Manager × List Loop := (h.managers, h.loops)

theorem wake_stations (h : Host) (p : Process) : (h.wake p).stations = h.stations := by
  unfold wake
  split <;> rfl

theorem wakeAll_stations (h : Host) (loops : List LoopId) : (h.wakeAll loops).stations = h.stations :=
  List.foldlRecOn (motive := fun h' : Host => h'.stations = h.stations) loops _ rfl
    fun h' same l _ => (h'.wake_stations (.loop l)).trans same

theorem arm_stations (h : Host) (l : LoopId) (moment : Nat) : (h.arm l moment).stations = h.stations := by
  unfold arm
  split <;> rfl

theorem report_stations (h : Host) (owner : Owner) (e : Evaluation) :
    (h.report owner e).stations = h.stations := by
  cases owner with
  | guest => rfl
  | supervisor => exact wakeAll_stations _ _

theorem evaluateNow_stations (h : Host) (m : Manager) : (h.evaluateNow m).stations = h.stations := by
  have same : (h.act (·.evaluate m.tenantId m.strategy)).2.stations = h.stations := rfl
  unfold evaluateNow
  split
  · rename_i evaluated
    rwa [evaluated] at same
  · rename_i evaluated
    rw [evaluated] at same
    split
    · exact same
    · exact (report_stations _ _ _).trans same

/-- The loop of a manager is at an evaluation, or it waits for something to do. -/
def AtWork (busy : Bool) : LoopState → Prop
  | .idle | .ticking _ => busy = false
  | .locking .. => busy = true
  | .ended => False

/-- The manager of the host is the one at work. -/
def Attends (h : Host) (id : ManagerId) (s : Evaluating) : Prop :=
  ∃ m x, h.managers[id]? = some m ∧ m.requests = s.requests ∧ h.loops[m.evaluator]? = some x ∧
    AtWork s.busy x.state

theorem Attends.congr (attends : h.Attends id s) (same : h'.stations = h.stations) :
    h'.Attends id s := by
  obtain ⟨managers, loops⟩ := Prod.mk.inj same
  obtain ⟨m, x, here, requests, loop, work⟩ := attends
  exact ⟨m, x, managers ▸ here, requests, loops ▸ loop, work⟩

theorem attends_modify {f : Manager → Manager} (here : h.managers[id]? = some m)
    (loop : h.loops[m.evaluator]? = some x) (work : AtWork s.busy x.state)
    (own : (f m).evaluator = m.evaluator) (requests : (f m).requests = s.requests) :
    (h.modifyManager id f).Attends id s :=
  ⟨f m, x, by simp [modifyManager, here], requests, own ▸ loop, work⟩

theorem attends_setLoop (here : h.managers[id]? = some m) (requests : m.requests = s.requests)
    (loop : h.loops[m.evaluator]? = some x) (state : LoopState) (work : AtWork s.busy state) :
    (h.setLoop m.evaluator state).Attends id s :=
  ⟨m, { x with state }, here, requests, by simp [setLoop, loop], work⟩

theorem Attends.notify (attends : h.Attends id s) : (h.notifyManager id).Attends id (s.step .notify) := by
  obtain ⟨m, x, here, requests, loop, work⟩ := attends
  have noted : (h.modifyManager id fun m => { m with requests := s.requests.notify.2 }).Attends id
      (s.step .notify) := attends_modify here loop work rfl rfl
  simp only [notifyManager, here, requests]
  split
  · exact noted.congr (wake_stations _ _)
  · exact noted

theorem Attends.deliver (attends : h.Attends id s) :
    (h.deliverRequest id).Attends id (s.step .deliver) := by
  obtain ⟨m, x, here, requests, loop, work⟩ := attends
  have runs : h.hasEnded m.evaluator = false := by
    rw [hasEnded, loop, Option.all_some, beq_eq_false_iff_ne]
    intro ended
    rw [ended] at work
    exact work
  have arrived : (h.modifyManager id fun m => { m with requests := m.requests.deliver }).Attends id
      (s.step .deliver) := attends_modify here loop work rfl (congrArg Requests.deliver requests)
  simp only [deliverRequest, here, runs, Bool.false_eq_true, if_false]
  exact arrived.congr (wake_stations _ _)

/-- What a manager does by itself. -/
def Own : EvaluatingStep → Prop
  | .tick | .take | .finish => True
  | .notify | .deliver => False

/-- By steps of its own the manager of the host gets there. -/
def Proceeds (h : Host) (id : ManagerId) (s : Evaluating) : Prop :=
  ∃ steps : List EvaluatingStep, (∀ y ∈ steps, Own y) ∧ h.Attends id (s.run steps)

theorem Attends.proceeds (attends : h.Attends id s) : h.Proceeds id s := ⟨[], List.forall_mem_nil _, attends⟩

theorem Proceeds.step {y : EvaluatingStep} (own : Own y) (proceeds : h.Proceeds id (s.step y)) : h.Proceeds id s := by
  obtain ⟨steps, rest, attends⟩ := proceeds
  exact ⟨y :: steps, List.forall_mem_cons.mpr ⟨own, rest⟩, attends⟩

/-- An evaluation that goes on ends. -/
theorem proceeds_finish (here : h.managers[id]? = some m) (requests : m.requests = s.requests)
    (loop : h.loops[m.evaluator]? = some x) (t : Ticker) :
    (h.setLoop m.evaluator (.ticking t)).Proceeds id s := by
  have idle : AtWork (s.step .finish).busy (.ticking t) := rfl
  have attends : (h.setLoop m.evaluator (.ticking t)).Attends id (s.step .finish) :=
    attends_setLoop (s := s.step .finish) here requests loop _ idle
  exact Proceeds.step (y := .finish) trivial attends.proceeds

theorem Proceeds.congr (proceeds : h.Proceeds id s) (same : h'.stations = h.stations) : h'.Proceeds id s := by
  obtain ⟨steps, own, attends⟩ := proceeds
  exact ⟨steps, own, attends.congr same⟩

/-- An evaluation that has begun ends at once, unless it has to wait for its lock. -/
theorem beginEvaluation_proceeds (here : h.managers[id]? = some m) (requests : m.requests = s.requests)
    (loop : h.loops[m.evaluator]? = some x) (busy : s.busy = true) (m' : Manager) (t : Ticker) :
    (h.beginEvaluation m.evaluator m' t).Proceeds id s := by
  have finished := proceeds_finish here requests loop t
  unfold beginEvaluation
  dsimp only
  split
  · exact finished.congr (evaluateNow_stations _ _)
  · split
    · exact finished
    · exact (attends_setLoop here requests loop (.locking _ _) busy).proceeds.congr
        (arm_stations _ _ _)

/-- In a turn of its evaluator, a manager that is not stopped takes some steps of its own. -/
theorem turnEvaluator_proceeds (here : h.managers[id]? = some m) (requests : m.requests = s.requests)
    (loop : h.loops[m.evaluator]? = some x) (work : AtWork s.busy x.state)
    (goes : h.managerStopped m = false) (ticks : h.settings.concurrencyTick.millis ≠ 0) :
    (h.turnEvaluator m.evaluator x.state id).Proceeds id s := by
  have proceeds : h.Proceeds id s := Attends.proceeds ⟨m, x, here, requests, loop, work⟩
  unfold turnEvaluator
  simp only [here]
  cases state : x.state with
  | ended =>
    rw [state] at work
    exact work.elim
  | idle =>
    rw [state] at work
    rw [Ticker.start?, if_neg ticks]
    exact (attends_setLoop here requests loop (.ticking _) work).proceeds
  | locking t deadline =>
    rw [state] at work
    have finished := proceeds_finish here requests loop t
    dsimp only
    split
    · exact finished.congr (evaluateNow_stations _ _)
    · split
      · exact finished
      · exact proceeds
  | ticking t =>
    have idle : s.busy = false := by
      rw [state] at work
      exact work
    simp only [goes, Bool.false_eq_true, if_false]
    -- a tick comes first, then a request that lies ready
    split
    · have began (m' : Manager) (t : Ticker) : (h.beginEvaluation m.evaluator m' t).Proceeds id (s.step .tick) :=
        beginEvaluation_proceeds (s := s.step .tick) here requests loop rfl m' t
      exact Proceeds.step (y := .tick) trivial (began m _)
    split
    · rename_i ready
      rw [requests] at ready
      have busy : (s.step .take).busy = true := by simp [Evaluating.step, idle, ready]
      have same : m.requests.take = (s.step .take).requests := by
        simp [Evaluating.step, idle, ready, requests]
      obtain ⟨managers, loops⟩ := Prod.mk.inj (wake_stations
        (h.modifyManager id fun m => { m with requests := m.requests.take }) (.request id))
      have here' : (h.modifyManager id fun m => { m with requests := m.requests.take }).managers[id]? =
          some { m with requests := m.requests.take } := by
        simp [modifyManager, here]
      have began := beginEvaluation_proceeds (managers ▸ here') same (loops ▸ loop) busy m t
      exact Proceeds.step (y := .take) trivial began
    · exact proceeds.congr (arm_stations _ _ _)

end Host

end WorkflowEngine
