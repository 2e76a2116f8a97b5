import WorkflowEngine.Guarded
import WorkflowEngine.Proofs.Fallible

/-!
State that is changed in place. A program writes as it goes, and nothing takes back what it wrote before
a fault. It does no harm as long as it checks everything before it writes: a fault of a check leaves the
state as it was, and a fault that comes later is a panic, behind which the state cannot be used any more.
-/

namespace WorkflowEngine

/-- The fault is a panic, which leaves the state behind a lock unusable. -/
def Fault.isPanic : Fault → Bool
  | .panic _ => true
  | _ => false

/-- A program on a state that it changes in place. -/
structure InPlace (σ α : Type) where
  run : σ → Except Fault α × σ

namespace InPlace

variable {σ α β : Type}

instance : Monad (InPlace σ) where
  pure a := ⟨fun s => (.ok a, s)⟩
  bind p f := ⟨fun s =>
    match p.run s with
    | (.ok a, s) => (f a).run s
    | (.error x, s) => (.error x, s)⟩

def read (f : σ → α) : InPlace σ α := ⟨fun s => (.ok (f s), s)⟩

/-- Reads only, and may fail. -/
def check (f : σ → Except Fault α) : InPlace σ α := ⟨fun s => (f s, s)⟩

def modify (f : σ → σ) : InPlace σ Unit := ⟨fun s => (.ok (), f s)⟩

@[simp] theorem run_pure (a : α) (s : σ) : (pure a : InPlace σ α).run s = (.ok a, s) := rfl

theorem run_bind (p : InPlace σ α) (f : α → InPlace σ β) (s : σ) :
    (p >>= f).run s = match p.run s with
      | (.ok a, s) => (f a).run s
      | (.error x, s) => (.error x, s) := rfl

@[simp] theorem run_read (f : σ → α) (p : α → InPlace σ β) (s : σ) :
    (read f >>= p).run s = (p (f s)).run s := rfl

@[simp] theorem run_check (f : σ → Except Fault α) (p : α → InPlace σ β) (s : σ) :
    (check f >>= p).run s = match f s with
      | .ok a => (p a).run s
      | .error x => (.error x, s) := by
  have checked : (check f).run s = (f s, s) := rfl
  rw [run_bind, checked]
  cases f s <;> rfl

@[simp] theorem run_modify (f : σ → σ) (p : Unit → InPlace σ β) (s : σ) :
    (modify f >>= p).run s = (p ()).run (f s) := rfl

/-! ### Programs that fail by panics only -/

/-- The program has come to what a function gives; if that is a fault, it is a panic. -/
def Comes (left : Except Fault Unit × σ) : Except Fault σ → Prop
  | .ok s => left = (.ok (), s)
  | .error x => x.isPanic = true ∧ left.1 = .error x

/-- The program does what a function says, and fails by panics only. -/
def Steady (p : InPlace σ Unit) (f : σ → Except Fault σ) : Prop := ∀ s, Comes (p.run s) (f s)

variable {p : InPlace σ Unit} {q : Unit → InPlace σ Unit} {f g : σ → Except Fault σ} {s : σ}

theorem Comes.bind {result : Except Fault σ} (first : Comes (p.run s) result)
    (then_ : Steady (q ()) g) : Comes ((p >>= q).run s) (result >>= g) := by
  rw [run_bind]
  generalize p.run s = left at first
  obtain ⟨left, s₁⟩ := left
  cases result with
  | ok s' =>
    cases first
    exact then_ s₁
  | error x =>
    obtain ⟨panic, failed⟩ := first
    cases failed
    exact ⟨panic, rfl⟩

theorem Steady.congr (steady : Steady p f) (same : ∀ s, f s = g s) : Steady p g :=
  fun s => same s ▸ steady s

theorem Steady.modify (f : σ → σ) : Steady (modify f) fun s => .ok (f s) := fun _ => rfl

theorem Steady.forM {step : α → InPlace σ Unit} {each : σ → α → Except Fault σ}
    (steps : ∀ a, Steady (step a) fun s => each s a) (l : List α) :
    Steady (l.forM step) fun s => l.foldlM each s := by
  induction l with
  | nil => exact fun s => rfl
  | cons a rest ih =>
    intro s
    change Comes ((step a >>= fun _ => rest.forM step).run s) (each s a >>= fun s => rest.foldlM each s)
    exact (steps a s).bind ih

/-- Writes something at first, and then what a function gives for the state before. -/
def writing (first : σ → σ) (f : σ → Except Fault σ) : InPlace σ Unit := do
  let s ← read id
  modify first
  let s' ← check fun _ => f s
  modify fun _ => s'

/-- What was written at first is written over, or it is left behind by a panic. -/
theorem Steady.writing (first : σ → σ) (panics : ∀ s x, f s = .error x → x.isPanic = true) :
    Steady (writing first f) f := by
  intro s
  rw [InPlace.writing, run_read, run_modify, run_check, id_eq]
  cases given : f s with
  | ok s' => exact rfl
  | error x => exact ⟨panics s x given, rfl⟩

/-! ### Programs that check before they write -/

/-- The program has come to what a function gives. If that is no panic but a fault, the state is as it
was. -/
def Keeps (s : σ) (left : Except Fault α × σ) : Except Fault (α × σ) → Prop
  | .ok (a, s') => left = (.ok a, s')
  | .error x => left.1 = .error x ∧ (x.isPanic = true ∨ left.2 = s)

/-- The program does what a function says, and fails without a trace unless it panics. -/
def Atomic (p : InPlace σ α) (f : σ → Except Fault (α × σ)) : Prop := ∀ s, Keeps s (p.run s) (f s)

theorem Atomic.congr {p : InPlace σ α} {f g : σ → Except Fault (α × σ)} (atomic : Atomic p f)
    (same : ∀ s, f s = g s) : Atomic p g :=
  fun s => same s ▸ atomic s

theorem Atomic.read (f : σ → α) : Atomic (read f) fun s => .ok (f s, s) := fun _ => rfl

/-- A program that fails by panics only, with an answer. What was written before it does not matter. -/
theorem Steady.keeps (steady : Steady p f) (a : α) (s before : σ) :
    Keeps before ((do p; return a : InPlace σ α).run s) (do return (a, ← f s)) := by
  change Keeps before _ (f s >>= fun s' => .ok (a, s'))
  have comes := steady s
  rw [run_bind]
  generalize p.run s = left at comes
  obtain ⟨result, s₁⟩ := left
  cases given : f s with
  | ok s' =>
    rw [given] at comes
    cases comes
    rfl
  | error x =>
    rw [given] at comes
    obtain ⟨panic, failed⟩ := comes
    cases failed
    exact ⟨rfl, Or.inl panic⟩

theorem Steady.atomic (steady : Steady p f) (a : α) :
    Atomic (do p; return a) fun s => do return (a, ← f s) :=
  fun s => steady.keeps a s s

/-- A check before the rest of a program. -/
theorem Atomic.check {p : α → InPlace σ β} {c : σ → Except Fault α} {f : α → σ → Except Fault (β × σ)}
    (then_ : ∀ a, Atomic (p a) (f a)) : Atomic (check c >>= p) fun s => c s >>= fun a => f a s := by
  intro s
  change Keeps s _ (c s >>= fun a => f a s)
  rw [run_check]
  cases c s with
  | ok a => exact then_ a s
  | error x => exact ⟨rfl, Or.inr rfl⟩

/-- A fault that is no panic leaves the state as it was. -/
def Traceless (p : InPlace σ α) : Prop :=
  ∀ s x s', p.run s = (.error x, s') → x.isPanic = false → s' = s

theorem Atomic.traceless {p : InPlace σ α} {f : σ → Except Fault (α × σ)} (atomic : Atomic p f) :
    p.Traceless := by
  intro s x s' failed plain
  have keeps := atomic s
  rw [failed] at keeps
  cases given : f s with
  | ok result =>
    rw [given] at keeps
    cases keeps
  | error y =>
    rw [given] at keeps
    obtain ⟨same, panic | kept⟩ := keeps
    · cases same
      rw [plain] at panic
      cases panic
    · exact kept

end InPlace

/-! ### State behind a lock -/

/-- A write that changes the state in place. -/
def Guarded.writeInPlace {σ α : Type} (g : Guarded σ) (p : InPlace σ α) : Except Fault α × Guarded σ :=
  match g with
  | poisoned => (.error (.ofStorage "lock poisoned"), poisoned)
  | sound s =>
    match p.run s with
    | (.ok a, s) => (.ok a, sound s)
    | (.error x, s) => (.error x, (sound s).afterFault x)

/-- Behind a lock such a program cannot be told from the function. -/
theorem InPlace.Atomic.write {σ α : Type} {p : InPlace σ α} {f : σ → Except Fault (α × σ)}
    (atomic : Atomic p f) (g : Guarded σ) : g.writeInPlace p = g.write f := by
  cases g with
  | poisoned => rfl
  | sound s =>
    have keeps := atomic s
    simp only [Guarded.writeInPlace, Guarded.write]
    generalize p.run s = left at keeps
    obtain ⟨result, s₁⟩ := left
    cases given : f s with
    | ok result =>
      rw [given] at keeps
      cases keeps
      rfl
    | error x =>
      rw [given] at keeps
      obtain ⟨failed, panic | kept⟩ := keeps
      · cases failed
        cases x with
        | panic => rfl
        | _ => cases panic
      · cases failed
        cases kept
        rfl

end WorkflowEngine
