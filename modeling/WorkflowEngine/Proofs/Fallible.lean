/-!
Computations that may fail, taken apart: what went well before, given that the whole went well.
-/

namespace WorkflowEngine.Fallible

universe u v

variable {ε : Type u} {α β γ : Type v}

theorem bind_ok {x : Except ε α} {f : α → Except ε β} {b : β} (h : x >>= f = .ok b) :
    ∃ a, x = .ok a ∧ f a = .ok b := by
  cases x with
  | error e => cases h
  | ok a => exact ⟨a, rfl, h⟩

theorem bind_error {x : Except ε α} {f : α → Except ε β} {e : ε} (h : x >>= f = .error e) :
    x = .error e ∨ ∃ a, x = .ok a ∧ f a = .error e := by
  cases x with
  | error e' =>
    cases h
    exact Or.inl rfl
  | ok a => exact Or.inr ⟨a, rfl, h⟩

theorem mapM_length {f : α → Except ε β} {l : List α} {r : List β} (h : l.mapM f = .ok r) :
    r.length = l.length := by
  induction l generalizing r with
  | nil =>
    cases h
    rfl
  | cons a rest ih =>
    rw [List.mapM_cons] at h
    obtain ⟨b, _, h⟩ := bind_ok h
    obtain ⟨bs, later, h⟩ := bind_ok h
    cases h
    rw [List.length_cons, List.length_cons, ih later]

theorem mem_of_filterMapM {f : α → Except ε (Option β)} {l : List α} {r : List β} {b : β}
    (h : l.filterMapM f = .ok r) (member : b ∈ r) : ∃ a ∈ l, f a = .ok (some b) := by
  induction l generalizing r with
  | nil =>
    cases h
    cases member
  | cons a rest ih =>
    rw [List.filterMapM_cons] at h
    obtain ⟨o, first, h⟩ := bind_ok h
    cases o with
    | none =>
      obtain ⟨a', ha', found⟩ := ih h member
      exact ⟨a', List.mem_cons_of_mem _ ha', found⟩
    | some b' =>
      obtain ⟨bs, later, h⟩ := bind_ok h
      cases h
      rcases List.mem_cons.mp member with rfl | old
      · exact ⟨a, List.mem_cons_self, first⟩
      · obtain ⟨a', ha', found⟩ := ih later old
        exact ⟨a', List.mem_cons_of_mem _ ha', found⟩

theorem filterMapM_ok {f : α → Except ε (Option β)} {l : List α} {r : List β}
    (h : l.filterMapM f = .ok r) : r = l.filterMap fun a => (f a).toOption.join := by
  induction l generalizing r with
  | nil =>
    cases h
    rfl
  | cons a rest ih =>
    rw [List.filterMapM_cons] at h
    obtain ⟨o, first, h⟩ := bind_ok h
    rw [List.filterMap_cons, first]
    cases o with
    | none => exact ih h
    | some b =>
      obtain ⟨bs, later, h⟩ := bind_ok h
      cases h
      exact congrArg (b :: ·) (ih later)

theorem filterMapM_each {f : α → Except ε (Option β)} {l : List α} {r : List β}
    (h : l.filterMapM f = .ok r) : ∀ a ∈ l, ∃ o, f a = .ok o := by
  induction l generalizing r with
  | nil => exact List.forall_mem_nil _
  | cons a rest ih =>
    rw [List.filterMapM_cons] at h
    obtain ⟨o, first, h⟩ := bind_ok h
    refine List.forall_mem_cons.mpr ⟨⟨o, first⟩, ?_⟩
    cases o with
    | none => exact ih h
    | some b =>
      obtain ⟨bs, later, _⟩ := bind_ok h
      exact ih later

theorem filterMapM_total {f : α → Except ε (Option β)} {l : List α}
    (each : ∀ a ∈ l, ∃ o, f a = .ok o) : ∃ r, l.filterMapM f = .ok r := by
  induction l with
  | nil => exact ⟨[], rfl⟩
  | cons a rest ih =>
    obtain ⟨⟨o, first⟩, others⟩ := List.forall_mem_cons.mp each
    obtain ⟨bs, later⟩ := ih others
    rw [List.filterMapM_cons, first, later]
    cases o with
    | none => exact ⟨bs, rfl⟩
    | some b => exact ⟨b :: bs, rfl⟩

theorem forM_ok {f : α → Except ε PUnit} {l : List α} {u : PUnit} (h : l.forM f = .ok u) :
    ∀ a ∈ l, f a = .ok ⟨⟩ := by
  induction l with
  | nil => exact List.forall_mem_nil _
  | cons a rest ih =>
    obtain ⟨_, first, later⟩ := bind_ok h
    exact List.forall_mem_cons.mpr ⟨first, ih later⟩

/-- What holds at the start of a fold and is kept by each of its steps holds at its end. -/
theorem foldlM_ok {f : β → α → Except ε β} {P : β → Prop} {l : List α} {b r : β}
    (h : l.foldlM f b = .ok r) (start : P b)
    (step : ∀ b, ∀ a ∈ l, ∀ r, P b → f b a = .ok r → P r) : P r := by
  induction l generalizing b with
  | nil =>
    cases h
    exact start
  | cons a rest ih =>
    rw [List.foldlM_cons] at h
    obtain ⟨c, first, h⟩ := bind_ok h
    exact ih h (step b a List.mem_cons_self c start first)
      fun b a member => step b a (List.mem_cons_of_mem _ member)

/-- What each step brings about, and every later one keeps, holds of all at the end. -/
theorem foldlM_each {f : β → α → Except ε β} {P : β → Prop} {Q : α → β → Prop} {l : List α} {b r : β}
    (h : l.foldlM f b = .ok r) (start : P b)
    (step : ∀ b, ∀ a ∈ l, ∀ r, P b → f b a = .ok r → P r ∧ Q a r ∧ ∀ a', Q a' b → Q a' r) :
    ∀ a ∈ l, Q a r := by
  induction l generalizing b with
  | nil => exact List.forall_mem_nil _
  | cons a rest ih =>
    rw [List.foldlM_cons] at h
    obtain ⟨c, first, later⟩ := bind_ok h
    obtain ⟨kept, here, -⟩ := step b a List.mem_cons_self c start first
    have step' := fun b a member => step b a (List.mem_cons_of_mem _ member)
    have still := foldlM_ok (P := fun r => P r ∧ Q a r) later ⟨kept, here⟩
      fun b a' member r before done =>
        have ⟨kept, _, keeps⟩ := step' b a' member r before.1 done
        ⟨kept, keeps a before.2⟩
    exact List.forall_mem_cons.mpr ⟨still.2, ih later kept step'⟩

/-- A fold goes well if each of its steps does, given what the steps before have kept. -/
theorem foldlM_total {f : β → α → Except ε β} {P : β → Prop} {l : List α} {b : β} (start : P b)
    (step : ∀ b, ∀ a ∈ l, P b → ∃ r, f b a = .ok r ∧ P r) : ∃ r, l.foldlM f b = .ok r ∧ P r := by
  induction l generalizing b with
  | nil => exact ⟨b, rfl, start⟩
  | cons a rest ih =>
    obtain ⟨c, first, kept⟩ := step b a List.mem_cons_self start
    rw [List.foldlM_cons, first]
    exact ih kept fun b a member => step b a (List.mem_cons_of_mem _ member)

/-- A fold that fails does so in one of its steps. -/
theorem foldlM_error {f : β → α → Except ε β} {P : ε → Prop} {l : List α} {b : β} {e : ε}
    (h : l.foldlM f b = .error e) (step : ∀ b, ∀ a ∈ l, ∀ e, f b a = .error e → P e) : P e := by
  induction l generalizing b with
  | nil => cases h
  | cons a rest ih =>
    rw [List.foldlM_cons] at h
    rcases bind_error h with first | ⟨c, _, later⟩
    · exact step b a List.mem_cons_self e first
    · exact ih later fun b a member => step b a (List.mem_cons_of_mem _ member)

end WorkflowEngine.Fallible
