import Mathlib.Data.List.Perm.Subperm
import Mathlib.Data.String.Basic
import WorkflowEngine.ReadModel.Dedup

/-!
The memory of the events written last. Its keys tell events apart, and what it spares the log was
written before: all else is written, each event once.
-/

namespace WorkflowEngine

/-! ### Keys -/

theorem natText_digits (n : Nat) : ∀ c ∈ n.repr.toList, c.isDigit = true := by
  intro c hc
  rw [Nat.repr, String.toList_ofList] at hc
  exact Nat.isDigit_of_mem_toDigits (by decide) (by decide) hc

theorem natText_injective {m n : Nat} (h : m.repr = n.repr) : m = n := by
  have digits : Nat.toDigits 10 m = Nat.toDigits 10 n := String.ofList_injective h
  rw [← Nat.ofDigitChars_ten_toDigits (n := m), digits, Nat.ofDigitChars_ten_toDigits]

theorem intText_injective {a b : Int} (h : toString a = toString b) : a = b := by
  have unsigned : ∀ m n : Nat, m.repr ≠ "-" ++ n.repr := by
    intro m n same
    have sign : '-' ∈ m.repr.toList := by simp [same]
    exact absurd (natText_digits m '-' sign) (by decide)
  cases a with
  | ofNat m =>
    cases b with
    | ofNat n => exact congrArg Int.ofNat (natText_injective h)
    | negSucc n => exact absurd h (unsigned m (n + 1))
  | negSucc m =>
    cases b with
    | ofNat n => exact absurd h.symm (unsigned n (m + 1))
    | negSucc n =>
      have number : (m + 1).repr = (n + 1).repr := (String.append_right_inj "-").mp h
      exact congrArg Int.negSucc (Nat.succ.inj (natText_injective number))

/-- The text of an integer holds no capital letter. -/
theorem intText_plain (n : Int) : ∀ c ∈ (toString n).toList, c.isUpper = false := by
  have digit : ∀ c : Char, c.isDigit = true → c.isUpper = false := by
    intro c digit
    by_contra upper
    rw [Bool.not_eq_false] at upper
    have capital : 65 ≤ c.val ∧ c.val ≤ 90 := of_decide_eq_true upper
    simp only [Char.isDigit, Bool.and_eq_true, decide_eq_true_eq] at digit
    exact absurd (UInt32.le_trans capital.1 digit.2) (by decide)
  intro c hc
  cases n with
  | ofNat m => exact digit c (natText_digits m c hc)
  | negSucc m =>
    change c ∈ ("-" ++ m.succ.repr).toList at hc
    rw [String.toList_append] at hc
    rcases List.mem_append.mp hc with sign | rest
    · rw [List.mem_singleton.mp sign]
      rfl
    · exact digit c (natText_digits _ c rest)

theorem EventType.name_chars (type : EventType) :
    (∀ c ∈ type.name.toList.head?, c.isUpper = true) ∧ type.name.toList ≠ [] ∧
      ∀ c ∈ type.name.toList, (c != '-') = true := by
  cases type <;> simp only [EventType.name] <;> simp

theorem EventType.name_injective {a b : EventType} (h : a.name = b.name) : a = b := by
  cases a <;> cases b <;> first | rfl | exact absurd h (by decide)

/-- A list is taken apart where a mark stands for the first time. -/
theorem append_cut {α : Type} {p : α → Bool} {xs xs' ys ys' : List α} (inside : ∀ a ∈ xs, p a = true)
    (inside' : ∀ a ∈ xs', p a = true) (mark : ∀ a ∈ ys.head?, p a = false)
    (mark' : ∀ a ∈ ys'.head?, p a = false) (h : xs ++ ys = xs' ++ ys') : xs = xs' ∧ ys = ys' := by
  have taken : ∀ {xs ys : List α}, (∀ a ∈ xs, p a = true) → (∀ a ∈ ys.head?, p a = false) →
      (xs ++ ys).takeWhile p = xs := by
    intro xs ys inside mark
    rw [List.takeWhile_append_of_pos inside]
    cases ys with
    | nil => simp
    | cons a rest => simp [mark a rfl]
  have same : xs = xs' := by rw [← taken inside mark, h, taken inside' mark']
  exact ⟨same, List.append_cancel_left (same ▸ h)⟩

/-- Events of one key are of one task, one type and one attempt. -/
theorem TaskEvent.dedupKey_same {a b : TaskEvent} (h : a.dedupKey = b.dedupKey) :
    a.taskId = b.taskId ∧ a.eventType = b.eventType ∧ a.retryCount = b.retryCount := by
  have chars : ∀ e : TaskEvent, e.dedupKey.toList =
      ((toString e.taskId).toList ++ ['-']) ++
        (e.eventType.name.toList ++ ('-' :: (toString e.retryCount).toList)) := by
    intro e
    have text : ∀ s : String, toString s = s := fun _ => rfl
    simp [dedupKey, text]
  have whole : a.dedupKey.toList = b.dedupKey.toList := congrArg _ h
  rw [chars, chars] at whole
  have lead : ∀ (n : Int), ∀ c ∈ (toString n).toList ++ ['-'], (!c.isUpper) = true := by
    intro n c hc
    rcases List.mem_append.mp hc with number | mark
    · rw [intText_plain n c number]
      rfl
    · rw [List.mem_singleton.mp mark]
      rfl
  have capital : ∀ (type : EventType) (rest : List Char),
      ∀ c ∈ (type.name.toList ++ rest).head?, (!c.isUpper) = false := by
    intro type rest c hc
    rw [List.head?_append_of_ne_nil _ type.name_chars.2.1] at hc
    rw [type.name_chars.1 c hc]
    rfl
  obtain ⟨number, rest⟩ := append_cut (lead _) (lead _) (capital _ _) (capital _ _) whole
  obtain ⟨name, attempt⟩ := append_cut (p := (· != '-')) a.eventType.name_chars.2.2
    b.eventType.name_chars.2.2 (by simp) (by simp) rest
  refine ⟨intText_injective (String.toList_injective (List.append_cancel_right number)), ?_, ?_⟩
  · exact EventType.name_injective (String.toList_injective name)
  · exact intText_injective (String.toList_injective (List.cons.inj attempt).2)

/-- What tells an event from others: its task, its type and its attempt. -/
def TaskEvent.identity (e : TaskEvent) : TaskId × EventType × Int := (e.taskId, e.eventType, e.retryCount)

/-- The key of events of one identity. -/
def identityKey (identity : TaskId × EventType × Int) : String :=
  s!"{identity.1}-{identity.2.1.name}-{identity.2.2}"

theorem TaskEvent.identity_of_key {a b : TaskEvent} (h : a.dedupKey = b.dedupKey) :
    a.identity = b.identity := by
  obtain ⟨task, type, attempt⟩ := dedupKey_same h
  rw [identity, identity, task, type, attempt]

/-! ### The memory -/

namespace DedupCache

variable {c : DedupCache} {events : List TaskEvent} {key : String}

/-- What is kept back, and what is not. -/
structure Sifted (c : DedupCache) (batch : List String) (events : List TaskEvent)
    (result : List TaskEvent × DedupCache) : Prop where
  fresh : ∀ e ∈ result.1, e ∈ events
  known : ∀ e ∈ events, e.dedupKey ∈ c.keys ∨ e.dedupKey ∈ batch ∨
    ∃ e' ∈ result.1, e'.dedupKey = e.dedupKey
  keys : ∀ key ∈ result.2.keys, key ∈ c.keys

theorem mem_touch (h : key ∈ c.keys) (other : String) : other ∈ (c.touch key).keys ↔ other ∈ c.keys := by
  by_cases same : other = key
  · simp [touch, same, h]
  · simp [touch, same, List.mem_erase_of_ne]

theorem unseen_sifted (c : DedupCache) (batch : List String) (events : List TaskEvent) :
    Sifted c batch events (unseen.go c batch events) := by
  induction events generalizing c batch with
  | nil => exact ⟨fun _ => id, fun _ h => absurd h List.not_mem_nil, fun _ => id⟩
  | cons e rest ih =>
    unfold unseen.go
    split
    · rename_i met
      have here : e.dedupKey ∈ c.keys := by simpa using met
      obtain ⟨fresh, known, keys⟩ := ih (c.touch e.dedupKey) batch
      refine ⟨fun x hx => List.mem_cons_of_mem _ (fresh x hx), ?_, ?_⟩
      · intro x hx
        rcases List.mem_cons.mp hx with rfl | later
        · exact Or.inl here
        · exact (known x later).imp_left (mem_touch here _).mp
      · exact fun key hkey => (mem_touch here key).mp (keys key hkey)
    · split
      · rename_i twice
        have here : e.dedupKey ∈ batch := by simpa using twice
        obtain ⟨fresh, known, keys⟩ := ih c batch
        refine ⟨fun x hx => List.mem_cons_of_mem _ (fresh x hx), ?_, keys⟩
        intro x hx
        rcases List.mem_cons.mp hx with rfl | later
        · exact Or.inr (Or.inl here)
        · exact known x later
      · obtain ⟨fresh, known, keys⟩ := ih c (e.dedupKey :: batch)
        refine ⟨?_, ?_, keys⟩
        · intro x hx
          rcases List.mem_cons.mp hx with rfl | later
          · exact List.mem_cons_self
          · exact List.mem_cons_of_mem _ (fresh x later)
        · intro x hx
          rcases List.mem_cons.mp hx with rfl | later
          · exact Or.inr (Or.inr ⟨x, List.mem_cons_self, rfl⟩)
          · rcases known x later with old | now | ⟨x', hx', same⟩
            · exact Or.inl old
            · rcases List.mem_cons.mp now with this | before
              · exact Or.inr (Or.inr ⟨e, List.mem_cons_self, this.symm⟩)
              · exact Or.inr (Or.inl before)
            · exact Or.inr (Or.inr ⟨x', List.mem_cons_of_mem _ hx', same⟩)

theorem mem_remember (h : key ∈ (c.remember events).keys) :
    key ∈ c.keys ∨ ∃ e ∈ events, e.dedupKey = key := by
  induction events generalizing c with
  | nil => exact Or.inl h
  | cons e rest ih =>
    rcases ih h with put | ⟨x, hx, same⟩
    · rcases List.mem_cons.mp (List.mem_of_mem_take put) with rfl | old
      · exact Or.inr ⟨e, List.mem_cons_self, rfl⟩
      · exact Or.inl (List.mem_of_mem_erase old)
    · exact Or.inr ⟨x, List.mem_cons_of_mem _ hx, same⟩

/-- What is let through has keys that were not there, each once, and the memory keeps what it has. -/
structure Apart (c : DedupCache) (batch : List String) (result : List TaskEvent × DedupCache) :
    Prop where
  distinct : (result.1.map (·.dedupKey)).Nodup
  unknown : ∀ e ∈ result.1, e.dedupKey ∉ c.keys ∧ e.dedupKey ∉ batch
  keys : result.2.keys.Perm c.keys
  capacity : result.2.capacity = c.capacity

theorem unseen_apart (c : DedupCache) (batch : List String) (events : List TaskEvent) :
    Apart c batch (unseen.go c batch events) := by
  induction events generalizing c batch with
  | nil => exact ⟨.nil, by simp [unseen.go], .refl _, rfl⟩
  | cons e rest ih =>
    unfold unseen.go
    split
    · rename_i met
      have here : e.dedupKey ∈ c.keys := by simpa using met
      obtain ⟨distinct, unknown, keys, capacity⟩ := ih (c.touch e.dedupKey) batch
      refine ⟨distinct, fun x hx => ?_, keys.trans (List.perm_cons_erase here).symm, capacity⟩
      have ⟨new, other⟩ := unknown x hx
      exact ⟨fun old => new ((mem_touch here _).mpr old), other⟩
    · rename_i missing
      split
      · exact ih c batch
      · rename_i first
        obtain ⟨distinct, unknown, keys, capacity⟩ := ih c (e.dedupKey :: batch)
        refine ⟨?_, ?_, keys, capacity⟩
        · refine List.nodup_cons.mpr ⟨fun again => ?_, distinct⟩
          obtain ⟨x, hx, same⟩ := List.mem_map.mp again
          exact (unknown x hx).2 (same ▸ List.mem_cons_self)
        · intro x hx
          rcases List.mem_cons.mp hx with rfl | later
          · exact ⟨by simpa using missing, by simpa using first⟩
          · have ⟨new, other⟩ := unknown x later
            exact ⟨new, fun old => other (List.mem_cons_of_mem _ old)⟩

theorem unseen_new {e : TaskEvent} (new : e.dedupKey ∉ c.keys) : c.unseen [e] = ([e], c) := by
  simp [unseen, unseen.go, new]

/-! ### Room for all keys -/

/-- Only keys of a list are kept, and there is room for all of it. -/
structure Roomy (c : DedupCache) (all : List String) : Prop where
  nodup : c.keys.Nodup
  within : c.keys ⊆ all
  room : all.length ≤ c.capacity

variable {all : List String}

/-- Nothing gives way to a key of the list. -/
theorem put_room (roomy : c.Roomy all) (listed : key ∈ all) :
    (c.put key).keys = key :: c.keys.erase key := by
  have nodup : (key :: c.keys.erase key).Nodup :=
    List.nodup_cons.mpr ⟨roomy.nodup.not_mem_erase, roomy.nodup.erase key⟩
  have within : key :: c.keys.erase key ⊆ all :=
    List.cons_subset.mpr ⟨listed, fun _ old => roomy.within (List.mem_of_mem_erase old)⟩
  have few := (nodup.subperm within).length_le
  exact List.take_of_length_le (few.trans roomy.room)

theorem mem_put_room (roomy : c.Roomy all) (listed : key ∈ all) (other : String) :
    other ∈ (c.put key).keys ↔ other = key ∨ other ∈ c.keys := by
  rw [put_room roomy listed, List.mem_cons, roomy.nodup.mem_erase_iff]
  tauto

theorem Roomy.put (roomy : c.Roomy all) (listed : key ∈ all) : (c.put key).Roomy all := by
  refine ⟨?_, fun other member => ?_, roomy.room⟩
  · rw [put_room roomy listed]
    exact List.nodup_cons.mpr ⟨roomy.nodup.not_mem_erase, roomy.nodup.erase key⟩
  · rcases (mem_put_room roomy listed other).mp member with rfl | old
    · exact listed
    · exact roomy.within old

theorem Roomy.remember (roomy : c.Roomy all) (listed : ∀ e ∈ events, e.dedupKey ∈ all) :
    (c.remember events).Roomy all ∧
      ∀ e : TaskEvent, (e.dedupKey ∈ c.keys ∨ e ∈ events) → e.dedupKey ∈ (c.remember events).keys := by
  induction events generalizing c with
  | nil => exact ⟨roomy, fun e h => h.resolve_right List.not_mem_nil⟩
  | cons x rest ih =>
    obtain ⟨first, later⟩ := List.forall_mem_cons.mp listed
    obtain ⟨still, kept⟩ := ih (roomy.put first) later
    refine ⟨still, fun e h => kept e ?_⟩
    rw [mem_put_room roomy first]
    rcases h with old | new
    · exact Or.inl (Or.inr old)
    · rcases List.mem_cons.mp new with rfl | late
      · exact Or.inl (Or.inl rfl)
      · exact Or.inr late

end DedupCache

end WorkflowEngine
