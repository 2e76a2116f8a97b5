import WorkflowEngine.Ascending

/-!
What `Ascending.put` keeps: the new element is there, nothing else is new, and of the old elements
only one with the key of the new one gives way.
-/

namespace WorkflowEngine.Ascending

variable {α : Type} {before : α → α → Bool} {a x : α} {l : List α}

theorem mem_put_self : a ∈ put before a l := by
  induction l with
  | nil => simp [put]
  | cons b rest ih =>
    unfold put
    split
    · simp
    · split
      · exact List.mem_cons_of_mem _ ih
      · simp

theorem mem_of_mem_put (h : x ∈ put before a l) : x = a ∨ x ∈ l := by
  induction l with
  | nil => simpa [put] using h
  | cons b rest ih =>
    unfold put at h
    split at h
    · simpa using h
    · split at h
      · rcases List.mem_cons.mp h with same | later
        · exact Or.inr (same ▸ List.mem_cons_self)
        · exact (ih later).imp id (List.mem_cons_of_mem _)
      · rcases List.mem_cons.mp h with same | later
        · exact Or.inl same
        · exact Or.inr (List.mem_cons_of_mem _ later)

/-- An element whose key is not the new one's stays. -/
theorem mem_put_of_mem (h : x ∈ l) (apart : before a x = true ∨ before x a = true) :
    x ∈ put before a l := by
  induction l with
  | nil => cases h
  | cons b rest ih =>
    unfold put
    split
    · exact List.mem_cons_of_mem _ h
    · rename_i notBefore
      rcases List.mem_cons.mp h with rfl | later
      · rw [if_pos (apart.resolve_left notBefore)]
        exact List.mem_cons_self
      · split
        · exact List.mem_cons_of_mem _ (ih later)
        · exact List.mem_cons_of_mem _ later

/-- A sorted list stays sorted, as elements of which neither comes before the other have one key. -/
theorem put_pairwise (trans : ∀ b c : α, before a b = true → before b c = true → before a c = true)
    (level : ∀ b c : α, before a b = false → before b a = false → before b c = true → before a c = true)
    (sorted : l.Pairwise fun b c => before b c = true) :
    (put before a l).Pairwise fun b c => before b c = true := by
  induction l with
  | nil => simp [put]
  | cons b rest ih =>
    obtain ⟨first, sorted⟩ := List.pairwise_cons.mp sorted
    unfold put
    split
    · rename_i less
      refine List.pairwise_cons.mpr ⟨?_, List.pairwise_cons.mpr ⟨first, sorted⟩⟩
      intro c member
      rcases List.mem_cons.mp member with rfl | later
      · exact less
      · exact trans b c less (first c later)
    · rename_i notLess
      split
      · rename_i greater
        refine List.pairwise_cons.mpr ⟨?_, ih sorted⟩
        intro c member
        rcases mem_of_mem_put member with rfl | later
        · exact greater
        · exact first c later
      · rename_i notGreater
        refine List.pairwise_cons.mpr ⟨fun c later => ?_, sorted⟩
        exact level b c (by simpa using notLess) (by simpa using notGreater) (first c later)

/-! ### Looking up a key -/

section Lookup

variable {κ : Type} [BEq κ] [LawfulBEq κ] {key : α → κ} {k : κ} {l' : List α}
  (apart : ∀ b c, before b c = true ∨ before c b = true ↔ key b ≠ key c)
include apart

theorem find?_put :
    (put before a l).find? (key · == k) = if key a == k then some a else l.find? (key · == k) := by
  induction l with
  | nil => cases same : key a == k <;> simp [put, same]
  | cons b rest ih =>
    unfold put
    split
    · cases same : key a == k <;> simp [same]
    · rename_i notBefore
      split
      · rename_i after
        have other : key b ≠ key a := (apart b a).mp (Or.inl after)
        rw [List.find?_cons, ih, List.find?_cons]
        cases here : key b == k with
        | false => rfl
        | true =>
          have absent : (key a == k) = false :=
            beq_false_of_ne fun same => other ((eq_of_beq here).trans same.symm)
          rw [absent]
          rfl
      · rename_i notAfter
        have same : key a = key b := by
          cases equal : key a == key b with
          | true => exact eq_of_beq equal
          | false => exact (((apart a b).mpr (ne_of_beq_false equal)).elim notBefore notAfter).elim
        cases here : key a == k <;> simp [here, ← same]

/-- Behind a sequence of puts a key has the last element that was put for it. -/
theorem find?_foldl_put (xs : List α) : (xs.foldl (fun l x => put before x l) l).find? (key · == k) =
    (xs.reverse.find? (key · == k)).or (l.find? (key · == k)) := by
  induction xs generalizing l with
  | nil => rfl
  | cons x rest ih =>
    rw [List.foldl_cons, ih, find?_put apart, List.reverse_cons, List.find?_append, Option.or_assoc]
    cases here : key x == k <;> simp [here]

theorem find?_later (first : ∀ b ∈ l, before a b = true) : l.find? (key · == key a) = none := by
  rw [List.find?_eq_none]
  intro b hb same
  exact (apart a b).mp (Or.inl (first b hb)) (eq_of_beq same).symm

/-- A sorted list is known by its lookups. -/
theorem eq_of_find? (asymm : ∀ b c, before b c = true → before c b = false)
    (sorted : l.Pairwise fun b c => before b c = true)
    (sorted' : l'.Pairwise fun b c => before b c = true)
    (same : ∀ k, l.find? (key · == k) = l'.find? (key · == k)) : l = l' := by
  induction l generalizing l' with
  | nil =>
    cases l' with
    | nil => rfl
    | cons c rest' => simpa using same (key c)
  | cons b rest ih =>
    cases l' with
    | nil => simpa using same (key b)
    | cons c rest' =>
      obtain ⟨first, rest_sorted⟩ := List.pairwise_cons.mp sorted
      obtain ⟨first', rest_sorted'⟩ := List.pairwise_cons.mp sorted'
      have here := same (key b)
      simp only [List.find?_cons, beq_self_eq_true] at here
      cases heads : key c == key b with
      | false =>
        -- Each of the two heads would come before the other.
        have here' := same (key c)
        have other : (key b == key c) = false :=
          beq_false_of_ne fun equal => ne_of_beq_false heads equal.symm
        simp only [heads] at here
        simp only [List.find?_cons, beq_self_eq_true, other] at here'
        have less := first' b (List.mem_of_find?_eq_some here.symm)
        rw [asymm b c (first c (List.mem_of_find?_eq_some here'))] at less
        cases less
      | true =>
        simp only [heads] at here
        obtain rfl := Option.some.inj here
        refine congrArg (b :: ·) (ih rest_sorted rest_sorted' fun k => ?_)
        cases mine : key b == k with
        | true => rw [← eq_of_beq mine, find?_later apart first, find?_later apart first']
        | false => simpa only [List.find?_cons, mine] using same k

/-- What was put is not changed by putting it again, all of it in the same order. -/
theorem foldl_put_again (asymm : ∀ b c, before b c = true → before c b = false)
    (placed : ∀ x (l : List α), (l.Pairwise fun b c => before b c = true) →
      (put before x l).Pairwise fun b c => before b c = true)
    (xs : List α) (sorted : l.Pairwise fun b c => before b c = true) :
    xs.foldl (fun l x => put before x l) (xs.foldl (fun l x => put before x l) l) =
      xs.foldl (fun l x => put before x l) l := by
  have keeps {l : List α} (sorted : l.Pairwise fun b c => before b c = true) :
      (xs.foldl (fun l x => put before x l) l).Pairwise fun b c => before b c = true :=
    List.foldlRecOn xs _ sorted fun l kept x _ => placed x l kept
  refine eq_of_find? apart asymm (keeps (keeps sorted)) (keeps sorted) fun k => ?_
  rw [find?_foldl_put apart, find?_foldl_put apart, ← Option.or_assoc, Option.or_self]

end Lookup

/-! ### Numbers as keys -/

variable {key : α → Int}

theorem put_key_pairwise (sorted : l.Pairwise fun b c => key b < key c) :
    (put (fun b c => decide (key b < key c)) a l).Pairwise fun b c => key b < key c := by
  have placed : (put (fun b c => decide (key b < key c)) a l).Pairwise
      fun b c => decide (key b < key c) = true := by
    refine put_pairwise ?_ ?_ (sorted.imp decide_eq_true)
    · simp only [decide_eq_true_eq]
      exact fun _ _ => Int.lt_trans
    · simp only [decide_eq_true_eq, decide_eq_false_iff_not, Int.not_lt]
      exact fun _ _ _ le less => Int.lt_of_le_of_lt le less
  exact placed.imp of_decide_eq_true

/-- An element with a new key comes between the others. -/
theorem put_key_split (fresh : ∀ b ∈ l, key b ≠ key a) : ∃ first rest, l = first ++ rest ∧
    put (fun b c => decide (key b < key c)) a l = first ++ a :: rest := by
  induction l with
  | nil => exact ⟨[], [], rfl, rfl⟩
  | cons b rest ih =>
    obtain ⟨head, tail⟩ := List.forall_mem_cons.mp fresh
    simp only [put, decide_eq_true_eq]
    split
    · exact ⟨[], b :: rest, rfl, rfl⟩
    · rename_i notBefore
      rw [if_pos (Int.lt_iff_le_and_ne.mpr ⟨Int.not_lt.mp notBefore, head⟩)]
      obtain ⟨first, last, split, placed⟩ := ih tail
      exact ⟨b :: first, last, congrArg (b :: ·) split, congrArg (b :: ·) placed⟩

end WorkflowEngine.Ascending
