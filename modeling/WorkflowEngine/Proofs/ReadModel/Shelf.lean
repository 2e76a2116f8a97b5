import WorkflowEngine.Proofs.ReadModel.Runs

/-!
A table of tasks or of runs with its side tables: what stands in it for which day, the index of external
ids, and the moments of ending. Both tables are changed in the same three ways: rows are placed, moments
of ending come and go, and the days turn. Whatever is indexed has its row after each of them.
-/

namespace WorkflowEngine

/-! ### Indexes -/

section Index

variable {κ α : Type} [DecidableEq κ] {key k : κ} {value : α} {index : List (κ × α)}

/-- Entries that go by their keys are not missed under the other keys. -/
theorem findKey?_filter (keep : κ → Bool) (kept : keep k = true) :
    findKey? k (index.filter fun e => keep e.1) = findKey? k index := by
  have same : (fun e : κ × α => decide (keep e.1 = true ∧ (e.1 == k) = true)) = (·.1 == k) := by
    funext e
    by_cases here : e.1 = k
    · simp [here, kept]
    · simp [here]
  rw [findKey?, findKey?, List.find?_filter, same]

theorem findKey?_put_self : findKey? key (putKey key value index) = some value := by
  simp [findKey?, putKey]

theorem findKey?_put_ne (other : k ≠ key) : findKey? k (putKey key value index) = findKey? k index := by
  have skipped : (key == k) = false := by simpa using Ne.symm other
  rw [findKey?, putKey, List.find?_cons, skipped]
  exact findKey?_filter (· != key) (by simpa using other)

theorem mem_putKey {e : κ × α} (member : e ∈ putKey key value index) : e = (key, value) ∨ e ∈ index :=
  (List.mem_cons.mp member).imp_right fun kept => (List.mem_filter.mp kept).1

end Index

/-! ### Ascending days -/

variable {d e : Date} {l : List Date}

theorem insertDate_put (d : Date) (l : List Date) :
    insertDate d l = Ascending.put (fun a b => decide (a.day < b.day)) d l := by
  induction l with
  | nil => rfl
  | cons e rest ih =>
    rw [insertDate, Ascending.put, ih]
    simp only [decide_eq_true_eq]
    change (if d.day < e.day then _ else _) = _
    split
    · rfl
    · split
      · rename_i same
        rw [same, if_neg (Int.lt_irrefl _)]
      · rename_i notBefore other
        have differ : d.day ≠ e.day := fun same => other (congrArg Date.mk same)
        rw [if_pos (by omega)]

theorem mem_insertDate : e ∈ insertDate d l ↔ e = d ∨ e ∈ l := by
  rw [insertDate_put]
  constructor
  · exact Ascending.mem_of_mem_put
  · rintro (rfl | old)
    · exact Ascending.mem_put_self
    · by_cases same : e.day = d.day
      · rw [show e = d from congrArg Date.mk same]
        exact Ascending.mem_put_self
      · refine Ascending.mem_put_of_mem old ?_
        simp only [decide_eq_true_eq]
        omega

theorem mem_insertDates {ds : List Date} :
    e ∈ ds.foldl (fun l d => insertDate d l) l ↔ e ∈ ds ∨ e ∈ l := by
  induction ds generalizing l with
  | nil => simp
  | cons d rest ih =>
    rw [List.foldl_cons, ih, mem_insertDate, List.mem_cons]
    tauto

/-! ### Shelves -/

/-- What the side tables know of a row. -/
structure Face where
  id : Int
  externalId : ExternalId
  day : Date
  deriving DecidableEq

/-- A table split by days, with its side tables. -/
structure Shelf where
  faces : List Face
  index : List (ExternalId × Int)
  ended : List Int
  days : List Date

namespace Shelf

variable {s s' : Shelf} {f g : Face}

/-- Places a row, unless there is one with its id. -/
def place (s : Shelf) (f : Face) : Shelf :=
  if s.faces.any (·.id == f.id) then s
  else { s with
    faces := Ascending.put (fun a b => decide (a.id < b.id)) f s.faces
    index := putKey f.externalId f.id s.index }

/-- Adds days, and removes days with their rows. -/
def turn (s : Shelf) (created dropped : List Date) : Shelf :=
  let gone := s.faces.filter (dropped.contains ·.day)
  { faces := s.faces.filter (!dropped.contains ·.day)
    index := s.index.filter fun e => !gone.any (·.externalId == e.1)
    ended := s.ended.filter fun i => !gone.any (·.id == i)
    days := (created.foldl (fun l d => insertDate d l) s.days).filter (!dropped.contains ·) }

/-- What may happen to a shelf at once. -/
inductive Change (s : Shelf) : Shelf → Prop where
  | placed (fs : List Face) (housed : ∀ f ∈ fs, f.day ∈ s.days) : Change s (fs.foldl place s)
  | ended (ids : List Int) (known : ∀ i ∈ ids, i ∈ s.ended ∨ ∃ f ∈ s.faces, f.id = i) :
      Change s { s with ended := ids }
  | turned (created dropped : List Date) : Change s (s.turn created dropped)

theorem Change.refl (s : Shelf) : Change s s := .ended s.ended fun _ => Or.inl

/-- Rows stand for days that are there, and the side tables tell of rows that are there. -/
structure Sound (s : Shelf) : Prop where
  housed : ∀ f ∈ s.faces, f.day ∈ s.days
  indexed : ∀ e ∈ s.index, ∃ f ∈ s.faces, f.id = e.2 ∧ f.externalId = e.1
  ended : ∀ i ∈ s.ended, ∃ f ∈ s.faces, f.id = i

/-- No two rows have one external id. -/
def Distinct (s : Shelf) : Prop := (s.faces.map (·.externalId)).Nodup

/-- Every row is found in the index. -/
def Found (s : Shelf) : Prop := ∀ f ∈ s.faces, findKey? f.externalId s.index = some f.id

/-! ### Rows that are placed -/

theorem place_days : (s.place f).days = s.days := by
  unfold place
  split <;> rfl

theorem place_sublist : s.faces.Sublist (s.place f).faces := by
  unfold place
  split
  · exact List.Sublist.refl _
  · rename_i fresh
    have absent : ∀ g ∈ s.faces, g.id ≠ f.id := by simpa using fresh
    obtain ⟨first, rest, split, put⟩ := Ascending.put_key_split absent
    simp only [put]
    rw [split]
    exact (List.Sublist.refl first).append (List.sublist_cons_self f rest)

theorem places_sublist (fs : List Face) : s.faces.Sublist (fs.foldl place s).faces := by
  induction fs generalizing s with
  | nil => exact List.Sublist.refl _
  | cons f rest ih => exact place_sublist.trans ih

theorem Sound.place (sound : s.Sound) (housed : f.day ∈ s.days) : (s.place f).Sound := by
  have more : s.faces ⊆ (s.place f).faces := place_sublist.subset
  refine ⟨?_, ?_, ?_⟩
  · rw [place_days]
    intro g member
    unfold Shelf.place at member
    split at member
    · exact sound.housed g member
    · rcases Ascending.mem_of_mem_put member with rfl | old
      · exact housed
      · exact sound.housed g old
  · have old : ∀ e ∈ s.index, ∃ g ∈ (s.place f).faces, g.id = e.2 ∧ g.externalId = e.1 := fun e he =>
      let ⟨g, hg, same⟩ := sound.indexed e he
      ⟨g, more hg, same⟩
    intro e he
    unfold Shelf.place at he old ⊢
    split at he
    · rename_i known
      rw [if_pos known] at old ⊢
      exact old e he
    · rename_i fresh
      rw [if_neg fresh] at old ⊢
      rcases mem_putKey he with rfl | kept
      · exact ⟨f, Ascending.mem_put_self, rfl, rfl⟩
      · exact old e kept
  · intro i hi
    have before : i ∈ s.ended := by
      unfold Shelf.place at hi
      split at hi <;> exact hi
    obtain ⟨g, hg, same⟩ := sound.ended i before
    exact ⟨g, more hg, same⟩

theorem Sound.places (sound : s.Sound) {fs : List Face} (housed : ∀ f ∈ fs, f.day ∈ s.days) :
    (fs.foldl Shelf.place s).Sound := by
  induction fs generalizing s with
  | nil => exact sound
  | cons f rest ih =>
    obtain ⟨first, rest⟩ := List.forall_mem_cons.mp housed
    refine ih (sound.place first) ?_
    rwa [place_days]

/-- The entry of a row that is placed takes the place of no other row's. -/
theorem Found.place (found : s.Found) (distinct : (s.place f).Distinct) : (s.place f).Found := by
  unfold Shelf.place at distinct ⊢
  split
  · exact found
  · rename_i fresh
    rw [if_neg fresh] at distinct
    intro g member
    rcases Ascending.mem_of_mem_put member with rfl | old
    · exact findKey?_put_self
    · have absent : ∀ g ∈ s.faces, g.id ≠ f.id := by simpa using fresh
      have other : g.externalId ≠ f.externalId := fun same =>
        absent g old (congrArg Face.id
          (List.inj_on_of_nodup_map distinct member Ascending.mem_put_self same))
      exact (findKey?_put_ne other).trans (found g old)

theorem Found.places (found : s.Found) {fs : List Face} (distinct : (fs.foldl Shelf.place s).Distinct) :
    (fs.foldl Shelf.place s).Found := by
  induction fs generalizing s with
  | nil => exact found
  | cons f rest ih =>
    exact ih (found.place (distinct.sublist ((places_sublist rest).map _))) distinct

/-! ### Days that turn -/

variable {created dropped : List Date}

theorem mem_turn : f ∈ (s.turn created dropped).faces ↔ f ∈ s.faces ∧ f.day ∉ dropped := by
  simp [turn]

theorem mem_turn_days : d ∈ (s.turn created dropped).days ↔
    (d ∈ created ∨ d ∈ s.days) ∧ d ∉ dropped := by
  simp [turn, mem_insertDates]

theorem Sound.turn (sound : s.Sound) : (s.turn created dropped).Sound := by
  have stays : ∀ f ∈ s.faces,
      ¬ (s.faces.filter (dropped.contains ·.day)).any (· == f) →
        f ∈ (s.turn created dropped).faces := by
    intro f member still
    refine mem_turn.mpr ⟨member, fun late => still ?_⟩
    simpa using ⟨member, late⟩
  refine ⟨fun f member => ?_, fun e member => ?_, fun i member => ?_⟩
  · obtain ⟨old, day⟩ := mem_turn.mp member
    exact mem_turn_days.mpr ⟨Or.inr (sound.housed f old), day⟩
  · obtain ⟨old, kept⟩ := List.mem_filter.mp member
    obtain ⟨f, hf, id, external⟩ := sound.indexed e old
    refine ⟨f, stays f hf fun late => ?_, id, external⟩
    simp only [List.any_eq_true, beq_iff_eq] at late
    obtain ⟨g, hg, rfl⟩ := late
    simp only [Bool.not_eq_true', List.any_eq_false, beq_iff_eq] at kept
    exact kept g hg external
  · obtain ⟨old, kept⟩ := List.mem_filter.mp member
    obtain ⟨f, hf, id⟩ := sound.ended i old
    refine ⟨f, stays f hf fun late => ?_, id⟩
    simp only [List.any_eq_true, beq_iff_eq] at late
    obtain ⟨g, hg, rfl⟩ := late
    simp only [Bool.not_eq_true', List.any_eq_false, beq_iff_eq] at kept
    exact kept g hg id

/-- With the entries of rows that go no entry of another row goes. -/
theorem Found.turn (found : s.Found) (distinct : s.Distinct) : (s.turn created dropped).Found := by
  intro f member
  obtain ⟨old, day⟩ := mem_turn.mp member
  have kept : (!(s.faces.filter (dropped.contains ·.day)).any (·.externalId == f.externalId)) = true := by
    simp only [Bool.not_eq_true', List.any_eq_false, List.mem_filter, List.contains_eq_mem,
      decide_eq_true_eq, beq_iff_eq]
    rintro g ⟨hg, late⟩ same
    cases List.inj_on_of_nodup_map distinct hg old same
    exact day late
  exact (findKey?_filter (fun key =>
    !(s.faces.filter (dropped.contains ·.day)).any (·.externalId == key)) kept).trans (found f old)

/-! ### Changes -/

theorem Change.sound (change : Change s s') (sound : s.Sound) : s'.Sound := by
  cases change with
  | placed fs housed => exact sound.places housed
  | ended ids known =>
    exact ⟨sound.housed, sound.indexed, fun i hi => (known i hi).elim (sound.ended i) id⟩
  | turned => exact sound.turn

theorem Change.found (change : Change s s') (found : s.Found) (before : s.Distinct)
    (after : s'.Distinct) : s'.Found := by
  cases change with
  | placed fs => exact found.places after
  | ended => exact found
  | turned => exact found.turn before

end Shelf

end WorkflowEngine
