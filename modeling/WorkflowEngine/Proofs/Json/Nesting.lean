import WorkflowEngine.Proofs.Json.Fields

/-!
How deep values are nested, and which values are read back as they were written. The value of a
document is the one that was written if it holds no doubles and is nested in fewer containers than
the reader goes down. A value that is nested deeper is not read at all.
-/

namespace WorkflowEngine

namespace Json

/-! ### Containers -/

mutual

/-- How many containers a value is nested in, itself included. -/
def depth : Json → Nat
  | .arr items => itemsDepth items + 1
  | .obj members => membersDepth members + 1
  | .null | .bool _ | .int _ | .double _ | .str _ => 0

def itemsDepth : List Json → Nat
  | [] => 0
  | a :: rest => max a.depth (itemsDepth rest)

def membersDepth : List (String × Json) → Nat
  | [] => 0
  | (_, a) :: rest => max a.depth (membersDepth rest)

end

mutual

/-- Something holds of a value and of every value in it. -/
def Throughout (p : Json → Prop) : Json → Prop
  | .arr items => p (.arr items) ∧ ItemsThroughout p items
  | .obj members => p (.obj members) ∧ MembersThroughout p members
  | .null => p .null
  | .bool b => p (.bool b)
  | .int n => p (.int n)
  | .double x => p (.double x)
  | .str s => p (.str s)

def ItemsThroughout (p : Json → Prop) : List Json → Prop
  | [] => True
  | a :: rest => a.Throughout p ∧ ItemsThroughout p rest

def MembersThroughout (p : Json → Prop) : List (String × Json) → Prop
  | [] => True
  | (_, a) :: rest => a.Throughout p ∧ MembersThroughout p rest

end

/-- Integers lie within the signed or unsigned 64-bit range, and members are in the order of their
names, each name once. -/
def WellFormed : Json → Prop
  | .int n => -9223372036854775808 ≤ n ∧ n ≤ 18446744073709551615
  | .obj members => members.Pairwise (·.1 < ·.1)
  | _ => True

/-- A value that can occur at all. -/
def Valid (j : Json) : Prop := j.Throughout WellFormed

/-- No double occurs in the value. -/
def DoubleFree (j : Json) : Prop := j.Throughout fun a => ∀ x, a ≠ .double x

variable {name : String} {ms acc : List (String × Json)} {items : List Json} {n : Nat}

theorem itemsDepth_le : itemsDepth items ≤ n ↔ ∀ a ∈ items, a.depth ≤ n := by
  induction items with
  | nil => simp [itemsDepth]
  | cons a rest ih => rw [itemsDepth, Nat.max_le, ih, List.forall_mem_cons]

theorem membersDepth_le : membersDepth ms ≤ n ↔ ∀ m ∈ ms, m.2.depth ≤ n := by
  induction ms with
  | nil => simp [membersDepth]
  | cons m rest ih => rw [membersDepth, Nat.max_le, ih, List.forall_mem_cons]

theorem membersThroughout_iff {p : Json → Prop} :
    MembersThroughout p ms ↔ ∀ m ∈ ms, m.2.Throughout p := by
  induction ms with
  | nil => simp [MembersThroughout]
  | cons m rest ih => rw [MembersThroughout, ih, List.forall_mem_cons]

/-! ### Members in their places -/

theorem mem_placed {m : String × Json} (h : m ∈ placed ms) : m ∈ ms := by
  have step : ∀ (ms acc : List (String × Json)),
      m ∈ ms.foldl (fun acc m => insertMember m.1 m.2 acc) acc → m ∈ ms ∨ m ∈ acc := by
    intro ms
    induction ms with
    | nil => exact fun acc h => Or.inr h
    | cons m' ms ih =>
      intro acc h
      rcases ih _ h with later | now
      · exact Or.inl (List.mem_cons_of_mem _ later)
      · rcases mem_insertMember now with rfl | old
        · exact Or.inl List.mem_cons_self
        · exact Or.inr old
  exact (step ms [] h).resolve_right List.not_mem_nil

theorem mem_placed_iff {m : String × Json} (distinct : (ms.map (·.1)).Nodup) :
    m ∈ placed ms ↔ m ∈ ms := by
  refine ⟨mem_placed, fun h => ?_⟩
  have found := find?_placed distinct m.1
  rw [find?_member distinct h] at found
  exact List.mem_of_find?_eq_some found

theorem depth_ofMembers_le (inside : ∀ m ∈ ms, m.2.depth ≤ n) : (ofMembers ms).depth ≤ n + 1 := by
  change membersDepth (placed ms) + 1 ≤ n + 1
  exact Nat.succ_le_succ (membersDepth_le.mpr fun m member => inside m (mem_placed member))

/-- The members of a record are nested one level less. -/
theorem depth_ofMembers_le_iff (distinct : (ms.map (·.1)).Nodup) :
    (ofMembers ms).depth ≤ n + 1 ↔ ∀ m ∈ ms, m.2.depth ≤ n := by
  change membersDepth (placed ms) + 1 ≤ n + 1 ↔ _
  simp only [Nat.add_le_add_iff_right, membersDepth_le, mem_placed_iff distinct]

theorem valid_ofMembers (parts : ∀ m ∈ ms, m.2.Valid) : (ofMembers ms).Valid :=
  ⟨placed_sorted ms, membersThroughout_iff.mpr fun m member => parts m (mem_placed member)⟩

theorem doubleFree_ofMembers (parts : ∀ m ∈ ms, m.2.DoubleFree) : (ofMembers ms).DoubleFree :=
  ⟨fun _ => nofun, membersThroughout_iff.mpr fun m member => parts m (mem_placed member)⟩

theorem valid_str (s : String) : (str s).Valid := trivial

theorem doubleFree_str (s : String) : (str s).DoubleFree := fun _ => nofun

theorem depth_ofList {α : Type} {f : α → Json} {l : List α} :
    (ofList f l).depth ≤ n + 1 ↔ ∀ a ∈ l, (f a).depth ≤ n := by
  change itemsDepth (l.map f) + 1 ≤ n + 1 ↔ _
  rw [Nat.add_le_add_iff_right, itemsDepth_le, List.forall_mem_map]

theorem depth_ofTexts (l : List (String × String)) : (ofTexts l).depth ≤ n + 1 := by
  refine depth_ofMembers_le fun m member => ?_
  obtain ⟨e, -, rfl⟩ := List.mem_map.mp member
  exact Nat.zero_le n

theorem depth_ofOption {α : Type} {f : α → Json} {o : Option α} :
    (ofOption f o).depth ≤ n ↔ ∀ a ∈ o, (f a).depth ≤ n := by
  cases o with
  | none => exact ⟨fun _ => nofun, fun _ => Nat.zero_le n⟩
  | some a => simp [ofOption]

end Json

/-- Where each element of a list goes behind the ones before it, the list is built up as it is. -/
theorem foldl_behind {α : Type} {before : α → α → Prop} {put : α → List α → List α}
    (behind : ∀ a l, (∀ b ∈ l, before b a) → put a l = l ++ [a]) {l : List α} (sorted : l.Pairwise before) :
    l.foldl (fun acc a => put a acc) [] = l := by
  have step : ∀ (l acc : List α), (acc ++ l).Pairwise before →
      l.foldl (fun acc a => put a acc) acc = acc ++ l := by
    intro l
    induction l with
    | nil => exact fun acc _ => (List.append_nil acc).symm
    | cons a l ih =>
      intro acc sorted
      have last : ∀ b ∈ acc, before b a := fun b member =>
        (List.pairwise_append.mp sorted).2.2 b member a List.mem_cons_self
      rw [List.foldl_cons, behind a acc last, ih _ (by rwa [List.append_assoc]), List.append_assoc]
      rfl
  exact step l [] sorted

theorem Json.insertMember_behind (m : String × Json) (acc : List (String × Json))
    (last : ∀ b ∈ acc, b.1 < m.1) : Json.insertMember m.1 m.2 acc = acc ++ [m] := by
  induction acc with
  | nil => rfl
  | cons b acc ih =>
    obtain ⟨first, later⟩ := List.forall_mem_cons.mp last
    rw [Json.insertMember, if_neg (lt_asymm first), if_neg (by simpa using ne_of_gt first), ih later]
    rfl

theorem Json.placed_eq {ms : List (String × Json)} (sorted : ms.Pairwise (·.1 < ·.1)) :
    Json.placed ms = ms :=
  foldl_behind insertMember_behind sorted

/-! ### Values read back -/

namespace Document

open Json

mutual

/-- A value without doubles is read as it was written wherever there are levels enough for it. -/
theorem toJson?_document (j : Json) {depth : Nat} (valid : j.Valid) (plain : j.DoubleFree)
    (shallow : j.depth < depth) : j.document.toJson? depth = some j := by
  match j with
  | .null | .bool _ | .str _ => rfl
  | .int n =>
    obtain ⟨low, high⟩ := valid
    exact Numeral.ofInt_toJson? (by omega) (by omega)
  | .double x => exact absurd rfl (plain x)
  | .arr items =>
    have enough : itemsDepth items + 1 < depth := shallow
    have read := toItems?_documents items valid.2 plain.2 (Nat.lt_sub_of_add_lt enough)
    rw [Json.document, toJson?, if_neg (by omega), read]
    rfl
  | .obj members =>
    have enough : membersDepth members + 1 < depth := shallow
    have read := toMembers?_memberDocuments members valid.2 plain.2 (Nat.lt_sub_of_add_lt enough)
    rw [Json.document, toJson?, if_neg (by omega), read]
    exact congrArg (some ∘ Json.obj) (placed_eq valid.1)

theorem toItems?_documents (items : List Json) {depth : Nat} (valid : ItemsThroughout WellFormed items)
    (plain : ItemsThroughout (fun a => ∀ x, a ≠ .double x) items) (shallow : itemsDepth items < depth) :
    toItems? depth (documents items) = some items := by
  match items with
  | [] => rfl
  | a :: rest =>
    obtain ⟨here, later⟩ := Nat.max_lt.mp shallow
    rw [documents, toItems?, toJson?_document a valid.1 plain.1 here,
      toItems?_documents rest valid.2 plain.2 later]
    rfl

theorem toMembers?_memberDocuments (members : List (String × Json)) {depth : Nat}
    (valid : MembersThroughout WellFormed members)
    (plain : MembersThroughout (fun a => ∀ x, a ≠ .double x) members)
    (shallow : membersDepth members < depth) :
    toMembers? depth (memberDocuments members) = some members := by
  match members with
  | [] => rfl
  | (k, a) :: rest =>
    obtain ⟨here, later⟩ := Nat.max_lt.mp shallow
    rw [memberDocuments, toMembers?, toJson?_document a valid.1 plain.1 here,
      toMembers?_memberDocuments rest valid.2 plain.2 later]
    rfl

end

mutual

/-- What is read has levels enough. -/
theorem depth_lt_of_toJson? (j : Json) {depth : Nat} {k : Json} (levels : 0 < depth)
    (read : j.document.toJson? depth = some k) : j.depth < depth := by
  match j with
  | .null | .bool _ | .int _ | .double _ | .str _ => exact levels
  | .arr items =>
    rw [Json.document, toJson?] at read
    split at read
    · cases read
    · obtain ⟨_, read, -⟩ := Option.map_eq_some_iff.mp read
      have enough := itemsDepth_lt_of_toItems? items (by omega) read
      change itemsDepth items + 1 < depth
      omega
  | .obj members =>
    rw [Json.document, toJson?] at read
    split at read
    · cases read
    · obtain ⟨_, read, -⟩ := Option.map_eq_some_iff.mp read
      have enough := membersDepth_lt_of_toMembers? members (by omega) read
      change membersDepth members + 1 < depth
      omega

theorem itemsDepth_lt_of_toItems? (items : List Json) {depth : Nat} {ks : List Json} (levels : 0 < depth)
    (read : toItems? depth (documents items) = some ks) : itemsDepth items < depth := by
  match items with
  | [] => exact levels
  | a :: rest =>
    obtain ⟨_, first, read⟩ := Option.bind_eq_some_iff.mp read
    obtain ⟨_, others, -⟩ := Option.bind_eq_some_iff.mp read
    exact Nat.max_lt.mpr
      ⟨depth_lt_of_toJson? a levels first, itemsDepth_lt_of_toItems? rest levels others⟩

theorem membersDepth_lt_of_toMembers? (members : List (String × Json)) {depth : Nat}
    {ks : List (String × Json)} (levels : 0 < depth)
    (read : toMembers? depth (memberDocuments members) = some ks) : membersDepth members < depth := by
  match members with
  | [] => exact levels
  | (k, a) :: rest =>
    obtain ⟨_, value, read⟩ := Option.bind_eq_some_iff.mp read
    obtain ⟨_, others, -⟩ := Option.bind_eq_some_iff.mp read
    exact Nat.max_lt.mpr
      ⟨depth_lt_of_toJson? a levels value, membersDepth_lt_of_toMembers? rest levels others⟩

end

end Document

end WorkflowEngine
