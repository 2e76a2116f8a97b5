import WorkflowEngine.Proofs.Json.Nesting

/-!
Decoders that read back what was written. Each decoder of a value has one lemma, which says when it
gives the value that was written; those for lists, maps and optional values build on the decoder of the
elements. The fields of a record have levels enough where the record has.
-/

namespace WorkflowEngine

namespace Decoder

/-- The decoder reads the written form back as the value wherever there are levels enough for it. -/
def ReadsBack {α : Type} (decode : Decoder α) (written : Json) (a : α) : Prop :=
  ∀ depth, written.depth < depth → decode depth written.document = some a

end Decoder

/-! ### Ranges of integers -/

def FitsInt64 (n : Int) : Prop := -9223372036854775808 ≤ n ∧ n ≤ 9223372036854775807

def FitsInt32 (n : Int) : Prop := -2147483648 ≤ n ∧ n ≤ 2147483647

namespace Decoder.ReadsBack

variable {α : Type} {decode : Decoder α} {n : Int}

/-! ### Plain values -/

theorem json {j : Json} (valid : j.Valid) (plain : j.DoubleFree) : ReadsBack Decoder.json j j :=
  fun _ shallow => Document.toJson?_document j valid plain shallow

theorem text (s : String) : ReadsBack Decoder.text (.str s) s := fun _ _ => rfl

theorem bool (b : Bool) : ReadsBack Decoder.bool (.bool b) b := fun _ _ => rfl

theorem int64 (fits : FitsInt64 n) : ReadsBack Decoder.int64 (.int n) n := fun _ _ => int64_document fits

theorem int32 (fits : FitsInt32 n) : ReadsBack Decoder.int32 (.int n) n := fun _ _ => int32_document fits

theorem natBelow {bound k : Nat} (fits : k < bound) (word : bound ≤ 2 ^ 64) :
    ReadsBack (Decoder.natBelow bound) (.ofNat k) k := by
  intro depth _
  have range : (0 : Int) ≤ k ∧ (k : Int) ≤ (bound : Int) - 1 := by omega
  rw [Decoder.natBelow, Json.ofNat, intBetween_ofInt range (by omega) (by omega)]
  rfl

/-! ### Optional values, lists and maps -/

theorem optional {write : α → Json} {o : Option α} (value : ∀ a ∈ o, write a ≠ .null)
    (back : ∀ a ∈ o, ReadsBack decode (write a) a) :
    ReadsBack decode.optional (.ofOption write o) o := by
  intro depth shallow
  cases o with
  | none => rfl
  | some a =>
    have read := back a rfl depth shallow
    have present := value a rfl
    change decode.optional depth (write a).document = _
    cases written : write a with
    | null => exact absurd written present
    | _ =>
      rw [written] at read
      rw [Json.document] at read ⊢
      rw [Decoder.optional, read]
      · rfl
      · exact nofun

theorem list {write : α → Json} {l : List α} (back : ∀ a ∈ l, ReadsBack decode (write a) a) :
    ReadsBack decode.list (.ofList write l) l := by
  intro depth shallow
  change Json.itemsDepth (l.map write) + 1 < depth at shallow
  have items : ∀ l : List α, (∀ a ∈ l, ReadsBack decode (write a) a) →
      Json.itemsDepth (l.map write) < depth - 1 →
        (Json.documents (l.map write)).mapM (decode (depth - 1)) = some l := by
    intro l
    induction l with
    | nil => exact fun _ _ => rfl
    | cons a l ih =>
      intro back shallow
      obtain ⟨first, later⟩ := List.forall_mem_cons.mp back
      obtain ⟨here, behind⟩ := Nat.max_lt.mp shallow
      rw [List.map_cons, Json.documents, List.mapM_cons, first _ here, ih later behind]
      rfl
  change (if depth ≤ 1 then none else (Json.documents (l.map write)).mapM (decode (depth - 1))) = _
  rw [if_neg (by omega), items l back (by omega)]

theorem place_behind (e : String × String) (l : List (String × String)) (last : ∀ b ∈ l, b.1 < e.1) :
    textMap.place e l = l ++ [e] := by
  induction l with
  | nil => rfl
  | cons b l ih =>
    obtain ⟨first, later⟩ := List.forall_mem_cons.mp last
    rw [textMap.place, if_neg (lt_asymm first), if_neg (by simpa using ne_of_gt first), ih later]
    rfl

/-- A map is read back that has its entries in the order of their names. -/
theorem textMap {l : List (String × String)} (sorted : l.Pairwise (·.1 < ·.1)) :
    ReadsBack Decoder.textMap (.ofTexts l) l := by
  intro depth shallow
  let members := l.map fun m => (m.1, Json.str m.2)
  have placed : Json.placed members = members := Json.placed_eq (List.pairwise_map.mpr sorted)
  have entries : (Json.memberDocuments members).mapM
      (fun (m : Option String × Document) => do return (← m.1, ← Decoder.text (depth - 1) m.2)) = some l := by
    rw [Json.memberDocuments_eq, List.map_map, List.mapM_map]
    exact List.mapM_pure.trans (congrArg some (List.map_id l))
  have levels : ¬depth ≤ 1 := by
    change Json.membersDepth (Json.placed members) + 1 < depth at shallow
    omega
  change (if depth ≤ 1 then none else _) = _
  rw [if_neg levels]
  change (Json.memberDocuments (Json.placed members)).mapM _ >>= _ = _
  rw [placed, entries]
  exact congrArg some (foldl_behind place_behind sorted)

/-- A named constant. -/
theorem constant {named : String → Option α} {name : String} {a : α} (known : named name = some a) :
    ReadsBack (Decoder.constant named) (.str name) a := fun _ _ => known

end Decoder.ReadsBack

/-! ### Fields -/

namespace Fields

variable {α : Type} {fields : Fields} {name : String} {written : Json} {decode : Decoder α} {a : α}

/-- The field has the written form of a value, with levels enough for it. -/
structure Holds (fields : Fields) (name : String) (written : Json) : Prop where
  found : fields.find? name = some written.document
  levels : written.depth < fields.depth

/-- Each field of a written record is held. -/
theorem of?_holds {names : List String} {ms : List (String × Json)} {j : Json} {depth : Nat}
    (shallow : j.depth < depth) (form : j = Json.ofMembers ms) (named : ms.map (·.1) = names)
    (distinct : names.Nodup) :
    ∃ fields, Fields.of? names depth j.document = some fields ∧
      ∀ m ∈ ms, fields.Holds m.1 m.2 := by
  have members : Json.membersDepth (Json.placed ms) + 1 < depth := by
    rw [form] at shallow
    exact shallow
  have some : 1 < depth := by omega
  obtain ⟨fields, read, levels, find⟩ := of?_found some form named distinct
  refine ⟨fields, read, fun m member => ⟨find m member, ?_⟩⟩
  have inside := Json.membersDepth_le.mp (Nat.le_refl _) m
    ((Json.mem_placed_iff (named ▸ distinct)).mpr member)
  omega

/-- A record is read back if its value comes out of fields that are all held. -/
theorem record_readsBack (names : List String) {ms : List (String × Json)} {j : Json}
    {rest : Fields → Option α} (form : j = Json.ofMembers ms) (named : ms.map (·.1) = names)
    (distinct : names.Nodup)
    (each : ∀ fields : Fields, (∀ m ∈ ms, fields.Holds m.1 m.2) → rest fields = some a) :
    Decoder.ReadsBack (fun depth d => of? names depth d >>= rest) j a := by
  intro depth shallow
  obtain ⟨fields, read, holds⟩ := of?_holds shallow form named distinct
  exact Option.bind_eq_some_iff.mpr ⟨fields, read, each fields holds⟩

namespace Holds

theorem required (held : fields.Holds name written) (back : decode.ReadsBack written a) :
    fields.required name decode = some a := by
  rw [Fields.required, held.found]
  exact back _ held.levels

theorem withDefault {default : α} (held : fields.Holds name written) (back : decode.ReadsBack written a) :
    fields.withDefault name default decode = some a := by
  rw [Fields.withDefault, held.found]
  exact back _ held.levels

theorem optional {o : Option α} (held : fields.Holds name written)
    (back : decode.optional.ReadsBack written o) : fields.optional name decode = some o := by
  rw [Fields.optional, held.found]
  exact back _ held.levels

end Holds

end Fields

end WorkflowEngine
