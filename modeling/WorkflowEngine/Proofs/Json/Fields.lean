import Mathlib.Algebra.Group.Int.Defs
import Mathlib.Data.String.Basic
import WorkflowEngine.Json.Codec
import WorkflowEngine.Proofs.Json.Reading

/-!
Reading the fields of a record back. An object keeps its members in the order of their names, each
name once, and so every field is found with the value it was written with.
-/

namespace WorkflowEngine

/-! ### Integers -/

namespace Numeral

theorem absorb_fits {n : Nat} (ds : List Nat) (fits : ds.foldl (fun n d => n * 10 + d) n ≤ maxUnsigned) :
    absorb n ds = (ds.foldl (fun n d => n * 10 + d) n, 0) := by
  have grows : ∀ (ds : List Nat) (n : Nat), n ≤ ds.foldl (fun n d => n * 10 + d) n := by
    intro ds
    induction ds with
    | nil => exact fun n => Nat.le_refl n
    | cons d ds ih => exact fun n => Nat.le_trans (by omega) (ih (n * 10 + d))
  induction ds generalizing n with
  | nil => rfl
  | cons d ds ih =>
    rw [List.foldl_cons] at fits
    rw [absorb, if_pos (Nat.le_trans (grows ds _) fits), ih fits, List.foldl_cons]

theorem absorb_value {n : Nat} {ds : List Nat} (whole : (absorb n ds).2 = 0) :
    (absorb n ds).1 = ds.foldl (fun n d => n * 10 + d) n := by
  induction ds generalizing n with
  | nil => rfl
  | cons d ds ih =>
    unfold absorb at whole ⊢
    split at whole
    · rename_i fits
      rw [if_pos fits]
      exact ih whole
    · cases whole

theorem digitsOf_value (n : Nat) : (digitsOf n).foldl (fun n d => n * 10 + d) 0 = n := by
  have value := Nat.ofDigitChars_ten_toDigits (n := n)
  rw [Nat.ofDigitChars_eq_foldl] at value
  rw [digitsOf, List.foldl_map]
  simpa [Nat.mul_comm] using value

/-- An integer within the signed or unsigned 64-bit range is read as it is. -/
theorem ofInt_toJson? {n : Int} (low : -2 ^ 63 ≤ n) (high : n < 2 ^ 64) :
    (ofInt n).toJson? = some (.int n) := by
  have fits : n.natAbs ≤ maxUnsigned := by
    unfold maxUnsigned
    omega
  have value := digitsOf_value n.natAbs
  have absorbed := absorb_fits (n := 0) (digitsOf n.natAbs) (by rwa [value])
  rw [value] at absorbed
  unfold toJson? ofInt
  simp only [absorbed]
  by_cases negative : n < 0
  · have apart : ¬(n.natAbs = 0 ∨ 9223372036854775808 < n.natAbs) := by omega
    have size : (n.natAbs : Int) = -n := Int.ofNat_natAbs_of_nonpos (Int.le_of_lt negative)
    simp only [negative, decide_true, apart]
    simp [size]
  · simp [negative]
    omega

/-- An integer that is read is the one that was written. -/
theorem ofInt_eq {n k : Int} (h : (ofInt n).toJson? = some (.int k)) : k = n := by
  have value := @absorb_value 0 (digitsOf n.natAbs)
  rw [digitsOf_value] at value
  unfold toJson? ofInt at h
  simp only at h
  generalize absorb 0 (digitsOf n.natAbs) = absorbed at h value
  obtain ⟨significand, dropped⟩ := absorbed
  simp only at h value
  split at h
  · rename_i whole
    have same : significand = n.natAbs := value (by simpa using whole)
    split at h
    · rename_i positive
      cases h
      have : ¬ n < 0 := by simpa using positive
      omega
    · rename_i negative
      have : n < 0 := by simpa using negative
      split at h
      · obtain ⟨x, _, h⟩ := Option.map_eq_some_iff.mp h
        cases h
      · cases h
        omega
  · obtain ⟨x, _, h⟩ := Option.map_eq_some_iff.mp h
    cases h

end Numeral

namespace Decoder

variable {depth : Nat} {n : Int}

theorem intBetween_ofInt {lo hi : Int} (range : lo ≤ n ∧ n ≤ hi) (low : -2 ^ 63 ≤ n) (high : n < 2 ^ 64) :
    intBetween lo hi depth (Json.int n).document = some n := by
  simp [intBetween, Json.document, Numeral.ofInt_toJson? low high, range]

theorem int64_document (range : -9223372036854775808 ≤ n ∧ n ≤ 9223372036854775807) :
    int64 depth (Json.int n).document = some n :=
  intBetween_ofInt range (by omega) (by omega)

theorem int32_document (range : -2147483648 ≤ n ∧ n ≤ 2147483647) :
    int32 depth (Json.int n).document = some n :=
  intBetween_ofInt range (by omega) (by omega)

/-- Whatever integer is read, it is the one that was written. -/
theorem intBetween_eq {lo hi k : Int} (h : intBetween lo hi depth (Json.int n).document = some k) :
    k = n := by
  simp only [intBetween, Json.document] at h
  split at h
  · rename_i i read
    split at h
    · cases h
      exact Numeral.ofInt_eq read
    · cases h
  · cases h

end Decoder

/-! ### Members -/

namespace Json

variable {name : String} {value : Json} {ms acc : List (String × Json)}

theorem find?_insertMember (k : String) :
    (insertMember name value acc).find? (·.1 == k) =
      if name = k then some (name, value) else acc.find? (·.1 == k) := by
  induction acc with
  | nil => by_cases same : name = k <;> simp [insertMember, same]
  | cons m acc ih =>
    obtain ⟨l, v⟩ := m
    unfold insertMember
    split
    · by_cases same : name = k <;> simp [same]
    · split
      · rename_i replaced
        have here := eq_of_beq replaced
        by_cases same : name = k
        · simp [same]
        · simp [same, ← here]
      · rename_i apart
        rw [List.find?_cons, ih, List.find?_cons]
        by_cases same : name = k
        · have other : (l == k) = false := by
            rw [beq_eq_false_iff_ne]
            rintro rfl
            exact apart (beq_iff_eq.mpr same)
          simp [same, other]
        · simp [same]

theorem mem_insertMember {m : String × Json} (h : m ∈ insertMember name value acc) :
    m = (name, value) ∨ m ∈ acc := by
  induction acc with
  | nil => exact Or.inl (List.mem_singleton.mp h)
  | cons m' acc ih =>
    obtain ⟨l, v⟩ := m'
    unfold insertMember at h
    split at h
    · exact List.mem_cons.mp h
    · split at h
      · rcases List.mem_cons.mp h with rfl | later
        · exact Or.inl rfl
        · exact Or.inr (List.mem_cons_of_mem _ later)
      · rcases List.mem_cons.mp h with rfl | later
        · exact Or.inr List.mem_cons_self
        · exact (ih later).imp id (List.mem_cons_of_mem _)

theorem insertMember_sorted (sorted : acc.Pairwise (·.1 < ·.1)) :
    (insertMember name value acc).Pairwise (·.1 < ·.1) := by
  induction acc with
  | nil => exact List.pairwise_singleton _ _
  | cons m acc ih =>
    obtain ⟨l, v⟩ := m
    obtain ⟨least, tail⟩ := List.pairwise_cons.mp sorted
    unfold insertMember
    split
    · rename_i first
      refine List.pairwise_cons.mpr ⟨?_, sorted⟩
      intro m h
      rcases List.mem_cons.mp h with rfl | later
      · exact first
      · exact lt_trans first (least m later)
    · rename_i notFirst
      split
      · rename_i replaced
        rw [eq_of_beq replaced]
        exact List.pairwise_cons.mpr ⟨least, tail⟩
      · rename_i apart
        refine List.pairwise_cons.mpr ⟨?_, ih tail⟩
        intro m h
        rcases mem_insertMember h with rfl | old
        · exact lt_of_le_of_ne (not_lt.mp notFirst) fun same => apart (beq_iff_eq.mpr same.symm)
        · exact least m old

/-- The members of an object, by name. -/
def placed (ms : List (String × Json)) : List (String × Json) :=
  ms.foldl (fun acc m => insertMember m.1 m.2 acc) []

theorem placed_sorted (ms : List (String × Json)) : (placed ms).Pairwise (·.1 < ·.1) := by
  have step : ∀ (ms acc : List (String × Json)), acc.Pairwise (·.1 < ·.1) →
      (ms.foldl (fun acc m => insertMember m.1 m.2 acc) acc).Pairwise (·.1 < ·.1) := by
    intro ms
    induction ms with
    | nil => exact fun acc sorted => sorted
    | cons m ms ih => exact fun acc sorted => ih _ (insertMember_sorted sorted)
  exact step ms [] .nil

/-- A member is found under its name if no other has that name. -/
theorem find?_placed (distinct : (ms.map (·.1)).Nodup) (k : String) :
    (placed ms).find? (·.1 == k) = ms.find? (·.1 == k) := by
  have step : ∀ (ms acc : List (String × Json)), (ms.map (·.1)).Nodup →
      (ms.foldl (fun acc m => insertMember m.1 m.2 acc) acc).find? (·.1 == k) =
        (ms.find? (·.1 == k)).or (acc.find? (·.1 == k)) := by
    intro ms
    induction ms with
    | nil => simp
    | cons m ms ih =>
      obtain ⟨l, v⟩ := m
      intro acc distinct
      obtain ⟨fresh, distinct⟩ := List.nodup_cons.mp distinct
      rw [List.foldl_cons, ih _ distinct, find?_insertMember, List.find?_cons]
      by_cases same : l = k
      · have none : ms.find? (·.1 == k) = none := by
          refine List.find?_eq_none.mpr fun m' h found => fresh ?_
          exact List.mem_map.mpr ⟨m', h, (eq_of_beq found).trans same.symm⟩
        simp [same, none]
      · have other : (l == k) = false := by simpa using same
        simp [same, other]
  have found := step ms [] distinct
  rwa [List.find?_nil, Option.or_none] at found

theorem find?_member {m : String × Json} (distinct : (ms.map (·.1)).Nodup) (h : m ∈ ms) :
    ms.find? (·.1 == m.1) = some m := by
  induction ms with
  | nil => cases h
  | cons m' ms ih =>
    obtain ⟨fresh, distinct⟩ := List.nodup_cons.mp distinct
    rw [List.find?_cons]
    rcases List.mem_cons.mp h with rfl | later
    · rw [beq_self_eq_true]
    · have other : (m'.1 == m.1) = false := by
        rw [beq_eq_false_iff_ne]
        intro same
        exact fresh (List.mem_map.mpr ⟨m, later, same.symm⟩)
      rw [other]
      exact ih distinct later

end Json

/-! ### Fields -/

namespace Fields

variable {names : List String} {ms : List (String × Json)} {depth : Nat}

/-- The fields of a written record. -/
theorem of?_ofMembers (deep : 1 < depth) (distinct : (ms.map (·.1)).Nodup) :
    ∃ fields, Fields.of? names depth (Json.ofMembers ms).document = some fields ∧
      fields.depth = depth - 1 ∧
        ∀ name ∈ names, fields.find? name = (ms.find? (·.1 == name)).map (·.2.document) := by
  let documents := (Json.placed ms).map fun m => (m.1, m.2.document)
  have named : (Json.memberDocuments (Json.placed ms)).mapM (fun (m : Option String × Document) =>
      m.1.map (·, m.2)) = some documents := by
    rw [Json.memberDocuments_eq, List.mapM_map]
    exact List.mapM_pure
  have distinct' : ((documents.filter (names.contains ·.1)).map (·.1)).Nodup := by
    have sorted : (documents.map (·.1)).Pairwise (· < ·) := by
      rw [List.map_map]
      exact List.pairwise_map.mpr (Json.placed_sorted ms)
    have nodup : (documents.map (·.1)).Nodup := sorted.imp fun less => ne_of_lt less
    exact nodup.sublist (List.filter_sublist.map _)
  refine ⟨⟨depth - 1, false, documents.filter (names.contains ·.1)⟩, ?_, rfl, ?_⟩
  · change (if depth ≤ 1 then none else _) = _
    rw [if_neg (by omega)]
    change ((Json.memberDocuments (Json.placed ms)).mapM _ >>= _) = _
    rw [named]
    exact if_pos distinct'
  · intro name member
    have kept : (fun m : String × Document =>
        decide (names.contains m.1 = true ∧ (m.1 == name) = true)) = (·.1 == name) := by
      funext m
      by_cases same : m.1 = name <;> simp [same, member]
    have found : documents.find? (·.1 == name) =
        (ms.find? (·.1 == name)).map fun m => (m.1, m.2.document) := by
      rw [← Json.find?_placed distinct]
      exact List.find?_map
    change ((documents.filter _).find? _).map (·.2) = _
    rw [List.find?_filter, kept, found, Option.map_map]
    rfl

/-- Each member of a written record is found under its name. -/
theorem of?_found {j : Json} (deep : 1 < depth) (form : j = Json.ofMembers ms)
    (named : ms.map (·.1) = names) (distinct : names.Nodup) :
    ∃ fields, Fields.of? names depth j.document = some fields ∧
      fields.depth = depth - 1 ∧ ∀ m ∈ ms, fields.find? m.1 = some m.2.document := by
  obtain ⟨fields, read, levels, find⟩ := of?_ofMembers deep (named ▸ distinct)
  refine ⟨fields, form ▸ read, levels, ?_⟩
  intro m member
  rw [find m.1 (named ▸ List.mem_map_of_mem member), Json.find?_member (named ▸ distinct) member]
  rfl

end Fields

end WorkflowEngine
