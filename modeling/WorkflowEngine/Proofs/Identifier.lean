import Mathlib.Algebra.Group.Nat.Defs
import Mathlib.Data.Option.Basic
import WorkflowEngine.Identifier

/-!
Reading identifiers as they are written. The text of a number holds its last 32 hexadecimal digits, so
the identifier that is read is the number modulo 2^128.
-/

namespace WorkflowEngine.Identifier

theorem digit?_hexDigit : ∀ n < 16, digit? (Json.hexDigit n) = some n := by decide

theorem hexDigits_length (w n : Nat) : (hexDigits w n).length = w := by
  induction w generalizing n with
  | zero => rfl
  | succ w ih => rw [hexDigits, List.length_append, ih, List.length_singleton]

theorem hexDigits_value (w n : Nat) : ∃ values, (hexDigits w n).mapM digit? = some values ∧
    values.foldl (fun n d => n * 16 + d) 0 = n % 16 ^ w := by
  induction w generalizing n with
  | zero => exact ⟨[], rfl, by rw [Nat.pow_zero, Nat.mod_one]; rfl⟩
  | succ w ih =>
    obtain ⟨values, read, value⟩ := ih (n / 16)
    refine ⟨values ++ [n % 16], ?_, ?_⟩
    · rw [hexDigits, List.mapM_append, read]
      simp [digit?_hexDigit (n % 16) (Nat.mod_lt _ (by decide))]
    · rw [List.foldl_append, value, Nat.pow_succ', Nat.mod_mul]
      simp [Nat.mul_comm, Nat.add_comm]

theorem ofDigits?_hexDigits (n : Nat) : ofDigits? (hexDigits 32 n) = some ⟨n % 2 ^ 128⟩ := by
  obtain ⟨values, read, value⟩ := hexDigits_value 32 n
  unfold ofDigits?
  rw [hexDigits_length, read]
  simp [guard, value]

/-- The hyphens stand where they are expected. -/
theorem ofHyphenated?_groups {ds : List Char} (length : ds.length = 32) :
    ofHyphenated? (ds.take 8 ++ '-' :: (ds.drop 8).take 4 ++ '-' :: (ds.drop 12).take 4 ++
      '-' :: (ds.drop 16).take 4 ++ '-' :: ds.drop 20) = ofDigits? ds := by
  obtain ⟨a, b, c, d, e, rfl, ha, hb, hc, hd, he⟩ : ∃ a b c d e : List Char,
      ds = a ++ (b ++ (c ++ (d ++ e))) ∧ a.length = 8 ∧ b.length = 4 ∧ c.length = 4 ∧ d.length = 4 ∧
        e.length = 12 :=
    ⟨ds.take 8, (ds.drop 8).take 4, (ds.drop 12).take 4, (ds.drop 16).take 4, ds.drop 20,
      by
        rw [show 20 = 16 + 4 from rfl, ← List.drop_drop, List.take_append_drop,
          show 16 = 12 + 4 from rfl, ← List.drop_drop, List.take_append_drop,
          show 12 = 8 + 4 from rfl, ← List.drop_drop, List.take_append_drop, List.take_append_drop],
      by simp [length], by simp [length], by simp [length], by simp [length], by simp [length]⟩
  simp [ofHyphenated?, guard, List.drop_append, ha, hb, hc, hd, he, List.drop_of_length_le]

/-- The text of an identifier is read back as its last 128 bits. -/
theorem parse?_text (id : Identifier) : parse? id.text = some ⟨id.value % 2 ^ 128⟩ := by
  have length := hexDigits_length 32 id.value
  unfold parse? text
  rw [String.toList_ofList]
  unfold ofChars?
  rw [if_neg (by simp [length]), if_pos (by simp [length]), ofHyphenated?_groups length,
    ofDigits?_hexDigits]

/-- What the text of an identifier is read as. -/
def asRead (id : Identifier) : Identifier := ⟨id.value % 2 ^ 128⟩

theorem asRead_eq {id : Identifier} (fits : id.value < 2 ^ 128) : id.asRead = id := by
  rw [asRead, Nat.mod_eq_of_lt fits]

theorem generated_injective {m n : Nat} (same : generated m = generated n) : m = n := by
  simp only [generated, mk.injEq] at same
  omega

/-! ### What can be read -/

theorem digit?_lt {c : Char} {d : Nat} (h : digit? c = some d) : d < 16 := by
  simp only [digit?, Char.le_def, UInt32.le_iff_toNat_le] at h
  split at h
  · rename_i range
    cases h
    have : c.toNat ≤ 57 := range.2
    omega
  · split at h
    · rename_i range
      cases h
      have : c.toNat ≤ 102 := range.2
      omega
    · split at h
      · rename_i range
        cases h
        have : c.toNat ≤ 70 := range.2
        omega
      · cases h

theorem ofDigits?_lt {ds : List Char} {id : Identifier} (h : ofDigits? ds = some id) :
    id.value < 2 ^ 128 := by
  have bound : ∀ (ds : List Char) (values : List Nat) (n : Nat), ds.mapM digit? = some values →
      values.foldl (fun n d => n * 16 + d) n < (n + 1) * 16 ^ ds.length := by
    intro ds
    induction ds with
    | nil =>
      intro values n read
      cases read
      simp
    | cons c rest ih =>
      intro values n read
      rw [List.mapM_cons] at read
      obtain ⟨d, first, read⟩ := Option.bind_eq_some_iff.mp read
      obtain ⟨later, others, read⟩ := Option.bind_eq_some_iff.mp read
      cases read
      have small := digit?_lt first
      calc later.foldl (fun n d => n * 16 + d) (n * 16 + d)
          < (n * 16 + d + 1) * 16 ^ rest.length := ih later _ others
        _ ≤ ((n + 1) * 16) * 16 ^ rest.length := Nat.mul_le_mul_right _ (by omega)
        _ = (n + 1) * 16 ^ (c :: rest).length := by
          rw [List.length_cons, Nat.pow_succ', Nat.mul_assoc]
  unfold ofDigits? at h
  obtain ⟨_, length, h⟩ := Option.bind_eq_some_iff.mp h
  obtain ⟨values, read, h⟩ := Option.bind_eq_some_iff.mp h
  cases h
  have size : ds.length = 32 := by
    apply Decidable.byContradiction
    intro other
    simp [guard, other] at length
  have small := bound ds values 0 read
  rw [size] at small
  exact Nat.lt_of_lt_of_eq small (by decide)

theorem ofHyphenated?_lt {ds : List Char} {id : Identifier} (h : ofHyphenated? ds = some id) :
    id.value < 2 ^ 128 := by
  unfold ofHyphenated? at h
  obtain ⟨_, _, h⟩ := Option.bind_eq_some_iff.mp h
  obtain ⟨_, _, h⟩ := Option.bind_eq_some_iff.mp h
  exact ofDigits?_lt h

/-- Whatever is read as an identifier has 128 bits. -/
theorem parse?_lt {text : String} {id : Identifier} (h : parse? text = some id) :
    id.value < 2 ^ 128 := by
  unfold parse? ofChars? at h
  split at h
  · exact ofDigits?_lt h
  · split at h
    · exact ofHyphenated?_lt h
    · split at h
      · split at h
        · exact ofHyphenated?_lt h
        · cases h
      · split at h
        · split at h
          · exact ofHyphenated?_lt h
          · cases h
        · cases h

end WorkflowEngine.Identifier
