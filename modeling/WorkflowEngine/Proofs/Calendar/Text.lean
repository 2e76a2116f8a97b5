import Mathlib.Data.Option.Basic
import WorkflowEngine.Calendar.Instant
import WorkflowEngine.Proofs.Calendar.Date
import WorkflowEngine.Proofs.Json.Fields

/-!
Reading instants as they are written. Every number stands with a fixed count of digits, or in front of
a mark that is no digit, so it is read up to its end; then the parts of the text follow one another.
-/

namespace WorkflowEngine

variable {w n : Nat} {rest ds : List Char}

/-! ### Padded numbers -/

namespace Date

theorem padded_chars (w n : Nat) : (padded w n).toList =
    List.replicate (w - (Nat.toDigits 10 n).length) '0' ++ Nat.toDigits 10 n := by
  rw [padded, String.toList_append, String.toList_ofList, Nat.toString_eq_repr, Nat.toList_repr,
    ← String.length_toList, Nat.toList_repr]

theorem padded_digit : ∀ c ∈ (padded w n).toList, c.isDigit = true := by
  intro c member
  rw [padded_chars, List.mem_append] at member
  rcases member with zero | digit
  · rw [List.eq_of_mem_replicate zero]
    rfl
  · exact Nat.isDigit_of_mem_toDigits (by decide) (by decide) digit

theorem padded_length (fits : n < 10 ^ w) (some : 0 < w) : (padded w n).toList.length = w := by
  have short := (Nat.length_toDigits_le_iff (b := 10) (by decide) some).mpr fits
  rw [padded_chars, List.length_append, List.length_replicate]
  omega

theorem padded_ne_nil : (padded w n).toList ≠ [] := by
  rw [padded_chars]
  simp [Nat.toDigits_ne_nil]

end Date

namespace Instant

theorem digitsValue_padded : digitsValue (Date.padded w n).toList = n := by
  have zeros : ∀ k, (List.replicate k '0').foldl (fun n c => n * 10 + (c.toNat - 48)) 0 = 0 := by
    intro k
    induction k with
    | zero => rfl
    | succ k ih => rw [List.replicate_succ, List.foldl_cons]; exact ih
  have value := Numeral.digitsOf_value n
  rw [Numeral.digitsOf, List.foldl_map] at value
  rw [Date.padded_chars, digitsValue, List.foldl_append, zeros, value]

theorem takeWhile_digits {most : Nat} (rest : List Char) (digits : ∀ c ∈ ds, c.isDigit = true)
    (fits : ds.length ≤ most) (stop : ds.length = most ∨ ∀ c ∈ rest.head?, c.isDigit = false) :
    ((ds ++ rest).take most).takeWhile Char.isDigit = ds := by
  rw [List.take_append, List.take_of_length_le fits, List.takeWhile_append_of_pos digits]
  rcases stop with full | stop
  · rw [full, Nat.sub_self, List.take_zero, List.takeWhile_nil, List.append_nil]
  · cases rest with
    | nil => simp
    | cons c rest =>
      cases most - ds.length with
      | zero => simp
      | succ k => simp [stop c rfl]

theorem readNumber_append {most : Nat} (rest : List Char) (digits : ∀ c ∈ ds, c.isDigit = true)
    (some : ds ≠ []) (fits : ds.length ≤ most) (stop : ds.length = most ∨ ∀ c ∈ rest.head?, c.isDigit = false) :
    readNumber most (ds ++ rest) = .some (digitsValue ds, rest) := by
  unfold readNumber
  simp only [takeWhile_digits rest digits fits stop]
  rw [if_neg (by simpa using some), List.drop_left]

/-- A mark that is no blank: a digit, or one of those between the parts. -/
def Solid (c : Char) : Prop := skipSpaces [c] = [c]

theorem skipSpaces_solid {c : Char} (solid : Solid c) : skipSpaces (c :: rest) = c :: rest := by
  unfold Solid skipSpaces at solid
  unfold skipSpaces
  rw [List.dropWhile_cons] at solid ⊢
  split at solid
  · simp at solid
  · rename_i kept
    rw [if_neg kept]

theorem digit_solid {c : Char} (digit : c.isDigit = true) : Solid c := by
  have other : ∀ d : Char, d.isDigit = false → c ≠ d := by
    rintro d not rfl
    rw [digit] at not
    cases not
  unfold Solid skipSpaces
  simp [other ' ' rfl, other '\t' rfl, other '\n' rfl, other '\r' rfl, other '\x0b' rfl,
    other '\x0c' rfl]

theorem skipSpaces_digits (digits : ∀ c ∈ ds, c.isDigit = true) (some : ds ≠ []) :
    skipSpaces (ds ++ rest) = ds ++ rest := by
  cases ds with
  | nil => exact absurd rfl some
  | cons c ds => exact skipSpaces_solid (digit_solid (digits c List.mem_cons_self))

theorem readField_padded (fits : n < 100) :
    readField ((Date.padded 2 n).toList ++ rest) = .some (n, rest) := by
  have length := Date.padded_length (w := 2) fits (by decide)
  unfold readField
  rw [skipSpaces_digits Date.padded_digit Date.padded_ne_nil,
    readNumber_append rest Date.padded_digit Date.padded_ne_nil (by omega) (Or.inl length),
    digitsValue_padded]

/-! ### Dates -/

/-- A year that is written with a sign is read up to the mark behind it. -/
theorem readNumber_all (stop : ∀ c ∈ rest.head?, c.isDigit = false) :
    readNumber ((Date.padded w n).toList ++ rest).length ((Date.padded w n).toList ++ rest) =
      some (n, rest) := by
  rw [readNumber_append rest Date.padded_digit Date.padded_ne_nil (by simp) (Or.inr stop),
    digitsValue_padded]

theorem readYear_text (year : Int) (rest : List Char) (stop : ∀ c ∈ rest.head?, c.isDigit = false) :
    readYear ((Date.yearText year).toList ++ rest) = some (year, rest) := by
  unfold Date.yearText
  split
  · rename_i common
    have length := Date.padded_length (w := 4) (n := year.toNat) (by omega) (by decide)
    have digits := @Date.padded_digit 4 year.toNat
    have read := readNumber_append rest digits Date.padded_ne_nil (Nat.le_of_eq length)
      (Or.inl length)
    rw [digitsValue_padded] at read
    cases h : (Date.padded 4 year.toNat).toList with
    | nil => exact absurd h Date.padded_ne_nil
    | cons c ds =>
      rw [h] at digits read
      have first := digits c List.mem_cons_self
      unfold readYear
      rw [List.cons_append, skipSpaces_solid (digit_solid first)]
      split
      · rename_i minus
        rw [(List.cons.inj minus).1] at first
        cases first
      · rename_i plus
        rw [(List.cons.inj plus).1] at first
        cases first
      · rw [← List.cons_append]
        simp only [read, Option.map_some, Int.toNat_of_nonneg common.1]
  · by_cases negative : year < 0
    · rw [if_pos negative, if_pos negative, String.toList_append, List.append_assoc]
      have read : ∀ behind, readYear ("-".toList ++ behind) =
          (readNumber behind.length behind).map fun p => (-(p.1 : Int), p.2) := fun _ => rfl
      simp only [read, readNumber_all stop, Option.map_some, show -(year.natAbs : Int) = year by omega]
    · rw [if_neg negative, if_neg negative, String.toList_append, List.append_assoc]
      have read : ∀ behind, readYear ("+".toList ++ behind) =
          (readNumber behind.length behind).map fun p => ((p.1 : Int), p.2) := fun _ => rfl
      simp only [read, readNumber_all stop, Option.map_some, show (year.natAbs : Int) = year by omega]

theorem expect_mark {c : Char} (solid : Solid c) : expect c (skipSpaces (c :: rest)) = some rest := by
  rw [skipSpaces_solid solid, expect, if_pos rfl]

theorem readDate_text {d : Date} (low : Date.minDay ≤ d.day) (high : d.day ≤ Date.maxDay) :
    readDate (d.text.toList ++ rest) = some (d, rest) := by
  have exists' := Date.ofYmd?_ymd low high
  obtain ⟨month, day⟩ := Date.ofYmd?_small exists'
  have chars : d.text.toList ++ rest = (Date.yearText d.ymd.1).toList ++
      ('-' :: ((Date.padded 2 d.ymd.2.1).toList ++
        ('-' :: ((Date.padded 2 d.ymd.2.2).toList ++ rest)))) := by
    simp [Date.text]
  rw [chars]
  unfold readDate
  simp only [readYear_text d.ymd.1 ('-' :: _) (by simp), expect_mark (c := '-') rfl,
    readField_padded month, readField_padded day, exists', bind, Option.bind, pure]

/-! ### Instants -/

theorem readFraction_padded {k m : Nat} (some : 0 < k) (width : k ≤ 9) (fits : m < 10 ^ k)
    (stop : ∀ c ∈ rest.head?, c.isDigit = false) :
    readFraction ('.' :: ((Date.padded k m).toList ++ rest)) = .some (m * 10 ^ (9 - k), rest) := by
  have length := Date.padded_length fits some
  have kept : rest.dropWhile Char.isDigit = rest := by
    cases rest with
    | nil => rfl
    | cons c rest => rw [List.dropWhile_cons, stop c rfl]; rfl
  have taken := takeWhile_digits rest Date.padded_digit (Nat.le_trans (Nat.le_of_eq length) width)
    (Or.inr stop)
  unfold readFraction
  simp only [taken, length, digitsValue_padded]
  rw [if_neg (mt List.isEmpty_iff.mp Date.padded_ne_nil), List.drop_left' length, kept]

theorem readFraction_text (rest : List Char) (fits : n < 1000000000) (stop : ∀ c ∈ rest.head?, c.isDigit = false)
    (plain : ∀ c ∈ rest.head?, c ≠ '.') :
    readFraction ((fractionText n).toList ++ rest) = some (n, rest) := by
  have point : ∀ t : String, ("." ++ t).toList ++ rest = '.' :: (t.toList ++ rest) := by simp
  unfold fractionText
  split
  · rename_i zero
    rw [zero, String.toList_empty, List.nil_append]
    unfold readFraction
    split
    · exact absurd rfl (plain '.' rfl)
    · rfl
  · split
    · rw [point, readFraction_padded (by decide) (by decide) (by omega) stop]
      exact congrArg (fun n => some (n, rest)) (by omega)
    · split
      · rw [point, readFraction_padded (by decide) (by decide) (by omega) stop]
        exact congrArg (fun n => some (n, rest)) (by omega)
      · rw [point, readFraction_padded (by decide) (by decide) (by omega) stop]
        exact congrArg (fun n => some (n, rest)) (by omega)

/-- The text of an instant of the calendar is read back as that instant. -/
theorem parse?_text {t : Instant} (range : inRange t.nanos = true) : parse? t.text = some t := by
  obtain ⟨low, high⟩ : Date.minDay * nanosPerDay ≤ t.nanos ∧ t.nanos < (Date.maxDay + 1) * nanosPerDay := by
    simpa [inRange] using range
  have day : 0 < nanosPerDay := by decide
  have first : Date.minDay ≤ t.date.day := (Int.le_ediv_iff_mul_le day).mpr low
  have last : t.date.day ≤ Date.maxDay := Int.lt_add_one_iff.mp ((Int.ediv_lt_iff_lt_mul day).mpr high)
  have parts : t.date.day * nanosPerDay + t.nanos % nanosPerDay = t.nanos := Int.ediv_mul_add_emod _ _
  obtain ⟨inDay, within⟩ : ∃ k : Nat, t.nanos % nanosPerDay = k :=
    ⟨_, (Int.toNat_of_nonneg (Int.emod_nonneg _ (by decide))).symm⟩
  have short : inDay < 86400000000000 := by
    have := Int.emod_lt_of_pos t.nanos day
    rw [within] at this
    simp only [nanosPerDay] at this
    omega
  have chars : t.text.toList = t.date.text.toList ++ ('T' ::
      ((Date.padded 2 (inDay / 1000000000 / 3600)).toList ++
        (':' :: ((Date.padded 2 (inDay / 1000000000 / 60 % 60)).toList ++
          (':' :: ((Date.padded 2 (inDay / 1000000000 % 60)).toList ++
            ((fractionText (inDay % 1000000000)).toList ++ ['Z']))))))) := by
    simp [text, within]
  have fraction := readFraction_text (n := inDay % 1000000000) ['Z'] (by omega)
    (by simp only [List.head?_cons, Option.mem_some_iff, forall_eq']; rfl) (by simp)
  have end' : readOffset (skipSpaces ['Z']) = some (0, []) := by decide
  have whole : (epoch.nanos + (t.date.day * nanosPerDay +
      ((inDay / 1000000000 / 3600 * 3600 + inDay / 1000000000 / 60 % 60 * 60 +
        inDay / 1000000000 % 60 : Nat) - 0 : Int) * 1000000000 + (inDay % 1000000000 : Nat))) = t.nanos := by
    simp only [epoch]
    omega
  have fields : inDay / 1000000000 / 3600 < 24 ∧ inDay / 1000000000 / 60 % 60 < 60 ∧
      inDay / 1000000000 % 60 < 60 := by omega
  unfold parse?
  rw [chars]
  simp only [readDate_text first last, true_or, if_true, bind, Option.bind,
    readField_padded (n := inDay / 1000000000 / 3600) (by omega), expect_mark (c := ':') rfl,
    readField_padded (n := inDay / 1000000000 / 60 % 60) (by omega),
    readField_padded (n := inDay / 1000000000 % 60) (by omega), fraction, end']
  simp only [guard, fields, and_self, if_true, pure, addNanos?, whole, range]
  rfl

end Instant

end WorkflowEngine
