import WorkflowEngine.Json.Printer
import WorkflowEngine.Json.Reader

/-!
Reading numbers as they are printed. An integer and a double are both written with digits in every
part and no needless zero in front, and such a number is read up to the mark behind it.
-/

namespace WorkflowEngine

/-- The digits of a number, the first one first. -/
def Numeral.digitsOf (n : Nat) : List Nat := (Nat.toDigits 10 n).map (·.toNat - 48)

def Numeral.ofInt (n : Int) : Numeral where
  negative := decide (n < 0)
  whole := digitsOf n.natAbs

/-- The numeral that the text of a double is read as. -/
def Double.numeral (x : Double) : Numeral :=
  match Document.ofText? x.text with
  | some (.number n) => n
  | _ => .ofInt 0

namespace Document

/-- What may stand behind a value: nothing, or a mark between or behind values. -/
def Delimited (rest : Input) : Prop :=
  ∀ o ∈ rest.head?, o = some ',' ∨ o = some ']' ∨ o = some '}'

variable {rest : Input} {c : Char} {ds : List Char} {d : Document}

/-! ### Numbers -/

theorem readDigits_append (digits : ∀ c ∈ ds, c.isDigit = true)
    (stop : ∀ c, rest.head? = some (some c) → c.isDigit = false) :
    readDigits (ds.map some ++ rest) = (ds.map (·.toNat - 48), rest) := by
  induction ds with
  | nil =>
    cases rest with
    | nil => rfl
    | cons o rest =>
      cases o with
      | none => rfl
      | some c => simp [readDigits, stop c rfl]
  | cons c ds ih =>
    have first := digits c List.mem_cons_self
    have later := ih fun d hd => digits d (List.mem_cons_of_mem _ hd)
    simp [readDigits, first, later]

theorem Delimited.head (delimited : Delimited rest) (h : rest.head? = some (some c)) :
    c = ',' ∨ c = ']' ∨ c = '}' := by
  simpa using delimited _ h

/-- A number as it is written, without its sign. -/
structure Written where
  whole : List Char
  fraction : Option (List Char) := none
  exponent : Option (Bool × List Char) := none

namespace Written

def fractionChars : Option (List Char) → List Char
  | none => []
  | some ds => '.' :: ds

def exponentChars : Option (Bool × List Char) → List Char
  | none => []
  | some (negative, ds) => 'e' :: (if negative then '-' else '+') :: ds

def chars (n : Written) : List Char :=
  n.whole ++ fractionChars n.fraction ++ exponentChars n.exponent

def numeral (negative : Bool) (n : Written) : Numeral where
  negative := negative
  whole := n.whole.map (·.toNat - 48)
  fraction := n.fraction.map (·.map (·.toNat - 48))
  exponent := n.exponent.map fun (negative, ds) => (negative, ds.map (·.toNat - 48))

/-- Digits, at least one. -/
def Digits (ds : List Char) : Prop := ds ≠ [] ∧ ∀ c ∈ ds, c.isDigit = true

/-- The number is written as numbers are read: digits in every part, and no needless zero in front. -/
structure Proper (n : Written) : Prop where
  whole : Digits n.whole
  lead : n.whole.length = 1 ∨ n.whole.head? ≠ some '0'
  fraction : ∀ ds ∈ n.fraction, Digits ds
  exponent : ∀ e ∈ n.exponent, Digits e.2

end Written

theorem readFraction_append {f : Option (List Char)} (proper : ∀ ds ∈ f, Written.Digits ds)
    (stop : ∀ c, rest.head? = some (some c) → c.isDigit = false ∧ c ≠ '.') :
    readFraction ((Written.fractionChars f).map some ++ rest) =
      some (f.map (·.map (·.toNat - 48)), rest) := by
  cases f with
  | none =>
    rw [Written.fractionChars, List.map_nil, List.nil_append, readFraction.eq_def]
    split
    · rename_i point
      exact absurd rfl (stop '.' rfl).2
    · rfl
  | some ds =>
    obtain ⟨some, digits⟩ := proper ds rfl
    have read := readDigits_append digits fun c h => (stop c h).1
    rw [Written.fractionChars, List.map_cons, List.cons_append, readFraction, read]
    cases ds with
    | nil => exact absurd rfl some
    | cons d ds => rfl

theorem readExponent_append {e : Option (Bool × List Char)}
    (proper : ∀ x ∈ e, Written.Digits x.2) (delimited : Delimited rest) :
    readExponent ((Written.exponentChars e).map some ++ rest) =
      some (e.map fun x => (x.1, x.2.map (·.toNat - 48)), rest) := by
  have stop : ∀ c, rest.head? = some (some c) → c.isDigit = false := by
    intro c h
    rcases delimited.head h with rfl | rfl | rfl <;> rfl
  cases e with
  | none =>
    rw [Written.exponentChars, List.map_nil, List.nil_append, readExponent.eq_def]
    split
    · exact absurd (delimited.head rfl) (by decide)
    · exact absurd (delimited.head rfl) (by decide)
    · rfl
  | some x =>
    obtain ⟨negative, ds⟩ := x
    obtain ⟨some, digits⟩ := proper _ rfl
    have read := readDigits_append digits stop
    cases ds with
    | nil => exact absurd rfl some
    | cons d ds =>
      rw [List.map_cons, List.cons_append] at read
      cases negative <;>
        simp [Written.exponentChars, readExponent, read]

theorem digit_eq_zero {c : Char} (digit : c.isDigit = true) (value : c.toNat - 48 = 0) : c = '0' := by
  simp only [Char.isDigit, Bool.and_eq_true, decide_eq_true_eq] at digit
  have low : 48 ≤ c.toNat := digit.1
  exact Char.toNat_inj.mp (show c.toNat = 48 by omega)

theorem readNumeral_append {n : Written} (proper : n.Proper) (negative : Bool)
    (delimited : Delimited rest) :
    readNumeral negative (n.chars.map some ++ rest) = some (.number (n.numeral negative), rest) := by
  have exponent := readExponent_append proper.exponent delimited
  have afterFraction : ∀ c, ((Written.exponentChars n.exponent).map some ++ rest).head? =
      some (some c) → c.isDigit = false ∧ c ≠ '.' := by
    intro c h
    cases e : n.exponent with
    | none =>
      rw [e] at h
      rcases delimited.head h with rfl | rfl | rfl <;> decide
    | some x =>
      rw [e] at h
      cases h
      decide
  have fraction := readFraction_append proper.fraction afterFraction
  have afterWhole : ∀ c, ((Written.fractionChars n.fraction).map some ++
      ((Written.exponentChars n.exponent).map some ++ rest)).head? = some (some c) →
        c.isDigit = false := by
    intro c h
    cases f : n.fraction with
    | none =>
      rw [f] at h
      exact (afterFraction c h).1
    | some ds =>
      rw [f] at h
      cases h
      rfl
  have whole := readDigits_append proper.whole.2 afterWhole
  have split : n.chars.map some ++ rest = n.whole.map some ++
      ((Written.fractionChars n.fraction).map some ++
        ((Written.exponentChars n.exponent).map some ++ rest)) := by
    simp [Written.chars]
  rw [split, readNumeral, whole]
  simp only
  split
  · rename_i none
    exact absurd (List.map_eq_nil_iff.mp (Prod.mk.inj none).1) proper.whole.1
  · rename_i first second equal
    have digits := (Prod.mk.inj equal).1
    match w : n.whole with
    | [] => exact absurd w proper.whole.1
    | [d] => simp [w] at digits
    | d :: e :: ds =>
      rw [w] at digits
      have digit := proper.whole.2 d (by rw [w]; exact List.mem_cons_self)
      have zero := digit_eq_zero digit (List.cons.inj digits).1
      rcases proper.lead with short | lead
      · simp [w] at short
      · exact absurd (by rw [w, zero]; rfl) lead
  · rename_i equal
    obtain ⟨rfl, rfl⟩ := Prod.mk.inj equal
    rw [fraction]
    simp only [Option.bind_eq_bind, Option.bind_some]
    rw [exponent]
    rfl

/-! ### Integers -/

theorem toDigits_digits (n : Nat) : Written.Digits (Nat.toDigits 10 n) :=
  ⟨Nat.toDigits_ne_nil, fun _ h => Nat.isDigit_of_mem_toDigits (by decide) (by decide) h⟩

theorem toDigits_head {n : Nat} (positive : 0 < n) : (Nat.toDigits 10 n).head? ≠ some '0' := by
  induction n using Nat.strongRecOn with
  | ind n ih =>
    rw [Nat.toDigits_eq_if (by decide)]
    split
    · rename_i small
      have : ∀ k < 10, 0 < k → [Nat.digitChar k].head? ≠ some '0' := by decide
      exact this n small positive
    · rename_i large
      have earlier := ih (n / 10) (by omega) (by omega)
      cases digits : Nat.toDigits 10 (n / 10) with
      | nil => exact absurd digits Nat.toDigits_ne_nil
      | cons d ds => rwa [digits] at earlier

theorem toDigits_proper (n : Nat) : Written.Proper { whole := Nat.toDigits 10 n } := by
  refine ⟨toDigits_digits n, ?_, by simp, by simp⟩
  by_cases zero : n = 0
  · subst zero
    exact Or.inl rfl
  · exact Or.inr (toDigits_head (Nat.pos_of_ne_zero zero))

theorem int_chars (n : Int) :
    (toString n).toList = (if n < 0 then ['-'] else []) ++ Nat.toDigits 10 n.natAbs := by
  rw [Int.toString_eq_repr, Int.repr_eq_if]
  split
  · rename_i positive
    rw [if_neg (by omega), Nat.toList_repr, show n.toNat = n.natAbs by omega, List.nil_append]
  · rename_i negative
    rw [if_pos (by omega), String.toList_append, Nat.toList_repr, show (-n).toNat = n.natAbs by omega]
    rfl

/-! ### Values -/

/-- A digit begins no value but a number. -/
theorem readValue_digit {fuel : Nat} (digit : c.isDigit = true) :
    readValue (fuel + 1) (some c :: rest) = readNumeral false (some c :: rest) := by
  have other : ∀ d : Char, d.isDigit = false → c ≠ d := by
    rintro d not rfl
    rw [digit] at not
    cases not
  have blank : isBlank c = false := by
    simp [isBlank, other ' ' rfl, other '\n' rfl, other '\r' rfl, other '\t' rfl]
  have kept : skipBlanks (some c :: rest) = some c :: rest := by
    rw [skipBlanks, blank]
    rfl
  rw [readValue, kept]
  split
  all_goals first
    | rfl
    | rename_i equal
      exact absurd (Option.some.inj (List.cons.inj equal).1) (other _ rfl)

end Document

/-! ### Doubles -/

namespace Decimal

open Document (Written)

theorem strip_positive (d : Digits) (positive : d.digits ≠ 0) : d.strip.digits ≠ 0 := by
  induction d using Digits.strip.induct with
  | case1 d more ih =>
    rw [Digits.strip, dif_pos more]
    exact ih (by dsimp only; omega)
  | case2 d last =>
    rwa [Digits.strip, dif_neg last]

/-- The interval of a positive number does not reach down to zero. -/
theorem readsBack_positive {x : Binary} {d : Digits} (positive : 0 < x.m)
    (h : x.readsBack d = true) : d.digits ≠ 0 := by
  intro zero
  have least : ∀ lo, 0 < lo → compareScaled d.digits d.exp lo (x.q - 2) = .lt := by
    intro lo some
    unfold compareScaled
    rw [zero, Nat.zero_mul, Nat.zero_mul, Nat.compare_eq_lt]
    exact Nat.mul_pos (Nat.mul_pos some (Nat.pow_pos (by decide))) (Nat.pow_pos (by decide))
  unfold Binary.readsBack at h
  simp only at h
  split at h
  · rw [least _ (by omega)] at h
    simp at h
  · rw [least _ (by omega)] at h
    simp at h

theorem onGrid?_positive {x : Binary} {e : Int} {d : Digits} (positive : 0 < x.m)
    (h : x.onGrid? e = some d) : d.digits ≠ 0 := by
  unfold Binary.onGrid? at h
  simp only at h
  split at h
  · cases h
  · rename_i below above
    cases h
    exact readsBack_positive positive below
  · cases h
    exact Nat.succ_ne_zero _
  · rename_i below above
    have some := readsBack_positive positive below
    split at h
    · cases h
      exact some
    · cases h
      exact Nat.succ_ne_zero _
    · cases h
      split
      · exact some
      · exact Nat.succ_ne_zero _

theorem shortest_positive {x : Binary} (positive : 0 < x.m) : x.shortest.digits ≠ 0 := by
  unfold Binary.shortest
  simp only
  split
  · rename_i found
    obtain ⟨n, _, found⟩ := List.exists_of_findSome?_eq_some found
    exact strip_positive _ (onGrid?_positive positive found)
  · split
    · exact Nat.ne_of_gt (Nat.mul_pos positive (Nat.pow_pos (by decide)))
    · exact Nat.ne_of_gt (Nat.mul_pos positive (Nat.pow_pos (by decide)))

theorem ofDouble_positive {x : Double} (h : (x.magnitudeBits == 0) = false) :
    0 < (Binary.ofDouble x).m := by
  have magnitude : x.bits.toNat % 2 ^ 63 ≠ 0 := by
    intro zero
    have : x.magnitudeBits = 0 := by
      have masked := Nat.and_two_pow_sub_one_eq_mod x.bits.toNat 63
      rw [zero] at masked
      rw [← UInt64.toNat_inj, Double.magnitudeBits, UInt64.toNat_and]
      exact masked
    rw [this] at h
    cases h
  have exponent : ((x.bits >>> 52) &&& 0x7FF).toNat = x.bits.toNat / 2 ^ 52 % 2 ^ 11 := by
    simp [Nat.and_two_pow_sub_one_eq_mod _ 11, Nat.shiftRight_eq_div_pow]
  have fraction : (x.bits &&& 0xFFFFFFFFFFFFF).toNat = x.bits.toNat % 2 ^ 52 := by
    simp [Nat.and_two_pow_sub_one_eq_mod _ 52]
  unfold Binary.ofDouble
  simp only [exponent, fraction]
  split
  · rename_i zero
    simp only [beq_iff_eq] at zero
    dsimp only
    omega
  · exact Nat.add_pos_left (Nat.two_pow_pos 52) _

theorem digits_zero : Written.Digits ['0'] :=
  ⟨List.cons_ne_nil _ _, List.forall_mem_singleton.mpr rfl⟩

theorem Written.digits_zeros {n : Nat} : ∀ c ∈ List.replicate n '0', c.isDigit = true := by
  intro c h
  rw [List.eq_of_mem_replicate h]
  rfl

theorem layout_written {d : Digits} (positive : d.digits ≠ 0) :
    ∃ n : Written, n.Proper ∧ d.layout.toList = n.chars := by
  obtain ⟨nonempty, digits⟩ := Document.toDigits_digits d.digits
  have lead := Document.toDigits_head (Nat.pos_of_ne_zero positive)
  have length := List.length_pos_iff.mpr nonempty
  unfold Digits.layout
  generalize Nat.toDigits 10 d.digits = ds at nonempty digits lead length
  simp only
  split
  · split
    · -- An integer: zeros up to the point, and one behind it.
      refine ⟨{ whole := ds ++ List.replicate d.exp.toNat '0', fraction := some ['0'] }, ?_, ?_⟩
      · refine ⟨⟨List.append_ne_nil_of_left_ne_nil nonempty _, ?_⟩, Or.inr ?_, ?_, by simp⟩
        · intro c h
          rcases List.mem_append.mp h with own | zero
          · exact digits c own
          · exact Written.digits_zeros c zero
        · cases ds with
          | nil => exact absurd rfl nonempty
          | cons c ds => exact lead
        · intro f h
          cases h
          exact digits_zero
      · simp [Written.chars, Written.fractionChars, Written.exponentChars]
    · rename_i range below
      split
      · -- The point stands among the digits.
        rename_i inside
        generalize split : (↑ds.length + d.exp - 1).toNat + 1 = whole
        have within : 0 < whole ∧ whole < ds.length := by omega
        refine ⟨{ whole := ds.take whole, fraction := some (ds.drop whole) }, ?_, ?_⟩
        · refine ⟨⟨?_, fun c h => digits c (List.mem_of_mem_take h)⟩, Or.inr ?_, ?_, by simp⟩
          · exact List.ne_nil_of_length_pos (by rw [List.length_take]; omega)
          · rwa [List.head?_take, if_neg (by omega)]
          · intro f h
            cases h
            exact ⟨List.ne_nil_of_length_pos (by rw [List.length_drop]; omega),
              fun c h => digits c (List.mem_of_mem_drop h)⟩
        · simp [Written.chars, Written.fractionChars, Written.exponentChars]
      · -- The number is below one.
        generalize (-(↑ds.length + d.exp - 1) - 1).toNat = zeros
        refine ⟨{ whole := ['0'], fraction := some (List.replicate zeros '0' ++ ds) }, ?_, ?_⟩
        · refine ⟨digits_zero, Or.inl rfl, ?_, by simp⟩
          intro f h
          cases h
          refine ⟨List.append_ne_nil_of_right_ne_nil _ nonempty, ?_⟩
          intro c h
          rcases List.mem_append.mp h with zero | own
          · exact Written.digits_zeros c zero
          · exact digits c own
        · simp [Written.chars, Written.fractionChars, Written.exponentChars]
  · -- One digit, the others behind the point, and the exponent.
    generalize (↑ds.length + d.exp - 1 : Int) = power
    have exponent := Document.toDigits_digits power.natAbs
    have sign : (if power < 0 then "-" else "+").toList = [if power < 0 then '-' else '+'] := by
      split <;> rfl
    cases ds with
    | nil => exact absurd rfl nonempty
    | cons c rest =>
      have first := digits c List.mem_cons_self
      refine ⟨{
        whole := [c]
        fraction := if rest = [] then none else some rest
        exponent := some (decide (power < 0), Nat.toDigits 10 power.natAbs) }, ?_, ?_⟩
      · refine ⟨⟨List.cons_ne_nil _ _, by simpa using first⟩, Or.inl rfl, ?_, ?_⟩
        · intro f h
          split at h
          · cases h
          · rename_i more
            cases h
            exact ⟨more, fun c h => digits c (List.mem_cons_of_mem _ h)⟩
        · intro e h
          cases h
          exact exponent
      · cases rest with
        | nil => simp [Written.chars, Written.fractionChars, Written.exponentChars, sign]
        | cons c' rest => simp [Written.chars, Written.fractionChars, Written.exponentChars, sign]

end Decimal

theorem Double.text_written (x : Double) :
    ∃ (negative : Bool) (n : Document.Written), n.Proper ∧
      x.text.toList = (if negative then ['-'] else []) ++ n.chars := by
  have unsigned : ∃ n : Document.Written, n.Proper ∧
      (if x.magnitudeBits == 0 then "0.0" else (Decimal.Binary.ofDouble x).shortest.layout).toList =
        n.chars := by
    split
    · refine ⟨{ whole := ['0'], fraction := some ['0'] }, ⟨Decimal.digits_zero, Or.inl rfl, ?_, by simp⟩, rfl⟩
      intro ds h
      cases h
      exact Decimal.digits_zero
    · rename_i some
      exact Decimal.layout_written (Decimal.shortest_positive
        (Decimal.ofDouble_positive (Bool.not_eq_true _ ▸ some)))
  obtain ⟨n, proper, chars⟩ := unsigned
  refine ⟨x.isNegative, n, proper, ?_⟩
  unfold Double.text
  simp only
  split
  · rw [String.toList_append, chars]
    rfl
  · rw [chars]
    rfl

namespace Document

variable {rest : Input}

/-- A sign and a number as it is written are read together. -/
theorem readValue_written {n : Written} (proper : n.Proper) (negative : Bool)
    (delimited : Delimited rest) (fuel : Nat) :
    readValue (fuel + 1) (((if negative then ['-'] else []) ++ n.chars).map some ++ rest) =
      some (.number (n.numeral negative), rest) := by
  have read := readNumeral_append proper negative delimited
  cases negative with
  | true =>
    rw [← read]
    simp [readValue, skipBlanks, isBlank]
  | false =>
    obtain ⟨nonempty, digits⟩ := proper.whole
    cases whole : n.whole with
    | nil => exact absurd whole nonempty
    | cons c ds =>
      have first : c.isDigit = true := digits c (by rw [whole]; exact List.mem_cons_self)
      have chars : n.chars = c :: (ds ++ Written.fractionChars n.fraction ++
          Written.exponentChars n.exponent) := by
        simp [Written.chars, whole]
      rw [← read, if_neg Bool.false_ne_true, List.nil_append, chars]
      exact readValue_digit first

theorem readValue_int (n : Int) (delimited : Delimited rest) (fuel : Nat) :
    readValue (fuel + 1) ((toString n).toList.map some ++ rest) =
      some (.number (.ofInt n), rest) := by
  have read := readValue_written (toDigits_proper n.natAbs) (decide (n < 0)) delimited fuel
  rw [int_chars]
  simpa [Written.chars, Written.fractionChars, Written.exponentChars, Written.numeral,
    Numeral.ofInt, Numeral.digitsOf] using read

theorem readValue_double (x : Double) (delimited : Delimited rest) (fuel : Nat) :
    readValue (fuel + 1) (x.text.toList.map some ++ rest) = some (.number x.numeral, rest) := by
  obtain ⟨negative, n, proper, chars⟩ := x.text_written
  have numeral : x.numeral = n.numeral negative := by
    have alone : Delimited [] := by simp [Delimited]
    have read := readValue_written proper negative alone
    simp only [List.append_nil] at read
    unfold Double.numeral ofText? ofInput?
    rw [chars, read]
    rfl
  rw [chars, numeral]
  exact readValue_written proper negative delimited fuel

end Document

end WorkflowEngine
