import WorkflowEngine.Proofs.Json.Numeral

/-!
Reading what was printed. The text of a value is read as its document: the same structure, with each
number as its digits. What follows the text is left over, provided that it ends the value.
-/

namespace WorkflowEngine

/-! ### The document of a value -/

namespace Json

mutual

/-- The document that the text of a value is read as. -/
def document : Json → Document
  | .null => .null
  | .bool b => .bool b
  | .int n => .number (.ofInt n)
  | .double x => .number x.numeral
  | .str s => .text (some s)
  | .arr items => .list (documents items)
  | .obj members => .record (memberDocuments members)

def documents : List Json → List Document
  | [] => []
  | a :: rest => document a :: documents rest

def memberDocuments : List (String × Json) → List (Option String × Document)
  | [] => []
  | (k, v) :: rest => (some k, document v) :: memberDocuments rest

end

theorem memberDocuments_eq (members : List (String × Json)) :
    memberDocuments members = members.map fun m => (some m.1, m.2.document) := by
  induction members with
  | nil => rfl
  | cons m rest ih => simp [memberDocuments, ih]

end Json

namespace Document

variable {rest : Input} {c : Char}

/-! ### Quoted texts -/

theorem hexUnit_control :
    ∀ n < 32, hexUnit '0' '0' (Json.hexDigit (n / 16)) (Json.hexDigit (n % 16)) = some n := by
  decide

theorem readPieces_escapeChar :
    readPieces ((Json.escapeChar c).map some ++ rest) =
      (readPieces rest).map fun p => (.char c :: p.1, p.2) := by
  unfold Json.escapeChar
  iterate 7
    split
    · subst_vars
      cases read : readPieces rest <;> simp [readPieces, shortEscape, read]
  split
  · rename_i control
    have unit := hexUnit_control c.toNat control
    have piece : pieceOfUnit c.toNat = .char c := by
      unfold pieceOfUnit
      rw [if_neg (by omega), Char.ofNat_toNat]
    cases read : readPieces rest <;> simp [readPieces, unit, piece, read]
  · rename_i plain
    simp only [List.map_cons, List.map_nil, List.cons_append, List.nil_append]
    rw [readPieces.eq_def]
    cases read : readPieces rest <;> split <;> simp_all

theorem readPieces_quoted (s : List Char) :
    readPieces ((s.flatMap Json.escapeChar ++ ['"']).map some ++ rest) =
      some (s.map .char, rest) := by
  induction s with
  | nil => simp [readPieces]
  | cons c s ih =>
    rw [List.flatMap_cons, List.append_assoc, List.map_append, List.append_assoc,
      readPieces_escapeChar, ih]
    rfl

theorem joinPieces_chars (s : List Char) : joinPieces (s.map .char) = some s := by
  induction s with
  | nil => rfl
  | cons c s ih => simp [joinPieces, ih]

theorem readText_quoted (s : String) :
    readText ((s.toList.flatMap Json.escapeChar ++ ['"']).map some ++ rest) = some (some s, rest) := by
  unfold readText
  simp only [readPieces_quoted, Option.map_some, joinPieces_chars, String.ofList_toList]

/-! ### Values -/

/-- The text begins, with no blank and without closing anything. -/
def Opens (s : List Char) : Prop := ∃ c cs, s = c :: cs ∧ isBlank c = false ∧ c ≠ ']' ∧ c ≠ '}'

theorem Opens.append {s t : List Char} (opens : Opens s) : Opens (s ++ t) := by
  obtain ⟨c, cs, rfl, rest⟩ := opens
  exact ⟨c, cs ++ t, rfl, rest⟩

theorem Opens.skipBlanks {s : List Char} (opens : Opens s) :
    skipBlanks (s.map some ++ rest) = s.map some ++ rest := by
  obtain ⟨c, cs, rfl, blank, _⟩ := opens
  rw [List.map_cons, List.cons_append, Document.skipBlanks, blank]
  rfl

theorem digit_opens {c : Char} {cs : List Char} (digit : c.isDigit = true) : Opens (c :: cs) := by
  have other : ∀ d : Char, d.isDigit = false → c ≠ d := by
    rintro d not rfl
    rw [digit] at not
    cases not
  refine ⟨c, cs, rfl, ?_, other ']' rfl, other '}' rfl⟩
  simp [isBlank, other ' ' rfl, other '\n' rfl, other '\r' rfl, other '\t' rfl]

theorem written_opens {n : Written} (proper : n.Proper) (negative : Bool) :
    Opens ((if negative then ['-'] else []) ++ n.chars) := by
  obtain ⟨nonempty, digits⟩ := proper.whole
  cases negative with
  | true => exact ⟨'-', n.chars, rfl, by decide⟩
  | false =>
    cases whole : n.whole with
    | nil => exact absurd whole nonempty
    | cons c ds =>
      have digit : c.isDigit = true := digits c (by rw [whole]; exact List.mem_cons_self)
      simpa [Written.chars, whole] using digit_opens digit

theorem chars_opens (j : Json) : Opens j.chars := by
  cases j with
  | null => exact ⟨_, _, rfl, by decide⟩
  | bool b => cases b <;> exact ⟨_, _, rfl, by decide⟩
  | int n =>
    rw [Json.chars, int_chars]
    have opens := written_opens (toDigits_proper n.natAbs) (decide (n < 0))
    simpa [Written.chars, Written.fractionChars, Written.exponentChars] using opens
  | double x =>
    obtain ⟨negative, n, proper, chars⟩ := x.text_written
    rw [Json.chars, chars]
    exact written_opens proper negative
  | str s => exact ⟨_, _, rfl, by decide⟩
  | arr items => exact ⟨_, _, rfl, by decide⟩
  | obj members => exact ⟨_, _, rfl, by decide⟩

theorem itemChars_opens (a : Json) (items : List Json) : Opens (Json.itemChars (a :: items)) := by
  cases items with
  | nil => exact chars_opens a
  | cons b items => exact (chars_opens a).append

theorem memberChars_opens (m : String × Json) (members : List (String × Json)) :
    Opens (Json.memberChars (m :: members)) := by
  cases members with
  | nil => exact ⟨_, _, rfl, by decide⟩
  | cons m' members => exact ⟨_, _, rfl, by decide⟩

theorem readWord_append (word : List Char) (d : Document) :
    readWord word d (word.map some ++ rest) = some (d, rest) := by
  unfold readWord
  rw [if_pos (List.prefix_append _ _)]
  simp

theorem skipBlanks_kept {c : Char} (mark : isBlank c = false) :
    skipBlanks (some c :: rest) = some c :: rest := by
  rw [skipBlanks, mark]
  rfl

theorem readValue_list {s : List Char} (opens : Opens s) (fuel : Nat) :
    readValue (fuel + 1) (some '[' :: (s.map some ++ rest)) =
      (readItems fuel (s.map some ++ rest)).map fun p => (.list p.1, p.2) := by
  obtain ⟨c, cs, rfl, mark, other, _⟩ := opens
  have bracket : isBlank '[' = false := by decide
  simp only [List.map_cons, List.cons_append, readValue, skipBlanks_kept bracket, skipBlanks_kept mark]
  split
  · rename_i equal
    exact absurd (Option.some.inj (List.cons.inj equal).1) other
  · rfl

theorem readValue_record {s : List Char} (opens : Opens s) (fuel : Nat) :
    readValue (fuel + 1) (some '{' :: (s.map some ++ rest)) =
      (readMembers fuel (s.map some ++ rest)).map fun p => (.record p.1, p.2) := by
  obtain ⟨c, cs, rfl, mark, _, other⟩ := opens
  have bracket : isBlank '{' = false := by decide
  simp only [List.map_cons, List.cons_append, readValue, skipBlanks_kept bracket, skipBlanks_kept mark]
  split
  · rename_i equal
    exact absurd (Option.some.inj (List.cons.inj equal).1) other
  · rfl

/-- What is read behind a member with its value. -/
def readBehindMember (fuel : Nat) (k : String) (p : Document × Input) :
    Option (List (Option String × Document) × Input) :=
  match skipBlanks p.2 with
  | some ',' :: rest => (readMembers fuel rest).map fun q => ((some k, p.1) :: q.1, q.2)
  | some '}' :: rest => some ([(some k, p.1)], rest)
  | _ => none

/-- A name and what is behind its colon. -/
theorem readMembers_member {fuel : Nat} {k : String} {behind : Input} :
    readMembers (fuel + 1)
        (some '"' :: ((k.toList.flatMap Json.escapeChar ++ ['"']).map some ++ some ':' :: behind)) =
      (readValue fuel behind).bind (readBehindMember fuel k) := by
  have quote : isBlank '"' = false := by decide
  have colon : isBlank ':' = false := by decide
  simp only [readMembers, skipBlanks_kept quote, readText_quoted, Option.bind_eq_bind,
    Option.bind_some, skipBlanks_kept colon]
  rfl

theorem Delimited.mark {c : Char} (h : c = ',' ∨ c = ']' ∨ c = '}') : Delimited (some c :: rest) := by
  intro o ho
  cases ho
  simpa using h

mutual

/-- Reading the text of a value gives its document; the length of the text bounds the recursion. -/
theorem readValue_chars (j : Json) (fuel : Nat) (rest : Input) (bound : j.chars.length ≤ fuel)
    (delimited : Delimited rest) :
    readValue fuel (j.chars.map some ++ rest) = some (j.document, rest) := by
  obtain ⟨fuel, rfl⟩ : ∃ n, fuel = n + 1 := by
    obtain ⟨c, cs, chars, _⟩ := chars_opens j
    rw [chars, List.length_cons] at bound
    exact ⟨fuel - 1, by omega⟩
  match j with
  | .null => exact readWord_append ['u', 'l', 'l'] .null
  | .bool true => exact readWord_append ['r', 'u', 'e'] (.bool true)
  | .bool false => exact readWord_append ['a', 'l', 's', 'e'] (.bool false)
  | .int n => exact readValue_int n delimited fuel
  | .double x => exact readValue_double x delimited fuel
  | .str s =>
    have text : (Json.str s).chars.map some ++ rest =
        some '"' :: ((s.toList.flatMap Json.escapeChar ++ ['"']).map some ++ rest) := rfl
    rw [text]
    change (readText _).map _ = _
    rw [readText_quoted]
    rfl
  | .arr [] => rfl
  | .arr (a :: items) =>
    have read := readItems_chars a items fuel rest (by simp [Json.chars] at bound; omega)
    have text : (Json.arr (a :: items)).chars.map some ++ rest =
        some '[' :: ((Json.itemChars (a :: items)).map some ++ some ']' :: rest) := by
      simp [Json.chars]
    rw [text, readValue_list (itemChars_opens a items), read]
    rfl
  | .obj [] => rfl
  | .obj (m :: members) =>
    have read := readMembers_chars m members fuel rest (by simp [Json.chars] at bound; omega)
    have text : (Json.obj (m :: members)).chars.map some ++ rest =
        some '{' :: ((Json.memberChars (m :: members)).map some ++ some '}' :: rest) := by
      simp [Json.chars]
    rw [text, readValue_record (memberChars_opens m members), read]
    rfl
termination_by fuel

theorem readItems_chars (a : Json) (items : List Json) (fuel : Nat) (rest : Input)
    (bound : (Json.itemChars (a :: items)).length + 1 ≤ fuel) :
    readItems fuel ((Json.itemChars (a :: items)).map some ++ some ']' :: rest) =
      some (Json.documents (a :: items), rest) := by
  obtain ⟨fuel, rfl⟩ : ∃ n, fuel = n + 1 := ⟨fuel - 1, by omega⟩
  match items with
  | [] =>
    have first := readValue_chars a fuel (some ']' :: rest) (by simp [Json.itemChars] at bound; omega)
      (.mark (by decide))
    rw [readItems, Json.itemChars, first]
    rfl
  | b :: items =>
    have first := readValue_chars a fuel
      (some ',' :: ((Json.itemChars (b :: items)).map some ++ some ']' :: rest))
      (by simp [Json.itemChars] at bound; omega) (.mark (by decide))
    have others := readItems_chars b items fuel rest (by simp [Json.itemChars] at bound; omega)
    have text : (Json.itemChars (a :: b :: items)).map some ++ some ']' :: rest =
        a.chars.map some ++ some ',' :: ((Json.itemChars (b :: items)).map some ++ some ']' :: rest) := by
      simp [Json.itemChars]
    rw [text, readItems, first]
    change (readItems _ _).map _ = _
    rw [others]
    rfl
termination_by fuel

theorem readMembers_chars (m : String × Json) (members : List (String × Json)) (fuel : Nat)
    (rest : Input) (bound : (Json.memberChars (m :: members)).length + 1 ≤ fuel) :
    readMembers fuel ((Json.memberChars (m :: members)).map some ++ some '}' :: rest) =
      some (Json.memberDocuments (m :: members), rest) := by
  obtain ⟨fuel, rfl⟩ : ∃ n, fuel = n + 1 := ⟨fuel - 1, by omega⟩
  obtain ⟨k, v⟩ := m
  match members with
  | [] =>
    have value := readValue_chars v fuel (some '}' :: rest)
      (by simp [Json.memberChars] at bound; omega) (.mark (by decide))
    have text : (Json.memberChars [(k, v)]).map some ++ some '}' :: rest =
        some '"' :: ((k.toList.flatMap Json.escapeChar ++ ['"']).map some ++
          some ':' :: (v.chars.map some ++ some '}' :: rest)) := by
      simp [Json.memberChars, Json.quoteChars]
    rw [text, readMembers_member, value]
    rfl
  | m' :: members =>
    have value := readValue_chars v fuel
      (some ',' :: ((Json.memberChars (m' :: members)).map some ++ some '}' :: rest))
      (by simp [Json.memberChars] at bound; omega) (.mark (by decide))
    have others := readMembers_chars m' members fuel rest (by simp [Json.memberChars] at bound; omega)
    have text : (Json.memberChars ((k, v) :: m' :: members)).map some ++ some '}' :: rest =
        some '"' :: ((k.toList.flatMap Json.escapeChar ++ ['"']).map some ++
          some ':' :: (v.chars.map some ++
            some ',' :: ((Json.memberChars (m' :: members)).map some ++ some '}' :: rest))) := by
      simp [Json.memberChars, Json.quoteChars]
    rw [text, readMembers_member, value]
    change (readMembers _ _).map _ = _
    rw [others]
    rfl
termination_by fuel

end

/-! ### Whole texts -/

theorem ofText?_text (j : Json) : ofText? j.text = some j.document := by
  have read := readValue_chars j (2 * j.chars.length + 2) [] (by omega) (by simp [Delimited])
  rw [List.append_nil] at read
  simp only [ofText?, ofInput?, Json.text, String.toList_ofList, List.length_map, read,
    Option.bind_eq_bind, Option.bind_some]
  rfl

/-- What is sent is read as the document of the value. -/
theorem ofBytes?_text (j : Json) : ofBytes? j.text.toUTF8 = some j.document := by
  have decoded : String.fromUTF8? j.text.toUTF8 = some j.text := by
    unfold String.fromUTF8?
    exact dif_pos j.text.isValidUTF8
  rw [ofBytes?, decoded]
  exact ofText?_text j

end Document

end WorkflowEngine
