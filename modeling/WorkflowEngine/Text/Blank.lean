/-!
Blank characters: those with the White_Space property of Unicode.
-/

namespace WorkflowEngine.Text

/-- Closed ranges of code points, ascending and apart. -/
def blankRanges : List (Nat × Nat) :=
  [(0x09, 0x0D), (0x20, 0x20), (0x85, 0x85), (0xA0, 0xA0), (0x1680, 0x1680), (0x2000, 0x200A),
   (0x2028, 0x2029), (0x202F, 0x202F), (0x205F, 0x205F), (0x3000, 0x3000)]

def isBlank (c : Char) : Bool := blankRanges.any fun r => r.1 ≤ c.toNat && c.toNat ≤ r.2

/-- The text without the blanks at its ends. -/
def trim (s : String) : String :=
  String.ofList (((s.toList.dropWhile isBlank).reverse.dropWhile isBlank).reverse)

/-- What follows the given lead, if the text starts with it. -/
def afterLead? (lead s : String) : Option String :=
  if lead.toList <+: s.toList then some (String.ofList (s.toList.drop lead.length)) else none

/-- The pieces between the given character. -/
def splitAt (sep : Char) (s : String) : List String :=
  (pieces s.toList).map String.ofList
where
  pieces : List Char → List (List Char)
    | [] => [[]]
    | c :: rest =>
      if c = sep then [] :: pieces rest
      else match pieces rest with
        | p :: ps => (c :: p) :: ps
        | [] => [[c]]

end WorkflowEngine.Text
