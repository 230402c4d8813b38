import SqlLayout.Text.Basic
import SqlLayout.Text.CaseTable

/-!
The full Unicode case mappings: a character may yield several (`ß` becomes `SS`), and a capital
sigma at the end of a word becomes `ς` when a whole text is lower-cased.  ASCII characters are
mapped directly; only the others reach the tables.
-/

namespace SqlLayout.Text

/-- Whether a code point lies in one of the closed ranges. -/
def inRanges (ranges : List (Nat × Nat)) (n : Nat) : Bool :=
  ranges.any fun r => r.1 ≤ n && n ≤ r.2

/-- One character's mapping: an expansion first, then a run, else the character itself. -/
def mapCase (expansions : List (Nat × List Nat)) (runs : List CaseRun) (c : Char) : Text :=
  match expansions.lookup c.toNat with
  | some ns => ns.map Char.ofNat
  | none =>
    match runs.find? (·.covers c.toNat) with
    | some r => [Char.ofNat (c.toNat + r.offset).toNat]
    | none => [c]

/-- The upper case of one character. -/
def upperChar (c : Char) : Text :=
  if c.toNat < 128 then [c.toUpper] else mapCase upperExpansions upperRuns c

/-- The lower case of one character on its own. -/
def lowerChar (c : Char) : Text :=
  if c.toNat < 128 then [c.toLower] else mapCase lowerExpansions lowerRuns c

/-- The upper case of a text, character by character. -/
def upper (s : Text) : Text := s.flatMap upperChar

/-- Whether the first character that is not case-ignorable is a cased one. -/
def reachesCased (s : Text) : Bool :=
  match s.dropWhile fun c => inRanges caseIgnorableRanges c.toNat with
  | [] => false
  | c :: _ => inRanges casedRanges c.toNat

/-- Lower-cases `s`, knowing the characters before it, nearest first.  A capital sigma that ends a
word, with a cased letter before it and none after, becomes the final form. -/
def lowerAfter (before : Text) : Text → Text
  | [] => []
  | c :: cs =>
    let here :=
      if c = 'Σ' then
        if reachesCased before && !reachesCased cs then ['ς'] else ['σ']
      else lowerChar c
    here ++ lowerAfter (c :: before) cs

/-- The lower case of a text. -/
def lower (s : Text) : Text := lowerAfter [] s

end SqlLayout.Text
