import SqlLayout.Text.Quoted

/-!
Two texts are equivalent when they agree on their significant characters: what is left after white
space is dropped and every character is lower-cased on its own.  The check names the first place at
which they differ.
-/

namespace SqlLayout

/-- The first place at which two texts differ. -/
structure Mismatch where
  /-- The number of significant characters that agree. -/
  position : Nat
  before : Option Char
  after : Option Char
  deriving DecidableEq, Repr

namespace Mismatch

/-- One side of a mismatch in a message. -/
def side : Option Char → Text
  | some c => "Some(".toList ++ Text.quotedChar c ++ [')']
  | none => "None".toList

/-- The wording of a mismatch. -/
def message (m : Mismatch) : Text :=
  "Text mismatch at significant character ".toList ++ Text.ofNat m.position ++
    ": original ".toList ++ side m.before ++ ", formatted ".toList ++ side m.after

end Mismatch

namespace Equivalence

/-- The significant characters of a text. -/
def significant (s : Text) : Text := (s.filter fun c => !Text.isBlank c).flatMap Text.lowerChar

/-- The first difference of two texts whose first characters have number `n`. -/
def firstMismatch (n : Nat) : Text → Text → Option Mismatch
  | [], [] => none
  | a :: _, [] => some ⟨n, some a, none⟩
  | [], b :: _ => some ⟨n, none, some b⟩
  | a :: as, b :: bs => if a = b then firstMismatch (n + 1) as bs else some ⟨n, some a, some b⟩

/-- Where the significant characters of two texts first differ. -/
def check (before after : Text) : Option Mismatch :=
  firstMismatch 0 (significant before) (significant after)

end Equivalence

end SqlLayout
