import SqlLayout.Text.Basic

/-!
Two texts are compared line by line, where a line ends at `\n`, `\r\n` or a lone `\r`.  The script
keeps as many lines as possible; inside a stretch of changes the deleted lines come first.
-/

namespace SqlLayout.Diff

/-- The lines of a text with their ends. -/
def lines : Text → List Text
  | [] => []
  | '\r' :: '\n' :: cs => ['\r', '\n'] :: lines cs
  | c :: cs =>
    if c = '\n' || c = '\r' then [c] :: lines cs
    else
      match lines cs with
      | [] => [[c]]
      | l :: ls => (c :: l) :: ls

/-- One line of a difference. -/
inductive Change where
  | keep (line : Text)
  | delete (line : Text)
  | insert (line : Text)
  deriving DecidableEq, Repr

/-- A script with the number of lines that it keeps. -/
structure Plan where
  kept : Nat
  script : List Change
  deriving DecidableEq, Repr

/-- The plan of two plans that keeps more lines; the first on a tie. -/
def Plan.better (p q : Plan) : Plan := if q.kept ≤ p.kept then p else q

/-- The plans from no old line to each tail of the new lines, longest tail first. -/
def lastRow : List Text → List Plan
  | [] => [⟨0, []⟩]
  | new :: news =>
    match lastRow news with
    | [] => []
    | p :: ps => ⟨0, .insert new :: p.script⟩ :: p :: ps

/-- The plans from one more old line to each tail of the new lines, from the plans without it. -/
def nextRow (old : Text) : List Text → List Plan → List Plan
  | new :: news, p :: q :: ps =>
    match nextRow old news (q :: ps) with
    | [] => []
    | r :: rs =>
      (if old = new then ⟨q.kept + 1, .keep old :: q.script⟩
        else Plan.better ⟨p.kept, .delete old :: p.script⟩ ⟨r.kept, .insert new :: r.script⟩)
          :: r :: rs
  | _, p :: _ => [⟨p.kept, .delete old :: p.script⟩]
  | _, [] => []

/-- A script that keeps as many lines as possible. -/
def shortestScript (old new : List Text) : List Change :=
  match old.foldr (fun line row => nextRow line new row) (lastRow new) with
  | [] => []
  | p :: _ => p.script

/-- Puts the deletions of every stretch of changes in front of its insertions, holding back the
insertions of the stretch in progress. -/
def deletionsFirst (held : List Change) : List Change → List Change
  | [] => held
  | .keep line :: cs => held ++ .keep line :: deletionsFirst [] cs
  | .delete line :: cs => .delete line :: deletionsFirst held cs
  | .insert line :: cs => deletionsFirst (held ++ [.insert line]) cs

/-- The script from one text to another. -/
def script (old new : Text) : List Change :=
  deletionsFirst [] (shortestScript (lines old) (lines new))

/-- A line with a line feed, unless it already ends in a line feed or a carriage return. -/
def closeLine (line : Text) : Text :=
  if Text.endsWith line '\n' || Text.endsWith line '\r' then line else line ++ ['\n']

/-- One line of a difference as shown. -/
def Change.render : Change → Text
  | .keep line => ' ' :: closeLine line
  | .delete line => '-' :: closeLine line
  | .insert line => '+' :: closeLine line

/-- The difference of a file: two header lines, then every line with its sign. -/
def render (path old new : Text) : Text :=
  "--- ".toList ++ path ++ "\n+++ ".toList ++ path ++ ['\n'] ++
    (script old new).flatMap Change.render

end SqlLayout.Diff
