import SqlLayout.Style

/-!
A mode is a style together with how a run treats files: whether it writes them, what it leaves out
and what it says.
-/

namespace SqlLayout

/-- How a run treats files. -/
structure Mode where
  style : Style := Style.default
  /-- Report files that would change, without writing them. -/
  check : Bool := false
  /-- As `check`, with the difference of each file. -/
  diff : Bool := false
  /-- Leave out the equivalence check. -/
  fast : Bool := false
  /-- Globs of paths to leave out. -/
  exclude : List Text := []
  verbose : Bool := false
  quiet : Bool := false
  noProgressBar : Bool := false
  noColor : Bool := false
  forceColor : Bool := false
  /-- Worker threads; zero means one for each core. -/
  threads : Nat := 0
  singleProcess : Bool := false

namespace Mode

/-- Whether differences are coloured, given whether the environment asks for no colour. -/
def color (m : Mode) (noColorSet : Bool) : Bool := m.forceColor || (!m.noColor && !noColorSet)

/-- Whether results are checked for equivalence: only when they may be written. -/
def checksEquivalence (m : Mode) : Bool := !m.fast && !m.check && !m.diff

/-- Whether a run writes files. -/
def writes (m : Mode) : Bool := !m.check && !m.diff

end Mode

/-- The extensions of SQL files, in lower case. -/
def sqlExtensions : List Text := ["sql".toList, "ddl".toList, "dml".toList]

end SqlLayout
