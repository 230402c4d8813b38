import SqlLayout.Text.Basic

/-!
A path is kept as it was written.  It is compared by its components: repeated separators and `.`
inside a path vanish, while a `.` in front stays and comes before `..` and all names.
-/

namespace SqlLayout

/-- The components of paths. -/
inductive Component where
  | root
  | here
  | up
  | name (text : Text)
  deriving DecidableEq, Repr

namespace Component

/-- The position among the kinds of components. -/
def rank : Component → Nat
  | .root => 0
  | .here => 1
  | .up => 2
  | .name _ => 3

/-- The text of a name; empty for the other components. -/
def text : Component → Text
  | .name t => t
  | _ => []

/-- Kinds in order, names by their characters. -/
def compare (a b : Component) : Ordering :=
  (Ord.compare a.rank b.rank).then (Ord.compare (a.text.map Char.toNat) (b.text.map Char.toNat))

/-- The component that a piece behind the first separator stands for, if any. -/
def ofPiece? (piece : Text) : Option Component :=
  if piece = [] || piece = ['.'] then none
  else if piece = ['.', '.'] then some .up
  else some (.name piece)

end Component

namespace Path

/-- The components of a path. -/
def components (path : Text) : List Component :=
  let pieces := Text.splitAtMark '/' path
  let front :=
    match pieces with
    | [] :: _ :: _ => [Component.root]
    | ['.'] :: _ => [Component.here]
    | _ => []
  front ++ pieces.filterMap Component.ofPiece?

/-- The order of two lists of components: the first difference decides, then the length. -/
def compareComponents : List Component → List Component → Ordering
  | [], [] => .eq
  | [], _ :: _ => .lt
  | _ :: _, [] => .gt
  | a :: as, b :: bs => (a.compare b).then (compareComponents as bs)

/-- The order of paths. -/
def compare (p q : Text) : Ordering := compareComponents (components p) (components q)

/-- Whether two paths have the same components. -/
def same (p q : Text) : Bool := components p == components q

/-- The components of the folder that holds a path; the root and the empty path have none. -/
def parent? (components : List Component) : Option (List Component) :=
  match components.getLast? with
  | none | some .root => none
  | some _ => some components.dropLast

/-- A name below a folder. -/
def join (folder name : Text) : Text :=
  if folder.isEmpty || Text.endsWith folder '/' then folder ++ name else folder ++ '/' :: name

/-- The name at the end of a path, if the path ends in one. -/
def fileName? (path : Text) : Option Text :=
  match (components path).getLast? with
  | some (.name n) => some n
  | _ => none

/-- What follows the last dot of a name; a dot in front does not count. -/
def nameExtension? (name : Text) : Option Text :=
  let reversed := name.reverse
  match reversed.dropWhile (· != '.') with
  | [] | [_] => none
  | _ :: _ :: _ => some (reversed.takeWhile (· != '.')).reverse

/-- The extension of the name at the end of a path. -/
def extension? (path : Text) : Option Text := (fileName? path).bind nameExtension?

end Path

end SqlLayout
