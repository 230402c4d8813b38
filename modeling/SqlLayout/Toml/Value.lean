import SqlLayout.Text.Basic

/-!
A table remembers how it came about, because that decides what may still be added to it: a header
may turn a table that was only implied into its own, dotted keys may only extend tables that were
implied or made by dotted keys, and an inline table is closed for good.
-/

namespace SqlLayout.Toml

/-- How a table came about. -/
inductive Origin where
  /-- By its own header, or as an element of an array of tables. -/
  | header
  /-- As a table on the way to a header. -/
  | implied
  /-- As a table on the way to a dotted key. -/
  | dotted
  /-- Between braces. -/
  | inline
  deriving DecidableEq, Repr

/-- A TOML value.  Floats carry no data: nothing reads them. -/
inductive Value where
  | string (text : Text)
  | integer (n : Int)
  | float
  | boolean (b : Bool)
  /-- A date, a time or both, as spelled in full. -/
  | moment (text : Text)
  | array (items : List Value)
  | table (origin : Origin) (entries : List (Text × Value))
  /-- An array of tables made by headers; it grows at its end. -/
  | tables (items : List Value)

/-- The keys of a table with their values, each key once. -/
abbrev Entries := List (Text × Value)

namespace Entries

/-- Sets a key, in its place when it is there already. -/
def put (key : Text) (v : Value) : Entries → Entries
  | [] => [(key, v)]
  | e :: es => if e.1 = key then (key, v) :: es else e :: put key v es

/-- Adds a key that must not be there yet. -/
def addNew (key : Text) (v : Value) (es : Entries) : Option Entries :=
  if (es.lookup key).isSome then none else some (es ++ [(key, v)])

/-- Changes the last table of an array of tables. -/
def modifyLast (f : Origin → Entries → Option Entries) (items : List Value) :
    Option (List Value) :=
  match items.getLast? with
  | some (.table origin es) =>
    (f origin es).map fun es => items.dropLast ++ [.table origin es]
  | _ => none

/-- Changes the table that a path of headers leads to; missing tables on the way are implied. -/
def modifyAt (f : Entries → Option Entries) : List Text → Entries → Option Entries
  | [], es => f es
  | key :: keys, es =>
    match es.lookup key with
    | none => (modifyAt f keys []).map fun inner => put key (.table .implied inner) es
    | some (.table origin inner) =>
      if origin = .inline then none
      else (modifyAt f keys inner).map fun inner => put key (.table origin inner) es
    | some (.tables items) =>
      (modifyLast (fun _ inner => modifyAt f keys inner) items).map fun items =>
        put key (.tables items) es
    | some _ => none

/-- Adds a value under a dotted key: the tables on the way must have been implied or made by dotted
keys, and the last of them by dotted keys. -/
def addDotted (origin : Origin) (last : Text) (v : Value) : List Text → Entries → Option Entries
  | [], es => if origin = .implied then none else addNew last v es
  | key :: keys, es =>
    match es.lookup key with
    | none =>
      (addDotted .dotted last v keys []).map fun inner => put key (.table .dotted inner) es
    | some (.table o inner) =>
      if o = .implied || o = .dotted then
        (addDotted o last v keys inner).map fun inner => put key (.table o inner) es
      else none
    | some (.tables items) =>
      if keys.isEmpty then none
      else
        (modifyLast (fun _ inner => addDotted .dotted last v keys inner) items).map fun items =>
          put key (.tables items) es
    | some _ => none

/-- Adds a value under the parts of a key. -/
def add (parts : List Text) (v : Value) (es : Entries) : Option Entries :=
  match parts.getLast? with
  | none => none
  | some last => addDotted .header last v parts.dropLast es

/-- Opens the table of a header: a new one, or one that was only implied so far. -/
def openTable (parts : List Text) (es : Entries) : Option Entries :=
  match parts.getLast? with
  | none => none
  | some last =>
    modifyAt (fun es =>
      match es.lookup last with
      | none => some (es ++ [(last, .table .header [])])
      | some (.table .implied inner) => some (put last (.table .header inner) es)
      | some _ => none) parts.dropLast es

/-- Opens the next table of an array of tables. -/
def openArrayTable (parts : List Text) (es : Entries) : Option Entries :=
  match parts.getLast? with
  | none => none
  | some last =>
    modifyAt (fun es =>
      match es.lookup last with
      | none => some (es ++ [(last, .tables [.table .header []])])
      | some (.tables items) => some (put last (.tables (items ++ [.table .header []])) es)
      | some _ => none) parts.dropLast es

end Entries

end SqlLayout.Toml
