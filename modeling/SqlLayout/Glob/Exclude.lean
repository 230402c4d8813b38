import SqlLayout.Text.Basic

/-!
A glob matches a whole path, byte by byte, and `*` and `?` match `/` too.  `**` is special as a
whole component: in front it stands for any folders, at the end for everything below, and in the
middle for any folders between.  `[…]` is a class of bytes, `{…,…}` a choice in which empty
branches do not count, and `\` takes the next character literally.

A glob is read into a flat list of marks.  Choices are then multiplied out, so a glob is a list of
branches, each a plain sequence of parts, and it matches what one of its branches matches.
-/

namespace SqlLayout.Glob

/-- Why a text is not a glob. -/
inductive ExcludeFault where
  | unclosedClass
  | invalidRange (low high : Char)
  | unclosedChoice
  | unopenedChoice
  | danglingEscape
  deriving DecidableEq, Repr

/-- The wording of a fault. -/
def ExcludeFault.message : ExcludeFault → Text
  | .unclosedClass => "unclosed character class; missing ']'".toList
  | .invalidRange low high => "invalid range; '".toList ++ low :: "' > '".toList ++ [high, '\'']
  | .unclosedChoice =>
    "unclosed alternate group; missing '\x7d' (maybe escape '\x7b' with '[\x7b]'?)".toList
  | .unopenedChoice =>
    "unopened alternate group; missing '\x7b' (maybe escape '\x7d' with '[\x7d]'?)".toList
  | .danglingEscape => "dangling '\\'".toList

/-- What one place of a glob matches. -/
inductive Part where
  | literal (c : Char)
  /-- One byte. -/
  | any
  /-- Any bytes. -/
  | star
  /-- Nothing, or anything up to a `/`. -/
  | anyFolders
  /-- A `/` and anything. -/
  | below
  /-- A `/`, or anything between two of them. -/
  | foldersBetween
  /-- One byte in, or not in, the ranges. -/
  | oneOf (negated : Bool) (ranges : List (Char × Char))
  deriving DecidableEq, Repr

/-- A glob as read: parts and the punctuation of choices. -/
inductive Mark where
  | part (p : Part)
  | choice
  | branch
  | endChoice
  deriving DecidableEq, Repr

/-! ## Reading -/

/-- A class that is being read. -/
structure ClassReader where
  negated : Bool
  /-- Whether no character has been read yet. -/
  first : Bool
  /-- Whether a hyphen waits for the end of its range. -/
  inRange : Bool
  /-- The ranges so far, latest first. -/
  ranges : List (Char × Char)
  deriving DecidableEq, Repr

/-- Adds a character: the end of a range, or a range of its own. -/
def ClassReader.add (r : ClassReader) (c : Char) : Except ExcludeFault ClassReader :=
  match r.inRange, r.ranges with
  | true, (low, _) :: earlier =>
    if c < low then .error (.invalidRange low c)
    else .ok { r with first := false, inRange := false, ranges := (low, c) :: earlier }
  | _, ranges => .ok { r with first := false, inRange := false, ranges := (c, c) :: ranges }

/-- The class once its bracket closes; a hyphen that waits in vain stands for itself. -/
def ClassReader.finish (r : ClassReader) : Part :=
  .oneOf r.negated ((if r.inRange then ('-', '-') :: r.ranges else r.ranges).reverse)

/-- A glob that is being read. -/
structure Reader where
  /-- The marks so far, latest first. -/
  marks : List Mark
  /-- The character read last. -/
  previous : Option Char
  /-- The number of open choices. -/
  depth : Nat
  /-- The class that is open, if one is. -/
  inClass : Option ClassReader
  deriving DecidableEq, Repr

namespace Reader

/-- Adds a mark. -/
def push (r : Reader) (m : Mark) (last : Char) : Reader :=
  { r with marks := m :: r.marks, previous := some last }

/-- Adds a part. -/
def pushPart (r : Reader) (p : Part) (last : Char) : Reader := r.push (.part p) last

/-- Whether the current branch has parts. -/
def branchHasParts (r : Reader) : Bool :=
  match r.marks with
  | [] | .choice :: _ | .branch :: _ => false
  | _ => true

/-- Two stars that are not a whole component count as stars. -/
def pushStars (r : Reader) : Reader := (r.pushPart .star '*').pushPart .star '*'

/-- Whether two stars here start a component. -/
def startsComponent (r : Reader) : Bool :=
  r.previous == some '/' ||
    (0 < r.depth && (r.previous == some ',' || r.previous == some '\x7b'))

/-- Two stars as a component take the place of the separator in front of them. -/
def pushFolders (r : Reader) (p : Part) (last : Char) : Reader :=
  match r.marks with
  | .part .anyFolders :: _ => { r with previous := some last }
  | .part .below :: _ => { r with previous := some last }
  | marks => { r with marks := .part p :: marks.tail, previous := some last }

/-- Reads the characters of a glob. -/
def read (r : Reader) : Text → Except ExcludeFault Reader
  | [] => .ok r
  | c :: cs =>
    match r.inClass with
    | some k =>
      if c = ']' && !k.first then
        read ({ r with inClass := none }.pushPart k.finish c) cs
      else if c = '-' && !k.first && !k.inRange then
        read { r with inClass := some { k with inRange := true } } cs
      else
        match k.add c with
        | .ok k => read { r with inClass := some k } cs
        | .error f => .error f
    | none =>
      if c = '?' then read (r.pushPart .any c) cs
      else if c = '*' then
        match cs with
        | '*' :: rest =>
          if r.branchHasParts then
            if r.startsComponent then
              match rest with
              | [] => .ok (r.pushFolders .below c)
              | '/' :: rest => read (r.pushFolders .foldersBetween '/') rest
              | next :: rest =>
                if 0 < r.depth && (next = ',' || next = '\x7d') then
                  read (r.pushFolders .below c) (next :: rest)
                else read r.pushStars (next :: rest)
            else read r.pushStars rest
          else
            match rest with
            | [] => .ok (r.pushPart .anyFolders c)
            | '/' :: rest => read (r.pushPart .anyFolders '/') rest
            | next :: rest => read r.pushStars (next :: rest)
        | cs => read (r.pushPart .star c) cs
      else if c = '[' then
        match cs with
        | '!' :: rest => read { r with inClass := some ⟨true, true, false, []⟩ } rest
        | '^' :: rest => read { r with inClass := some ⟨true, true, false, []⟩ } rest
        | cs => read { r with inClass := some ⟨false, true, false, []⟩ } cs
      else if c = '\x7b' then read { r.push .choice c with depth := r.depth + 1 } cs
      else if c = '\x7d' then
        if r.depth = 0 then .error .unopenedChoice
        else read { r.push .endChoice c with depth := r.depth - 1 } cs
      else if c = ',' then
        read (if r.depth = 0 then r.pushPart (.literal c) c else r.push .branch c) cs
      else if c = '\\' then
        match cs with
        | [] => .error .danglingEscape
        | next :: rest => read (r.pushPart (.literal next) next) rest
      else read (r.pushPart (.literal c) c) cs

end Reader

/-- The marks of a glob. -/
def readMarks (glob : Text) : Except ExcludeFault (List Mark) := do
  let r ← Reader.read ⟨[], none, 0, none⟩ glob
  if r.inClass.isSome then .error .unclosedClass
  else if r.depth ≠ 0 then .error .unclosedChoice
  else .ok r.marks.reverse

/-! ## Multiplying out choices -/

/-- A plain sequence of parts. -/
abbrev Branch := List Part

/-- A choice whose branches are being collected. -/
structure OpenChoice where
  /-- The branches of what stands in front of the choice. -/
  front : List Branch
  /-- The branches of the choice so far. -/
  branches : List Branch
  deriving DecidableEq, Repr

/-- Branches that hold nothing do not count. -/
def dropEmpty (bs : List Branch) : List Branch := if bs = [[]] then [] else bs

/-- Every branch of `xs` followed by every branch of `ys`. -/
def product (xs ys : List Branch) : List Branch := xs.flatMap fun x => ys.map fun y => x ++ y

/-- The branches of a list of marks, knowing the open choices and the branches read so far. -/
def expand (opened : List OpenChoice) (current : List Branch) : List Mark → List Branch
  | [] => current
  | .part p :: ms => expand opened (current.map (· ++ [p])) ms
  | .choice :: ms => expand (⟨current, []⟩ :: opened) [[]] ms
  | .branch :: ms =>
    match opened with
    | [] => expand opened current ms
    | o :: os => expand (⟨o.front, o.branches ++ dropEmpty current⟩ :: os) [[]] ms
  | .endChoice :: ms =>
    match opened with
    | [] => expand opened current ms
    | o :: os =>
      let branches := o.branches ++ dropEmpty current
      expand os (product o.front (if branches.isEmpty then [[]] else branches)) ms

/-! ## Matching -/

/-- The UTF-8 bytes of a text. -/
def bytes (s : Text) : List UInt8 := s.flatMap String.utf8EncodeChar

/-- The ranges of bytes that a range of characters stands for: the bytes of both ends, with a
range from the last byte of the low end to the first byte of the high end. -/
def byteRanges (range : Char × Char) : List (UInt8 × UInt8) :=
  let low := String.utf8EncodeChar range.1
  let high := String.utf8EncodeChar range.2
  if range.1 = range.2 then low.map fun b => (b, b)
  else
    low.dropLast.map (fun b => (b, b)) ++
      ((low.getLast?.bind fun a => high.head?.map fun b => (a, b)).toList) ++
        high.tail.map fun b => (b, b)

/-- Whether a byte belongs to a class. -/
def inClass (negated : Bool) (ranges : List (Char × Char)) (b : UInt8) : Bool :=
  (ranges.flatMap byteRanges).any (fun r => r.1 ≤ b && b ≤ r.2) != negated

/-- What follows each `/`. -/
def behindSlashes (bs : List UInt8) : List (List UInt8) :=
  (Text.suffixes bs).filterMap fun s =>
    match s with
    | b :: rest => if b = 47 then some rest else none
    | [] => none

/-- What follows a `/` at the front. -/
def behindSlash? : List UInt8 → Option (List UInt8)
  | b :: bs => if b = 47 then some bs else none
  | [] => none

/-- Whether a branch matches all of the bytes. -/
def branchMatches : Branch → List UInt8 → Bool
  | [], bs => bs.isEmpty
  | .literal c :: ps, bs =>
    let cs := String.utf8EncodeChar c
    cs.isPrefixOf bs && branchMatches ps (bs.drop cs.length)
  | .any :: ps, bs =>
    match bs with
    | [] => false
    | _ :: bs => branchMatches ps bs
  | .star :: ps, bs => (Text.suffixes bs).any (branchMatches ps)
  | .anyFolders :: ps, bs => branchMatches ps bs || (behindSlashes bs).any (branchMatches ps)
  | .below :: ps, bs => (behindSlash? bs).any fun bs => (Text.suffixes bs).any (branchMatches ps)
  | .foldersBetween :: ps, bs =>
    (behindSlash? bs).any fun bs =>
      branchMatches ps bs || (behindSlashes bs).any (branchMatches ps)
  | .oneOf negated ranges :: ps, bs =>
    match bs with
    | [] => false
    | b :: bs => inClass negated ranges b && branchMatches ps bs

/-- A compiled glob. -/
structure Exclude where
  marks : List Mark
  deriving DecidableEq, Repr

/-- The literal characters of a list of marks, if it has nothing else. -/
def literals? (ms : List Mark) : Option Text :=
  ms.mapM fun m =>
    match m with
    | .part (.literal c) => some c
    | _ => none

/-- Whether the glob is decided by the file name or its extension alone, or needs an extension, so
that a path without a file name cannot match.  Globs of literals, with at most `**/` and `*` in
front, are decided by the path itself unless they spell a file name or an extension. -/
def needsFileName (ms : List Mark) : Bool :=
  match ms with
  | .part .anyFolders :: .part .star :: rest => starNeeds rest
  | .part .anyFolders :: rest =>
    match literals? rest with
    | some s => !s.contains '/'
    | none => true
  | .part .star :: rest => starNeeds rest
  | ms => (literals? ms).isNone
where
  /-- Behind a star, a dot and no further dot or `/` spell an extension. -/
  starNeeds (rest : List Mark) : Bool :=
    match literals? rest with
    | some ('.' :: s) => !s.contains '.' && !s.contains '/'
    | some _ => false
    | none => true

namespace Exclude

/-- Compiles a glob. -/
def compile (glob : Text) : Except ExcludeFault Exclude := (readMarks glob).map Exclude.mk

/-- Whether the glob matches the path.  A path that ends in a dot has no file name: a glob that
ends in a dot and needs one does not match it.  `**` alone matches everything. -/
def isMatch (e : Exclude) (path : Text) : Bool :=
  if e.marks = [.part .anyFolders] then true
  else if Text.endsWith path '.' && e.marks.getLast? == some (.part (.literal '.')) &&
      needsFileName e.marks then false
  else (expand [] [[]] e.marks).any fun b => branchMatches b (bytes path)

end Exclude

end SqlLayout.Glob
