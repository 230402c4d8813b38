import SqlLayout.Style
import SqlLayout.Token

/-!
The walk keeps its place as a cursor: the tokens it has passed, nearest first, and the tokens from
the current one on.  A break is put in front of the current token (`breakHere`) or in front of the
next one (`breakNext`).  It takes over white space that is already there; a line comment stays on
the line that it ends, so in front of it the break is one blank and the comment loses its own line
feed; and in front of a delimiter it goes behind the delimiter instead, doubled.

A break never makes the part from the current token on longer, which is why the walk ends.
-/

namespace SqlLayout.Layout

/-- A place in a token list. -/
structure Cursor where
  /-- The tokens passed, nearest first. -/
  before : List Token
  /-- The current token and those behind it. -/
  after : List Token
  deriving DecidableEq, Repr

/-- Whether the token is a line comment. -/
def isLineComment (t : Token) : Bool := t.kind == .comment && Dialect.isLineComment t.text

/-- A line comment without white space at its end; any other token as it is. -/
def settle (t : Token) : Token := if isLineComment t then t.withText (Text.trimEnd t.text) else t

/-- What a break in front of `t` writes: one blank before a line comment, else the line break. -/
def breakText (line : Text) (t : Token) : Text := if isLineComment t then [' '] else line

/-- The tokens behind a delimiter that a break was asked for: an empty line, then the rest. -/
def afterDelimiter (line : Text) (offset : Nat) (ts : List Token) : List Token :=
  if ts.isEmpty then [] else Token.space (line ++ line) offset :: ts

namespace Cursor

/-- All tokens, in order. -/
def tokens (c : Cursor) : List Token := c.before.reverse ++ c.after

/-- Moves past the current token. -/
def advance (c : Cursor) : Cursor :=
  match c.after with
  | [] => c
  | t :: ts => ⟨t :: c.before, ts⟩

/-- Puts a break in front of the current token.  At a delimiter the cursor moves behind it. -/
def breakHere (s : Style) (line : Text) (c : Cursor) : Cursor :=
  match c.before, c.after with
  | _, [] => c
  | [], t :: ts =>
    if t.isSpace then ⟨[], t.withText line :: ts⟩
    else if s.isDelimiter t.text then ⟨[t], afterDelimiter line t.offset ts⟩
    else c
  | p :: ps, t :: ts =>
    let line := breakText line t
    let t := settle t
    if t.isSpace then ⟨p :: ps, t.withText line :: ts⟩
    else if s.isDelimiter t.text then ⟨t :: p :: ps, afterDelimiter line t.offset ts⟩
    else if p.isSpace then ⟨p.withText line :: ps, t :: ts⟩
    else ⟨Token.space line t.offset :: p :: ps, t :: ts⟩

/-- Puts a break in front of the next token.  A token put between the two becomes the current one;
so does a next token that is a delimiter. -/
def breakNext (s : Style) (line : Text) (c : Cursor) : Cursor :=
  match c.after with
  | cur :: t :: ts =>
    let line := breakText line t
    let t := settle t
    if t.isSpace then ⟨c.before, cur :: t.withText line :: ts⟩
    else if s.isDelimiter t.text then ⟨cur :: c.before, t :: afterDelimiter line t.offset ts⟩
    else if cur.isSpace then ⟨c.before, cur.withText line :: t :: ts⟩
    else ⟨cur :: c.before, Token.space line t.offset :: t :: ts⟩
  | _ => c

/-! ## Breaks do not lengthen what is left -/

theorem length_afterDelimiter_le (line : Text) (offset : Nat) (ts : List Token) :
    (afterDelimiter line offset ts).length ≤ ts.length + 1 := by
  unfold afterDelimiter
  split <;> simp

theorem length_after_breakHere_le (s : Style) (line : Text) (c : Cursor) :
    (c.breakHere s line).after.length ≤ c.after.length := by
  unfold breakHere
  split
  · exact Nat.le_refl _
  · next _ h =>
    rw [h]
    repeat' split
    · simp
    · simpa using length_afterDelimiter_le ..
    · simp [h]
  · next _ h =>
    rw [h]
    dsimp only
    repeat' split
    · simp
    · simpa using length_afterDelimiter_le ..
    · simp
    · simp

theorem length_after_breakNext_le (s : Style) (line : Text) (c : Cursor) :
    (c.breakNext s line).after.length ≤ c.after.length := by
  unfold breakNext
  split
  · next h =>
    rw [h]
    dsimp only
    repeat' split
    · simp
    · simpa using length_afterDelimiter_le ..
    · simp
    · simp
  · exact Nat.le_refl _

theorem length_after_advance_lt {c : Cursor} {n : Nat} (h : c.after.length ≤ n) (hn : 0 < n) :
    c.advance.after.length < n := by
  unfold advance
  split
  · next he => simpa [he] using hn
  · next he =>
    rw [he, List.length_cons] at h
    exact Nat.lt_of_succ_le h

end Cursor

end SqlLayout.Layout
