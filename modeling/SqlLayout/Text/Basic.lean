/-!
Texts are lists of characters: every pass of the library cuts, joins or maps them, and lists make
each of these an ordinary list operation.  This module holds white space, trimming, the ASCII case
operations, line splitting, UTF-8 widths and decimal numbers.  Case mapping beyond ASCII is in
`SqlLayout.Text.LetterCase`.

Numbers are read from left to right and the first fault found is the one reported, so an overlong
number with a letter at its end is too large, not malformed.
-/

namespace SqlLayout

/-- A text is the list of its characters. -/
abbrev Text := List Char

namespace Text

/-- A property of every character of a text is decided along the text, not along all characters. -/
instance (priority := high) decidableForallMem (p : Char → Prop) [DecidablePred p] (s : Text) :
    Decidable (∀ c ∈ s, p c) :=
  List.decidableBAll p s

/-- White space: the characters with the Unicode property `White_Space`. -/
def isBlank (c : Char) : Bool :=
  let n := c.toNat
  (0x9 ≤ n && n ≤ 0xD) || n == 0x20 || n == 0x85 || n == 0xA0 || n == 0x1680 ||
    (0x2000 ≤ n && n ≤ 0x200A) || n == 0x2028 || n == 0x2029 || n == 0x202F || n == 0x205F ||
    n == 0x3000

/-- Nothing but white space; the empty text counts. -/
def allBlank (s : Text) : Bool := s.all isBlank

/-- Drops white space at the front. -/
def trimStart (s : Text) : Text := s.dropWhile isBlank

/-- Drops white space at the end. -/
def trimEnd (s : Text) : Text := (s.reverse.dropWhile isBlank).reverse

/-- Drops white space at both ends. -/
def trim (s : Text) : Text := trimEnd (trimStart s)

theorem trimStart_cons_of_not_blank {c : Char} (h : isBlank c = false) (cs : Text) :
    trimStart (c :: cs) = c :: cs := by
  simp [trimStart, h]

theorem trimEnd_cons_of_not_blank {c : Char} (h : isBlank c = false) (cs : Text) :
    trimEnd (c :: cs) = c :: trimEnd cs := by
  simp only [trimEnd, List.reverse_cons, List.dropWhile_append]
  split
  · next he => simp_all
  · simp

theorem trimEnd_trimEnd (s : Text) : trimEnd (trimEnd s) = trimEnd s := by
  simp only [trimEnd, List.reverse_reverse]
  congr 1
  generalize s.reverse = r
  induction r with
  | nil => rfl
  | cons c cs ih => by_cases h : isBlank c <;> simp [h, ih]

/-- White space that is dropped once is gone. -/
theorem trim_trim (s : Text) : trim (trim s) = trim s := by
  unfold trim
  cases h : trimStart s with
  | nil => rfl
  | cons c cs =>
    have hc : isBlank c = false := by
      have hne : s.dropWhile isBlank ≠ [] := by simp_all [trimStart]
      have hhead := List.head_dropWhile_not isBlank hne
      simp_all [trimStart]
    rw [trimEnd_cons_of_not_blank hc, trimStart_cons_of_not_blank hc,
      trimEnd_cons_of_not_blank hc, trimEnd_trimEnd]

/-- Lower-cases `A` to `Z` only. -/
def asciiLower (s : Text) : Text := s.map Char.toLower

/-- Upper-cases `a` to `z` only. -/
def asciiUpper (s : Text) : Text := s.map Char.toUpper

/-- Equality that does not tell `A` to `Z` from `a` to `z`. -/
def sameAsciiCase (s t : Text) : Bool := asciiLower s == asciiLower t

/-- Whether `s` begins with `start`. -/
def startsWith (s start : Text) : Bool := start.isPrefixOf s

/-- Whether the last character is `c`. -/
def endsWith (s : Text) (c : Char) : Bool := s.getLast? == some c

/-- The number of bytes of the UTF-8 form. -/
def byteSize : Text → Nat
  | [] => 0
  | c :: cs => c.utf8Size + byteSize cs

/-- Cuts after the first line feed; without one, everything comes before the cut. -/
def cutAfterNewline : Text → Text × Text
  | [] => ([], [])
  | c :: cs =>
    if c = '\n' then ([c], cs)
    else ((c :: (cutAfterNewline cs).1), (cutAfterNewline cs).2)

theorem cutAfterNewline_append (s : Text) :
    (cutAfterNewline s).1 ++ (cutAfterNewline s).2 = s := by
  induction s with
  | nil => rfl
  | cons c cs ih => by_cases h : c = '\n' <;> simp [cutAfterNewline, h, ih]

theorem length_cutAfterNewline_le (s : Text) : (cutAfterNewline s).2.length ≤ s.length := by
  have h := congrArg List.length (cutAfterNewline_append s)
  simp only [List.length_append] at h
  omega

/-- The pieces of a text, each through its line feed; the last one may lack it. -/
def linesKeepingEnds : Text → List Text
  | [] => []
  | c :: cs => (cutAfterNewline (c :: cs)).1 :: linesKeepingEnds (cutAfterNewline (c :: cs)).2
termination_by s => s.length
decreasing_by
  have h := length_cutAfterNewline_le cs
  by_cases hc : c = '\n'
  · simp [cutAfterNewline, hc]
  · simp only [cutAfterNewline, hc, ↓reduceIte, List.length_cons]
    omega

/-- A line without its line feed, and without a carriage return in front of that line feed.  A
line that has no line feed keeps all its characters. -/
def dropLineEnd (line : Text) : Text :=
  match line.reverse with
  | '\n' :: '\r' :: cs => cs.reverse
  | '\n' :: cs => cs.reverse
  | _ => line

/-- The lines of a text without their ends (`\n` or `\r\n`). -/
def lines (s : Text) : List Text := (linesKeepingEnds s).map dropLineEnd

/-- Splits at every occurrence of `mark`; there is always at least one piece. -/
def splitAtMark (mark : Char) : Text → List Text
  | [] => [[]]
  | c :: cs =>
    if c = mark then [] :: splitAtMark mark cs
    else
      match splitAtMark mark cs with
      | [] => [[c]]
      | piece :: pieces => (c :: piece) :: pieces

/-- What is left of a list when any number of elements is dropped from its front. -/
def suffixes {α : Type} : List α → List (List α)
  | [] => [[]]
  | a :: as => (a :: as) :: suffixes as

/-- Decimal digits, without leading zeros. -/
def ofNat (n : Nat) : Text := Nat.toDigits 10 n

/-- The ASCII decimal digits. -/
def isDigit (c : Char) : Bool := '0' ≤ c && c ≤ '9'

/-- The value of a run of digits, most significant first. -/
def digitsValue (s : Text) : Nat := s.foldl (fun n c => 10 * n + (c.toNat - '0'.toNat)) 0

/-! ## Numbers -/

/-- Why a text is not an unsigned 64-bit number. -/
inductive NumberFault where
  | empty
  | invalidDigit
  | tooLarge
  deriving DecidableEq, Repr

/-- The wording of a fault. -/
def NumberFault.message : NumberFault → Text
  | .empty => "cannot parse integer from empty string".toList
  | .invalidDigit => "invalid digit found in string".toList
  | .tooLarge => "number too large to fit in target type".toList

/-- Appends digits to the number read so far. -/
def readDigits (n : Nat) : Text → Except NumberFault Nat
  | [] => .ok n
  | c :: cs =>
    if isDigit c then
      let m := 10 * n + digitsValue [c]
      if m < 2 ^ 64 then readDigits m cs else .error .tooLarge
    else .error .invalidDigit

/-- Reads a number; one plus sign may stand in front of the digits. -/
def readNumber : Text → Except NumberFault Nat
  | [] => .error .empty
  | '+' :: [] => .error .invalidDigit
  | '+' :: cs => readDigits 0 cs
  | cs => readDigits 0 cs

end Text

end SqlLayout
