import SqlLayout.Toml.Value

/-!
A reader takes a text and returns what it read together with the rest.  Numbers, booleans and
dates are read as one run of characters, which is then classified as a whole; what follows such a
run can never continue it.
-/

namespace SqlLayout.Toml

/-- Blanks and tabs. -/
def isWhite (c : Char) : Bool := c == ' ' || c == '\t'

/-- Drops blanks and tabs at the front. -/
def skipWhite (s : Text) : Text := s.dropWhile isWhite

/-- The characters of comments and one-line strings: no control character but the tab. -/
def isLineChar (c : Char) : Bool := c == '\t' || (0x20 ≤ c.toNat && c.toNat != 0x7F)

/-! ## Strings -/

/-- The value of a hexadecimal digit. -/
def hexDigit? (c : Char) : Option Nat :=
  if '0' ≤ c && c ≤ '9' then some (c.toNat - '0'.toNat)
  else if 'a' ≤ c && c ≤ 'f' then some (c.toNat - 'a'.toNat + 10)
  else if 'A' ≤ c && c ≤ 'F' then some (c.toNat - 'A'.toNat + 10)
  else none

/-- The character with a code point in hexadecimal; surrogates are none. -/
def scalar? (digits : List Char) : Option Char := do
  let values ← digits.mapM hexDigit?
  let n := values.foldl (fun n d => 16 * n + d) 0
  if n.isValidChar then some (Char.ofNat n) else none

/-- The character that a one-letter escape stands for. -/
def escape? : Char → Option Char
  | 'b' => some '\x08'
  | 't' => some '\t'
  | 'n' => some '\n'
  | 'f' => some '\x0c'
  | 'r' => some '\r'
  | '"' => some '"'
  | '\\' => some '\\'
  | _ => none

/-- An escape behind its backslash: the character and the rest. -/
def readEscape : Text → Option (Char × Text)
  | 'u' :: a :: b :: c :: d :: cs => (scalar? [a, b, c, d]).map fun x => (x, cs)
  | 'U' :: a :: b :: c :: d :: e :: f :: g :: h :: cs =>
    (scalar? [a, b, c, d, e, f, g, h]).map fun x => (x, cs)
  | c :: cs => (escape? c).map fun x => (x, cs)
  | [] => none

theorem length_readEscape_lt {s rest : Text} {c : Char} (h : readEscape s = some (c, rest)) :
    rest.length < s.length := by
  unfold readEscape at h
  split at h <;> simp only [Option.map_eq_some_iff, Prod.mk.injEq, reduceCtorEq] at h
  all_goals
    obtain ⟨_, _, _, rfl⟩ := h
    simp only [List.length_cons]
    omega

/-- A string between double quotes, behind the first of them. -/
def readBasic : Text → Option (Text × Text)
  | [] => none
  | '"' :: cs => some ([], cs)
  | '\\' :: cs =>
    match h : readEscape cs with
    | none => none
    | some (x, rest) =>
      have := length_readEscape_lt h
      (readBasic rest).map fun r => (x :: r.1, r.2)
  | c :: cs => if isLineChar c then (readBasic cs).map fun r => (c :: r.1, r.2) else none
termination_by s => s.length
decreasing_by all_goals simp_wf; try omega

/-- A string between single quotes, behind the first of them. -/
def readLiteral : Text → Option (Text × Text)
  | [] => none
  | '\'' :: cs => some ([], cs)
  | c :: cs => if isLineChar c then (readLiteral cs).map fun r => (c :: r.1, r.2) else none

/-- Drops white space and line ends at the front. -/
def skipLines : Text → Text
  | '\r' :: '\n' :: cs => skipLines cs
  | c :: cs => if isWhite c || c = '\n' then skipLines cs else c :: cs
  | [] => []

theorem length_skipLines_le (s : Text) : (skipLines s).length ≤ s.length := by
  fun_induction skipLines s with
  | case1 cs ih => simp only [List.length_cons]; omega
  | case2 c cs _ _ ih => simp only [List.length_cons]; omega
  | case3 | case4 => exact Nat.le_refl _

/-- Whether a line ends here, after white space. -/
def atLineEnd (s : Text) : Bool :=
  match skipWhite s with
  | '\n' :: _ => true
  | '\r' :: '\n' :: _ => true
  | _ => false

/-- Drops a line end right behind the opening quotes. -/
def dropFirstLineEnd : Text → Text
  | '\n' :: cs => cs
  | '\r' :: '\n' :: cs => cs
  | cs => cs

/-- A string between three double quotes, behind the first three.  Up to two more quotes in front
of the closing ones belong to the string; a backslash at a line end joins the lines. -/
def readMultiBasic : Text → Option (Text × Text)
  | [] => none
  | '"' :: '"' :: '"' :: '"' :: '"' :: cs => some (['"', '"'], cs)
  | '"' :: '"' :: '"' :: '"' :: cs => some (['"'], cs)
  | '"' :: '"' :: '"' :: cs => some ([], cs)
  | '\r' :: '\n' :: cs => (readMultiBasic cs).map fun r => ('\n' :: r.1, r.2)
  | '\\' :: cs =>
    if atLineEnd cs then
      have := length_skipLines_le cs
      readMultiBasic (skipLines cs)
    else
      match h : readEscape cs with
      | none => none
      | some (x, rest) =>
        have := length_readEscape_lt h
        (readMultiBasic rest).map fun r => (x :: r.1, r.2)
  | c :: cs =>
    if isLineChar c || c = '\n' then (readMultiBasic cs).map fun r => (c :: r.1, r.2) else none
termination_by s => s.length
decreasing_by all_goals simp_wf; try omega

/-- A string between three single quotes, behind the first three. -/
def readMultiLiteral : Text → Option (Text × Text)
  | [] => none
  | '\'' :: '\'' :: '\'' :: '\'' :: '\'' :: cs => some (['\'', '\''], cs)
  | '\'' :: '\'' :: '\'' :: '\'' :: cs => some (['\''], cs)
  | '\'' :: '\'' :: '\'' :: cs => some ([], cs)
  | '\r' :: '\n' :: cs => (readMultiLiteral cs).map fun r => ('\n' :: r.1, r.2)
  | c :: cs =>
    if isLineChar c || c = '\n' then (readMultiLiteral cs).map fun r => (c :: r.1, r.2) else none

/-- A string of any form. -/
def readString : Text → Option (Text × Text)
  | '"' :: '"' :: '"' :: cs => readMultiBasic (dropFirstLineEnd cs)
  | '"' :: cs => readBasic cs
  | '\'' :: '\'' :: '\'' :: cs => readMultiLiteral (dropFirstLineEnd cs)
  | '\'' :: cs => readLiteral cs
  | _ => none

/-! ## Numbers -/

/-- The digits of a number in which single underscores may stand between digits. -/
def digits? (isDigit : Char → Bool) (s : Text) : Option Text :=
  let groups := Text.splitAtMark '_' s
  if groups.all fun g => !g.isEmpty && g.all isDigit then some groups.flatten else none

/-- The same for a number that has no leading zero. -/
def plainDigits? (s : Text) : Option Text := do
  let ds ← digits? Text.isDigit s
  if ds.length = 1 || s.head? != some '0' then some ds else none

/-- Takes a sign off the front: whether it is a minus, and the rest. -/
def cutSign : Text → Bool × Text
  | '-' :: cs => (true, cs)
  | '+' :: cs => (false, cs)
  | cs => (false, cs)

/-- Signed 64-bit integers go up to, and not including, this number. -/
def integerBound : Nat := 0x8000000000000000

/-- A number in a base other than ten. -/
def based? (base : Nat) (s : Text) : Option Value := do
  let ds ← digits? (fun c => (hexDigit? c).any (· < base)) s
  let n := ds.foldl (fun n c => base * n + (hexDigit? c).getD 0) 0
  if n < integerBound then some (.integer (Int.ofNat n)) else none

/-- A signed 64-bit integer in decimal. -/
def decimal? (s : Text) : Option Value := do
  let (negative, body) := cutSign s
  let ds ← plainDigits? body
  let n := Text.digitsValue ds
  if negative then if n ≤ integerBound then some (.integer (-Int.ofNat n)) else none
  else if n < integerBound then some (.integer (Int.ofNat n))
  else none

/-- An integer. -/
def integer? : Text → Option Value
  | '0' :: 'x' :: cs => based? 16 cs
  | '0' :: 'o' :: cs => based? 8 cs
  | '0' :: 'b' :: cs => based? 2 cs
  | cs => decimal? cs

/-- The value of an exponent behind its letter. -/
def exponent? (s : Text) : Option Int := do
  let (negative, body) := cutSign s
  let ds ← digits? Text.isDigit body
  let n := Int.ofNat (Text.digitsValue ds)
  some (if negative then -n else n)

/-- Whether `mantissa · 10 ^ exponent` is below the range of 64-bit floats.  Far from the bound the
number of digits decides, near it the exact value does. -/
def isFinite (mantissa : Text) (exponent : Int) : Bool :=
  let m := Text.digitsValue mantissa
  let places := Int.ofNat (Nat.toDigits 10 m).length + exponent
  m == 0 || places < 300 ||
    (places < 400 &&
      let limit := Nat.pow 2 1024 - Nat.pow 2 970
      if 0 ≤ exponent then m * Nat.pow 10 exponent.toNat < limit
      else m < limit * Nat.pow 10 (-exponent).toNat)

/-- The letters that start an exponent. -/
def isExponentMark (c : Char) : Bool := c == 'e' || c == 'E'

/-- A float with a fraction or an exponent, or one of the special ones.  One that rounds to plus
infinity is refused. -/
def float? (s : Text) : Option Value := do
  let (negative, body) := cutSign s
  if body = "inf".toList || body = "nan".toList then some .float
  else
    let mantissa := body.takeWhile fun c => !isExponentMark c
    let whole := mantissa.takeWhile (· != '.')
    let wholeDigits ← plainDigits? whole
    let fraction ← match mantissa.drop whole.length with
      | [] => some []
      | _ :: fraction => digits? Text.isDigit fraction
    let exponent ← match body.drop mantissa.length with
      | [] => some 0
      | _ :: e => exponent? e
    if whole.length = body.length then none
    else if negative || isFinite (wholeDigits ++ fraction) (exponent - Int.ofNat fraction.length) then
      some .float
    else none

/-! ## Dates and times -/

/-- A number of exactly `n` digits between two bounds, and the rest. -/
def readField (n low high : Nat) (s : Text) : Option (Nat × Text) :=
  let ds := s.take n
  if ds.length = n && ds.all Text.isDigit then
    let v := Text.digitsValue ds
    if low ≤ v && v ≤ high then some (v, s.drop n) else none
  else none

/-- A given character, and the rest. -/
def readMark (c : Char) : Text → Option Text
  | x :: xs => if x = c then some xs else none
  | [] => none

/-- The number of days of a month. -/
def daysIn (year month : Nat) : Nat :=
  if month = 2 then
    if year % 4 = 0 && (year % 100 ≠ 0 || year % 400 = 0) then 29 else 28
  else if month = 4 || month = 6 || month = 9 || month = 11 then 30
  else 31

/-- A date and the rest. -/
def readDate (s : Text) : Option (Text × Text) := do
  let (year, rest) ← readField 4 0 9999 s
  let rest ← readMark '-' rest
  let (month, rest) ← readField 2 1 12 rest
  let rest ← readMark '-' rest
  let (_, rest) ← readField 2 1 (daysIn year month) rest
  some (s.take 10, rest)

/-- The fraction of a second as it is spelled: nine digits at most, without zeros at its end. -/
def spellFraction (digits : Text) : Text :=
  match ((digits.take 9).reverse.dropWhile (· == '0')).reverse with
  | [] => []
  | digits => '.' :: digits

/-- A time and the rest. -/
def readTime (s : Text) : Option (Text × Text) := do
  let (_, rest) ← readField 2 0 23 s
  let rest ← readMark ':' rest
  let (_, rest) ← readField 2 0 59 rest
  let rest ← readMark ':' rest
  let (_, rest) ← readField 2 0 60 rest
  match rest with
  | '.' :: cs =>
    let digits := cs.takeWhile Text.isDigit
    if digits.isEmpty then none
    else some (s.take 8 ++ spellFraction digits, cs.dropWhile Text.isDigit)
  | rest => some (s.take 8, rest)

/-- An offset from universal time, or nothing, as the whole of a text.  An offset of zero is spelled
with a plus sign. -/
def offset? (s : Text) : Option Text :=
  match s with
  | [] => some []
  | ['Z'] | ['z'] => some ['Z']
  | sign :: cs => do
    let (hours, rest) ← readField 2 0 23 cs
    let rest ← readMark ':' rest
    let (minutes, rest) ← readField 2 0 59 rest
    if (sign = '+' || sign = '-') && rest.isEmpty then
      some ((if hours = 0 && minutes = 0 then '+' else sign) :: cs)
    else none

/-- A time with or without an offset as the whole of a text. -/
def timeWithOffset? (s : Text) : Option Text := do
  let (time, rest) ← readTime s
  (offset? rest).map fun offset => time ++ offset

/-- A date, a time, or both around a `T`, as the whole of a text. -/
def moment? (s : Text) : Option Text :=
  match readTime s, readDate s with
  | some (time, []), _ => some time
  | _, some (date, []) => some date
  | _, some (date, c :: cs) =>
    if c = 'T' || c = 't' then (timeWithOffset? cs).map fun time => date ++ 'T' :: time else none
  | _, none => none

/-! ## Runs -/

/-- The characters of numbers, booleans and dates. -/
def isBareChar (c : Char) : Bool :=
  c.isAlphanum || c == '_' || c == '+' || c == '-' || c == '.' || c == ':'

/-- The value that a run of characters stands for. -/
def bareValue? (run : Text) : Option Value :=
  if run = "true".toList then some (.boolean true)
  else if run = "false".toList then some (.boolean false)
  else ((moment? run).map .moment).or ((float? run).or (integer? run))

/-- A date, a blank and a time, together one moment, and the rest. -/
def readSpaced (s : Text) : Option (Value × Text) :=
  match readDate s with
  | some (date, ' ' :: cs) =>
    (timeWithOffset? (cs.takeWhile isBareChar)).map fun time =>
      (.moment (date ++ 'T' :: time), cs.dropWhile isBareChar)
  | _ => none

/-- A value without quotes or brackets. -/
def readBare (s : Text) : Option (Value × Text) :=
  (readSpaced s).or ((bareValue? (s.takeWhile isBareChar)).map fun v => (v, s.dropWhile isBareChar))

end SqlLayout.Toml
