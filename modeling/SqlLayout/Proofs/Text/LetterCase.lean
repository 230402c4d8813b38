import SqlLayout.Style
import SqlLayout.Token.Lexer

/-!
# Words keep their shape in another case

The case tables map letters to letters: no target of a mapping is white space, a digit or
punctuation.  So a word in the case of a style is again a word (`isWord_apply`).
-/

namespace SqlLayout.Text

open Lexer

/-- A text that the lexer reads as one word. -/
def IsWord (w : Text) : Prop :=
  (∃ c ∈ w.head?, isLetter c = true) ∧ ∀ c ∈ w, isWordChar c = true

/-- White space beyond ASCII, as closed ranges. -/
def wideBlanks : List (Nat × Nat) :=
  [(0x85, 0x85), (0xA0, 0xA0), (0x1680, 0x1680), (0x2000, 0x200A), (0x2028, 0x2029),
    (0x202F, 0x202F), (0x205F, 0x205F), (0x3000, 0x3000)]

/-- Whether all code points from `lo` to `hi` are letters, told from the ends. -/
def lettersBetween (lo hi : Nat) : Bool :=
  (128 ≤ lo && wideBlanks.all fun b => hi < b.1 || b.2 < lo) ||
    (lo == hi && isLetter (Char.ofNat lo))

theorem isBlank_eq_false_of_wide {c : Char} (hc : 128 ≤ c.toNat)
    (h : ∀ b ∈ wideBlanks, c.toNat < b.1 ∨ b.2 < c.toNat) : isBlank c = false := by
  simp only [wideBlanks, List.forall_mem_cons, List.not_mem_nil, false_implies, implies_true,
    and_true] at h
  have hblank : ¬ isBlank c = true := by
    simp only [isBlank, Bool.or_eq_true, Bool.and_eq_true, decide_eq_true_eq, beq_iff_eq]
    omega
  simpa using hblank

/-- Punctuation is ASCII and none of the letters there. -/
theorem toNat_of_isSymbolChar {c : Char} (h : isSymbolChar c = true) :
    c.toNat < 65 ∨ 90 < c.toNat ∧ c.toNat < 97 ∨ 122 < c.toNat ∧ c.toNat < 128 := by
  have hall : ∀ x ∈ ['"', '?', '%', '&', '\'', '(', ')', '|', '*', '+', ',', '-', '.', '/', ':',
      ';', '<', '=', '>', '!', '~', '\x60', '[', ']'],
      x.toNat < 65 ∨ 90 < x.toNat ∧ x.toNat < 97 ∨ 122 < x.toNat ∧ x.toNat < 128 := by decide
  exact hall c (by simpa [isSymbolChar] using h)

theorem toNat_of_isDigit {c : Char} (h : isDigit c = true) : c.toNat ≤ 57 := by
  simp only [isDigit, Bool.and_eq_true, decide_eq_true_eq, Char.le_def, UInt32.le_iff_toNat_le] at h
  exact h.2

/-- A character is a letter by not being any of the others. -/
theorem isLetter_of_toNat {c : Char} (hblank : isBlank c = false)
    (h : 65 ≤ c.toNat ∧ c.toNat ≤ 90 ∨ 97 ≤ c.toNat ∧ c.toNat ≤ 122 ∨ 128 ≤ c.toNat) :
    isLetter c = true := by
  have hdigit : isDigit c = false := by
    refine Bool.eq_false_iff.mpr fun hdigit => ?_
    have := toNat_of_isDigit hdigit
    omega
  have hsymbol : isSymbolChar c = false := by
    refine Bool.eq_false_iff.mpr fun hsymbol => ?_
    have := toNat_of_isSymbolChar hsymbol
    omega
  simp [isLetter, hblank, hdigit, hsymbol]

theorem isLetter_of_wide {c : Char} (hc : 128 ≤ c.toNat) (hblank : isBlank c = false) :
    isLetter c = true :=
  isLetter_of_toNat hblank (.inr (.inr hc))

/-! ## The case of ASCII -/

theorem toNat_toUpper (c : Char) :
    c.toUpper.toNat = if 97 ≤ c.toNat ∧ c.toNat ≤ 122 then c.toNat - 32 else c.toNat := by
  have hlower : ('a'.val ≤ c.val ∧ c.val ≤ 'z'.val) ↔ 97 ≤ c.toNat ∧ c.toNat ≤ 122 := by
    simp [UInt32.le_iff_toNat_le]
  by_cases h : 97 ≤ c.toNat ∧ c.toNat ≤ 122
  · unfold Char.toUpper
    rw [dif_pos (hlower.mpr h), if_pos h]
    simp only [Char.toNat, UInt32.toNat_add] at h ⊢
    have hshift : ('A'.val - 'a'.val).toNat = 2 ^ 32 - 32 := by decide
    omega
  · unfold Char.toUpper
    rw [dif_neg fun hval => h (hlower.mp hval), if_neg h]

theorem toNat_toLower (c : Char) :
    c.toLower.toNat = if 65 ≤ c.toNat ∧ c.toNat ≤ 90 then c.toNat + 32 else c.toNat := by
  have hupper : (c.val ≥ 'A'.val ∧ c.val ≤ 'Z'.val) ↔ 65 ≤ c.toNat ∧ c.toNat ≤ 90 := by
    simp [UInt32.le_iff_toNat_le]
  by_cases h : 65 ≤ c.toNat ∧ c.toNat ≤ 90
  · unfold Char.toLower
    rw [dif_pos (hupper.mpr h), if_pos h]
    simp only [Char.toNat, UInt32.toNat_add] at h ⊢
    have hshift : ('a'.val - 'A'.val).toNat = 32 := by decide
    omega
  · unfold Char.toLower
    rw [dif_neg fun hval => h (hupper.mp hval), if_neg h]

theorem isBlank_of_alphabet {c : Char}
    (h : 65 ≤ c.toNat ∧ c.toNat ≤ 90 ∨ 97 ≤ c.toNat ∧ c.toNat ≤ 122) : isBlank c = false := by
  have hblank : ¬ isBlank c = true := by
    simp only [isBlank, Bool.or_eq_true, Bool.and_eq_true, decide_eq_true_eq, beq_iff_eq]
    omega
  simpa using hblank

theorem isLetter_of_alphabet {c : Char}
    (h : 65 ≤ c.toNat ∧ c.toNat ≤ 90 ∨ 97 ≤ c.toNat ∧ c.toNat ≤ 122) : isLetter c = true :=
  isLetter_of_toNat (isBlank_of_alphabet h) (by omega)

theorem isLetter_toUpper {c : Char} (hc : isLetter c = true) : isLetter c.toUpper = true := by
  have hcode := toNat_toUpper c
  split at hcode
  · exact isLetter_of_alphabet (by omega)
  · rwa [Char.toNat_inj.mp hcode]

theorem isLetter_toLower {c : Char} (hc : isLetter c = true) : isLetter c.toLower = true := by
  have hcode := toNat_toLower c
  split at hcode
  · exact isLetter_of_alphabet (by omega)
  · rwa [Char.toNat_inj.mp hcode]

/-- The case taken last decides. -/
theorem toUpper_twice (c : Char) :
    c.toUpper.toUpper = c.toUpper ∧ c.toLower.toUpper = c.toUpper := by
  have hupper := toNat_toUpper c
  have hlower := toNat_toLower c
  constructor
  · refine Char.toNat_inj.mp ?_
    rw [toNat_toUpper c.toUpper]
    split at hupper <;> split <;> omega
  · refine Char.toNat_inj.mp ?_
    rw [toNat_toUpper c.toLower]
    split at hupper <;> split at hlower <;> split <;> omega

theorem toLower_twice (c : Char) :
    c.toLower.toLower = c.toLower ∧ c.toUpper.toLower = c.toLower := by
  have hupper := toNat_toUpper c
  have hlower := toNat_toLower c
  constructor
  · refine Char.toNat_inj.mp ?_
    rw [toNat_toLower c.toLower]
    split at hlower <;> split <;> omega
  · refine Char.toNat_inj.mp ?_
    rw [toNat_toLower c.toUpper]
    split at hupper <;> split at hlower <;> split <;> omega

theorem toNat_case_lt {c : Char} (hc : c.toNat < 128) :
    c.toUpper.toNat < 128 ∧ c.toLower.toNat < 128 := by
  rw [toNat_toUpper, toNat_toLower]
  constructor <;> split <;> omega

theorem isBlank_toUpper (c : Char) : isBlank c.toUpper = isBlank c := by
  have hcode := toNat_toUpper c
  split at hcode
  · rw [isBlank_of_alphabet (by omega), isBlank_of_alphabet (by omega)]
  · rw [Char.toNat_inj.mp hcode]

theorem isBlank_toLower (c : Char) : isBlank c.toLower = isBlank c := by
  have hcode := toNat_toLower c
  split at hcode
  · rw [isBlank_of_alphabet (by omega), isBlank_of_alphabet (by omega)]
  · rw [Char.toNat_inj.mp hcode]

/-- Only the letters of ASCII have a case there. -/
theorem narrowCase_of_not_letter {c : Char} (hc : isLetter c = false) :
    c.toUpper = c ∧ c.toLower = c := by
  have hcode : ¬ (65 ≤ c.toNat ∧ c.toNat ≤ 90 ∨ 97 ≤ c.toNat ∧ c.toNat ≤ 122) := by
    intro h
    rw [isLetter_of_alphabet h] at hc
    cases hc
  rw [not_or] at hcode
  exact ⟨Char.toNat_inj.mp (by rw [toNat_toUpper, if_neg hcode.2]),
    Char.toNat_inj.mp (by rw [toNat_toLower, if_neg hcode.1])⟩

/-! ## The case tables -/

theorem toNat_ofNat {n : Nat} (h : n < 0xD800 ∨ 0xDFFF < n ∧ n < 0x110000) :
    (Char.ofNat n).toNat = n := by
  have hvalid : n.isValidChar := h
  rw [Char.ofNat, dif_pos hvalid]
  rfl

theorem isLetter_of_between {lo hi n : Nat} (h : lettersBetween lo hi = true) (hlo : lo ≤ n)
    (hhi : n ≤ hi) : isLetter (Char.ofNat n) = true := by
  simp only [lettersBetween, Bool.or_eq_true, Bool.and_eq_true, decide_eq_true_eq, List.all_eq_true,
    beq_iff_eq] at h
  rcases h with ⟨hwide, hblanks⟩ | ⟨hsame, hletter⟩
  · by_cases hvalid : n.isValidChar
    · have hcode : (Char.ofNat n).toNat = n := toNat_ofNat hvalid
      refine isLetter_of_wide (by omega) (isBlank_eq_false_of_wide (by omega) ?_)
      intro b hb
      have := hblanks b hb
      omega
    · have hzero : Char.ofNat n = '\x00' := by
        rw [Char.ofNat, dif_neg hvalid]
        rfl
      rw [hzero]
      decide
  · obtain rfl : n = lo := by omega
    exact hletter

/-! ## One character -/

/-- Whether the tables map letters to letters only. -/
def keepsLetters (expansions : List (Nat × List Nat)) (runs : List CaseRun) : Bool :=
  (expansions.all fun e => !e.2.isEmpty && e.2.all fun n => isLetter (Char.ofNat n)) &&
    runs.all fun r => lettersBetween (r.first + r.offset).toNat (r.last + r.offset).toNat

theorem keepsLetters_tables : keepsLetters upperExpansions upperRuns = true ∧
    keepsLetters lowerExpansions lowerRuns = true := by decide +kernel

theorem mem_of_lookup {α β : Type} [BEq β] [LawfulBEq β] {n : β} {a : α} {l : List (β × α)}
    (h : l.lookup n = some a) : (n, a) ∈ l := by
  induction l with
  | nil => simp at h
  | cons e l ih =>
    obtain ⟨k, v⟩ := e
    by_cases hk : n = k
    · subst hk
      simp_all
    · have hne : (n == k) = false := by simpa using hk
      rw [List.lookup_cons, hne] at h
      exact List.mem_cons_of_mem _ (ih h)

/-- A letter is mapped to letters, at least one. -/
theorem isLetter_mapCase {expansions : List (Nat × List Nat)} {runs : List CaseRun}
    (hkeeps : keepsLetters expansions runs = true) {c : Char} (hc : isLetter c = true) :
    mapCase expansions runs c ≠ [] ∧ ∀ x ∈ mapCase expansions runs c, isLetter x = true := by
  simp only [keepsLetters, Bool.and_eq_true, List.all_eq_true] at hkeeps
  unfold mapCase
  split
  · next ns hlookup =>
    have hentry := hkeeps.1 _ (mem_of_lookup hlookup)
    simp only [Bool.not_eq_true', List.isEmpty_eq_false_iff] at hentry
    refine ⟨by simpa using hentry.1, ?_⟩
    intro x hx
    obtain ⟨n, hn, rfl⟩ := List.mem_map.mp hx
    exact hentry.2 n hn
  · split
    · next r hfind =>
      have hrun := hkeeps.2 r (List.mem_of_find?_eq_some hfind)
      have hcovers := List.find?_some hfind
      simp only [CaseRun.covers, Bool.and_eq_true, decide_eq_true_eq] at hcovers
      refine ⟨by simp, ?_⟩
      intro x hx
      obtain rfl := List.mem_singleton.mp hx
      exact isLetter_of_between hrun (by omega) (by omega)
    · refine ⟨by simp, ?_⟩
      intro x hx
      obtain rfl := List.mem_singleton.mp hx
      exact hc

theorem isLetter_upperChar {c : Char} (hc : isLetter c = true) :
    upperChar c ≠ [] ∧ ∀ x ∈ upperChar c, isLetter x = true := by
  unfold upperChar
  split
  · simpa using isLetter_toUpper hc
  · exact isLetter_mapCase keepsLetters_tables.1 hc

theorem isLetter_lowerChar {c : Char} (hc : isLetter c = true) :
    lowerChar c ≠ [] ∧ ∀ x ∈ lowerChar c, isLetter x = true := by
  unfold lowerChar
  split
  · simpa using isLetter_toLower hc
  · exact isLetter_mapCase keepsLetters_tables.2 hc

/-- Characters of a word that are no letters have no case. -/
theorem case_of_not_letter {c : Char} (hc : isWordChar c = true) (hletter : isLetter c = false) :
    upperChar c = [c] ∧ lowerChar c = [c] := by
  have hnarrow : c.toNat < 128 := by
    refine Nat.lt_of_not_le fun hwide => ?_
    have hother : c ≠ '*' ∧ c ≠ '.' := by
      constructor
      · rintro rfl
        exact absurd hwide (by decide)
      · rintro rfl
        exact absurd hwide (by decide)
    have hdigit : isDigit c = false := by
      refine Bool.eq_false_iff.mpr fun hdigit => ?_
      have := toNat_of_isDigit hdigit
      omega
    simp [isWordChar, hletter, hdigit, hother.1, hother.2, Dialect.nameSeparator] at hc
  obtain ⟨hupper, hlower⟩ := narrowCase_of_not_letter hletter
  simp [upperChar, lowerChar, hnarrow, hupper, hlower]

theorem isWordChar_of_isLetter {c : Char} (h : isLetter c = true) : isWordChar c = true := by
  simp [isWordChar, h]

theorem isWordChar_upperChar {c : Char} (hc : isWordChar c = true) :
    ∀ x ∈ upperChar c, isWordChar x = true := by
  intro x hx
  cases hletter : isLetter c with
  | true => exact isWordChar_of_isLetter ((isLetter_upperChar hletter).2 x hx)
  | false =>
    rw [(case_of_not_letter hc hletter).1, List.mem_singleton] at hx
    rw [hx]
    exact hc

/-- The code points of white space beyond ASCII. -/
def wideBlankPoints : List Nat :=
  [0x85, 0xA0, 0x1680, 0x2000, 0x2001, 0x2002, 0x2003, 0x2004, 0x2005, 0x2006, 0x2007, 0x2008,
    0x2009, 0x200A, 0x2028, 0x2029, 0x202F, 0x205F, 0x3000]

theorem upper_wideBlankPoints : ∀ n ∈ wideBlankPoints, upperExpansions.lookup n = none ∧
    upperRuns.find? (·.covers n) = none := by decide +kernel

/-- Whatever is no letter is its own upper case. -/
theorem upperChar_of_not_letter {c : Char} (h : isLetter c = false) : upperChar c = [c] := by
  unfold upperChar
  split
  · rw [(narrowCase_of_not_letter h).1]
  · next hwide =>
    have hblank : isBlank c = true := by
      cases hblank : isBlank c with
      | true => rfl
      | false =>
        rw [isLetter_of_wide (Nat.not_lt.mp hwide) hblank] at h
        cases h
    have hmem : c.toNat ∈ wideBlankPoints := by
      simp only [isBlank, Bool.or_eq_true, Bool.and_eq_true, decide_eq_true_eq, beq_iff_eq] at hblank
      simp only [wideBlankPoints, List.mem_cons, List.not_mem_nil, or_false]
      omega
    obtain ⟨hlookup, hfind⟩ := upper_wideBlankPoints c.toNat hmem
    simp [mapCase, hlookup, hfind]

/-! ## Whole texts -/

/-- A text without letters is the upper case of itself only. -/
theorem upper_eq_iff {text w : Text} (hw : ∀ c ∈ w, isLetter c = false) :
    upper text = w ↔ text = w := by
  constructor
  · intro h
    induction text generalizing w with
    | nil => exact h
    | cons c cs ih =>
      have hcons : upper (c :: cs) = upperChar c ++ upper cs := by simp [upper]
      rw [hcons] at h
      cases hletter : isLetter c with
      | true =>
        obtain ⟨hne, hletters⟩ := isLetter_upperChar hletter
        obtain ⟨x, xs, hx⟩ := List.exists_cons_of_ne_nil hne
        have hnot := hw x (by simp [← h, hx])
        rw [hletters x (by simp [hx])] at hnot
        cases hnot
      | false =>
        rw [upperChar_of_not_letter hletter] at h
        subst h
        have hrest : cs = upper cs := ih (fun x hx => hw x (by simp [hx])) rfl
        exact congrArg (c :: ·) hrest
  · rintro rfl
    induction text with
    | nil => rfl
    | cons c cs ih =>
      have hcons : upper (c :: cs) = upperChar c ++ upper cs := by simp [upper]
      rw [hcons, upperChar_of_not_letter (hw c (by simp)), ih fun x hx => hw x (by simp [hx])]
      rfl

/-- The lower case of `c` in a text, the final sigma included. -/
def lowerBetween (before : Text) (c : Char) (behind : Text) : Text :=
  if c = 'Σ' then if reachesCased before && !reachesCased behind then ['ς'] else ['σ']
  else lowerChar c

theorem lowerAfter_cons (before : Text) (c : Char) (cs : Text) :
    lowerAfter before (c :: cs) = lowerBetween before c cs ++ lowerAfter (c :: before) cs := rfl

theorem isLetter_lowerBetween (before behind : Text) {c : Char} (hc : isLetter c = true) :
    lowerBetween before c behind ≠ [] ∧
      ∀ x ∈ lowerBetween before c behind, isLetter x = true := by
  have hsigma : isLetter 'ς' = true ∧ isLetter 'σ' = true := by decide
  unfold lowerBetween
  split
  · split
    · simpa using hsigma.1
    · simpa using hsigma.2
  · exact isLetter_lowerChar hc

theorem isWordChar_lowerBetween (before behind : Text) {c : Char} (hc : isWordChar c = true) :
    ∀ x ∈ lowerBetween before c behind, isWordChar x = true := by
  intro x hx
  cases hletter : isLetter c with
  | true => exact isWordChar_of_isLetter ((isLetter_lowerBetween before behind hletter).2 x hx)
  | false =>
    have hsigma : c ≠ 'Σ' := by
      rintro rfl
      simp [show isLetter 'Σ' = true by decide] at hletter
    rw [lowerBetween, if_neg hsigma, (case_of_not_letter hc hletter).2, List.mem_singleton] at hx
    rw [hx]
    exact hc

theorem isWord_upper {w : Text} (hw : IsWord w) : IsWord (upper w) := by
  obtain ⟨⟨c, hc, hletter⟩, hchars⟩ := hw
  cases w with
  | nil => simp at hc
  | cons a as =>
    obtain rfl : a = c := by simpa using hc
    obtain ⟨hne, hletters⟩ := isLetter_upperChar hletter
    obtain ⟨x, xs, hx⟩ := List.exists_cons_of_ne_nil hne
    have hupper : upper (a :: as) = x :: (xs ++ upper as) := by simp [upper, hx]
    refine ⟨⟨x, by simp [hupper], hletters x (by simp [hx])⟩, ?_⟩
    intro y hy
    obtain ⟨z, hz, hyz⟩ := List.mem_flatMap.mp hy
    exact isWordChar_upperChar (hchars z hz) y hyz

theorem isWordChar_lowerAfter (before w : Text) (hw : ∀ c ∈ w, isWordChar c = true) :
    ∀ x ∈ lowerAfter before w, isWordChar x = true := by
  induction w generalizing before with
  | nil => simp [lowerAfter]
  | cons c cs ih =>
    intro x hx
    rw [lowerAfter_cons, List.mem_append] at hx
    rcases hx with hx | hx
    · exact isWordChar_lowerBetween before cs (hw c (by simp)) x hx
    · exact ih (c :: before) (fun y hy => hw y (by simp [hy])) x hx

theorem isWord_lower {w : Text} (hw : IsWord w) : IsWord (lower w) := by
  obtain ⟨⟨c, hc, hletter⟩, hchars⟩ := hw
  refine ⟨?_, isWordChar_lowerAfter [] w hchars⟩
  cases w with
  | nil => simp at hc
  | cons a as =>
    obtain rfl : a = c := by simpa using hc
    obtain ⟨hne, hletters⟩ := isLetter_lowerBetween [] as hletter
    obtain ⟨x, xs, hx⟩ := List.exists_cons_of_ne_nil hne
    have hlower : lower (a :: as) = x :: (xs ++ lowerAfter [a] as) := by
      simp [lower, lowerAfter_cons, hx]
    exact ⟨x, by simp [hlower], hletters x (by simp [hx])⟩

/-- A word in the case of a style is a word. -/
theorem isWord_apply (k : KeywordCase) {w : Text} (hw : IsWord w) : IsWord (k.apply w) := by
  cases k with
  | upper => exact isWord_upper hw
  | lower => exact isWord_lower hw
  | asWritten => exact hw

theorem length_le_upper {w : Text} (hw : ∀ c ∈ w, isWordChar c = true) :
    w.length ≤ (upper w).length := by
  induction w with
  | nil => simp
  | cons c cs ih =>
    have hcons : upper (c :: cs) = upperChar c ++ upper cs := by simp [upper]
    have hrest := ih fun x hx => hw x (by simp [hx])
    have hhere : 0 < (upperChar c).length := by
      rw [List.length_pos_iff]
      cases hletter : isLetter c with
      | true => exact (isLetter_upperChar hletter).1
      | false => simp [(case_of_not_letter (hw c (by simp)) hletter).1]
    rw [hcons, List.length_append, List.length_cons]
    omega

theorem length_le_lowerAfter (before : Text) {w : Text} (hw : ∀ c ∈ w, isWordChar c = true) :
    w.length ≤ (lowerAfter before w).length := by
  induction w generalizing before with
  | nil => simp
  | cons c cs ih =>
    have hrest := ih (c :: before) fun x hx => hw x (by simp [hx])
    have hhere : 0 < (lowerBetween before c cs).length := by
      rw [List.length_pos_iff]
      cases hletter : isLetter c with
      | true => exact (isLetter_lowerBetween before cs hletter).1
      | false =>
        have hsigma : c ≠ 'Σ' := by
          rintro rfl
          simp [show isLetter 'Σ' = true by decide] at hletter
        simp [lowerBetween, hsigma, (case_of_not_letter (hw c (by simp)) hletter).2]
    rw [lowerAfter_cons, List.length_append, List.length_cons]
    omega

/-- A word does not get shorter in another case. -/
theorem length_le_apply (k : KeywordCase) {w : Text} (hw : IsWord w) :
    w.length ≤ (k.apply w).length := by
  cases k with
  | upper => exact length_le_upper hw.2
  | lower => exact length_le_lowerAfter [] hw.2
  | asWritten => exact Nat.le_refl _

theorem IsWord.exists_head {w : Text} (hw : IsWord w) :
    ∃ c cs, w = c :: cs ∧ isLetter c = true ∧ isBlank c = false := by
  obtain ⟨⟨c, hc, hletter⟩, -⟩ := hw
  cases w with
  | nil => simp at hc
  | cons a as =>
    obtain rfl : a = c := by simpa using hc
    refine ⟨a, as, rfl, hletter, ?_⟩
    simp only [isLetter, Bool.and_eq_true, Bool.not_eq_true'] at hletter
    exact hletter.1.1

end SqlLayout.Text
