import SqlLayout.Proofs.Text.Blank
import SqlLayout.Proofs.Token.Shape

/-!
# What does not see ASCII case

Lower-casing `A` to `Z` changes letters into letters of the same width.  So the classes of
characters, the full case mappings, and comparisons with marks that have no letters give the same
answer for a text and for its ASCII lower case.
-/

namespace SqlLayout.Text

open Lexer

/-! ## Characters -/

/-- A character is its own lower case, or both are letters of ASCII. -/
theorem toLower_cases (c : Char) : c.toLower = c ∨
    (65 ≤ c.toNat ∧ c.toNat ≤ 90) ∧ c.toLower.toNat = c.toNat + 32 := by
  have hcode := toNat_toLower c
  split at hcode
  · next h => exact .inr ⟨h, hcode⟩
  · exact .inl (Char.toNat_inj.mp hcode)

/-- Only itself is lower-cased to a character that is no letter. -/
theorem toLower_eq_iff {x : Char} (hx : isLetter x = false) (c : Char) : c.toLower = x ↔ c = x := by
  rcases toLower_cases c with h | ⟨hc, hlower⟩
  · rw [h]
  · constructor
    · rintro rfl
      rw [isLetter_of_alphabet (by omega)] at hx
      cases hx
    · rintro rfl
      rw [isLetter_of_alphabet (by omega)] at hx
      cases hx

theorem isLetter_toLower_eq (c : Char) : isLetter c.toLower = isLetter c := by
  rcases toLower_cases c with h | ⟨hc, hlower⟩
  · rw [h]
  · rw [isLetter_of_alphabet (by omega), isLetter_of_alphabet (by omega)]

theorem isDigit_toLower (c : Char) : isDigit c.toLower = isDigit c := by
  cases hletter : isLetter c with
  | true => rw [isDigit_of_isLetter hletter, isDigit_of_isLetter (isLetter_toLower hletter)]
  | false => rw [(narrowCase_of_not_letter hletter).2]

theorem beq_toLower {x : Char} (hx : isLetter x = false) (c : Char) : (c.toLower == x) = (c == x) := by
  rw [Bool.eq_iff_iff, beq_iff_eq, beq_iff_eq, toLower_eq_iff hx]

theorem isWordChar_toLower (c : Char) : isWordChar c.toLower = isWordChar c := by
  simp only [isWordChar, isLetter_toLower_eq, isDigit_toLower, Dialect.nameSeparator,
    beq_toLower (x := '*') (by decide), beq_toLower (x := '.') (by decide)]

theorem isExponent_toLower (c : Char) :
    (c.toLower = 'e' ∨ c.toLower = 'E') ↔ (c = 'e' ∨ c = 'E') := by
  have hsmall : 'e'.toNat = 101 := rfl
  have hcapital : 'E'.toNat = 69 := rfl
  simp only [← Char.toNat_inj, hsmall, hcapital, toNat_toLower]
  split <;> omega

/-- The mark of an exponent is read in either case. -/
theorem isNumberChar_toLower (c : Char) : isNumberChar c.toLower = isNumberChar c := by
  have hexponent := isExponent_toLower c
  rw [Bool.eq_iff_iff]
  simp only [isNumberChar, isDigit_toLower, beq_toLower (x := '.') (by decide), Bool.or_eq_true,
    beq_iff_eq, or_assoc]
  rw [hexponent]

theorem utf8Size_toLower (c : Char) : c.toLower.utf8Size = c.utf8Size := by
  rcases toLower_cases c with h | ⟨hc, hlower⟩
  · rw [h]
  · have narrow : ∀ x : Char, x.toNat ≤ 127 → x.utf8Size = 1 := by
      intro x hx
      have hval : x.val ≤ 0x7f := UInt32.le_iff_toNat_le.mpr hx
      simp [Char.utf8Size, hval]
    rw [narrow c (by omega), narrow c.toLower (by omega)]

theorem upperChar_toLower (c : Char) : upperChar c.toLower = upperChar c := by
  rcases toLower_cases c with h | ⟨hc, hlower⟩
  · rw [h]
  · rw [upperChar, upperChar, if_pos (by omega), if_pos (by omega), (toUpper_twice c).2]

theorem lowerChar_toLower (c : Char) : lowerChar c.toLower = lowerChar c := by
  rcases toLower_cases c with h | ⟨hc, hlower⟩
  · rw [h]
  · rw [lowerChar, lowerChar, if_pos (by omega), if_pos (by omega), (toLower_twice c).1]

/-! ## Texts -/

@[simp] theorem asciiLower_nil : asciiLower [] = [] := rfl

@[simp] theorem asciiLower_cons (c : Char) (cs : Text) :
    asciiLower (c :: cs) = c.toLower :: asciiLower cs := rfl

@[simp] theorem asciiLower_append (a b : Text) :
    asciiLower (a ++ b) = asciiLower a ++ asciiLower b := by
  simp [asciiLower]

@[simp] theorem asciiLower_asciiLower (s : Text) : asciiLower (asciiLower s) = asciiLower s := by
  simp [asciiLower, Function.comp_def, (toLower_twice _).1]

/-- A text without letters is the lower case of itself only. -/
theorem asciiLower_eq_iff {w : Text} (hw : ∀ c ∈ w, isLetter c = false) (s : Text) :
    asciiLower s = w ↔ s = w := by
  induction w generalizing s with
  | nil => simp [asciiLower]
  | cons x xs ih =>
    have hx := hw x (by simp)
    have hxs := ih fun c hc => hw c (by simp [hc])
    cases s with
    | nil => simp
    | cons c cs => simp [toLower_eq_iff hx, hxs]

theorem startsWith_asciiLower {mark : Text} (hmark : ∀ c ∈ mark, isLetter c = false) (s : Text) :
    startsWith (asciiLower s) mark = startsWith s mark := by
  unfold startsWith
  induction mark generalizing s with
  | nil => simp
  | cons x xs ih =>
    have hx := hmark x (by simp)
    have hxs := ih fun c hc => hmark c (by simp [hc])
    cases s with
    | nil => rfl
    | cons c cs =>
      have hhead : (x == c.toLower) = (x == c) := by rw [BEq.comm, beq_toLower hx, BEq.comm]
      simp only [asciiLower_cons, List.isPrefixOf_cons_cons, hhead, hxs]

theorem endsWith_asciiLower {x : Char} (hx : isLetter x = false) (s : Text) :
    endsWith (asciiLower s) x = endsWith s x := by
  unfold endsWith asciiLower
  rw [List.getLast?_map]
  cases s.getLast? with
  | none => rfl
  | some c =>
    rw [Option.map_some, Bool.eq_iff_iff]
    simp [toLower_eq_iff hx]

@[simp] theorem allBlank_asciiLower (s : Text) : allBlank (asciiLower s) = allBlank s := by
  simp [allBlank, asciiLower, isBlank_toLower, Function.comp_def]

/-- Cutting a text by a test that does not see case. -/
theorem cutWhile_asciiLower {p : Char → Bool} (hp : ∀ c : Char, p c.toLower = p c) (s : Text) :
    cutWhile p (asciiLower s) = (asciiLower (cutWhile p s).1, asciiLower (cutWhile p s).2) := by
  have hcomp : p ∘ Char.toLower = p := funext hp
  simp [cutWhile, asciiLower, List.takeWhile_map, List.dropWhile_map, hcomp]

theorem trimEnd_asciiLower (s : Text) : trimEnd (asciiLower s) = asciiLower (trimEnd s) := by
  have hcomp : isBlank ∘ Char.toLower = isBlank := funext isBlank_toLower
  simp [trimEnd, asciiLower, ← List.map_reverse, List.dropWhile_map, hcomp]

theorem byteSize_asciiLower (s : Text) : byteSize (asciiLower s) = byteSize s := by
  induction s with
  | nil => rfl
  | cons c cs ih => rw [asciiLower_cons, byteSize, byteSize, utf8Size_toLower, ih]

/-! ## The full case mappings -/

theorem upper_asciiLower (s : Text) : upper (asciiLower s) = upper s := by
  induction s with
  | nil => rfl
  | cons c cs ih => rw [asciiLower_cons, upper_cons, upper_cons, upperChar_toLower, ih]

/-- The tables that find the final sigma hold both cases of a letter of ASCII. -/
theorem inRanges_alphabet : ∀ n ∈ List.range 26,
    inRanges caseIgnorableRanges (65 + n + 32) = inRanges caseIgnorableRanges (65 + n) ∧
    inRanges casedRanges (65 + n + 32) = inRanges casedRanges (65 + n) := by decide +kernel

theorem inRanges_toLower (c : Char) :
    inRanges caseIgnorableRanges c.toLower.toNat = inRanges caseIgnorableRanges c.toNat ∧
    inRanges casedRanges c.toLower.toNat = inRanges casedRanges c.toNat := by
  rcases toLower_cases c with h | ⟨hc, hlower⟩
  · simp [h]
  · have hcode : 65 + (c.toNat - 65) = c.toNat := by omega
    have halphabet := inRanges_alphabet (c.toNat - 65) (List.mem_range.mpr (by omega))
    rw [hcode] at halphabet
    rw [hlower]
    exact halphabet

theorem reachesCased_asciiLower (s : Text) : reachesCased (asciiLower s) = reachesCased s := by
  have hcomp : (fun c : Char => inRanges caseIgnorableRanges c.toNat) ∘ Char.toLower =
      fun c => inRanges caseIgnorableRanges c.toNat := funext fun c => (inRanges_toLower c).1
  unfold reachesCased asciiLower
  rw [List.dropWhile_map, hcomp]
  cases s.dropWhile fun c => inRanges caseIgnorableRanges c.toNat with
  | nil => rfl
  | cons c cs => exact (inRanges_toLower c).2

theorem lowerBetween_toLower (before behind : Text) (c : Char) :
    lowerBetween (asciiLower before) c.toLower (asciiLower behind) =
      lowerBetween before c behind := by
  have hsigma : c.toLower = 'Σ' ↔ c = 'Σ' := by
    have hcode : 'Σ'.toNat = 931 := rfl
    simp only [← Char.toNat_inj, hcode, toNat_toLower]
    split <;> omega
  simp only [lowerBetween, hsigma, reachesCased_asciiLower, lowerChar_toLower]

theorem lowerAfter_asciiLower (before s : Text) :
    lowerAfter (asciiLower before) (asciiLower s) = lowerAfter before s := by
  induction s generalizing before with
  | nil => rfl
  | cons c cs ih =>
    rw [asciiLower_cons, lowerAfter_cons, lowerAfter_cons, lowerBetween_toLower, ← asciiLower_cons, ih]

theorem lower_asciiLower (s : Text) : lower (asciiLower s) = lower s := lowerAfter_asciiLower [] s

/-- The case of a style forgets the ASCII case, or leaves it as it was. -/
theorem asciiLower_apply_asciiLower (k : KeywordCase) (w : Text) :
    asciiLower (k.apply (asciiLower w)) = asciiLower (k.apply w) := by
  cases k with
  | upper => simp only [KeywordCase.apply, upper_asciiLower]
  | lower => simp only [KeywordCase.apply, lower_asciiLower]
  | asWritten => exact asciiLower_asciiLower w

theorem asciiLower_upper {w : Text} (hw : ∀ c ∈ w, c.toNat < 128) :
    asciiLower (upper w) = asciiLower w := by
  induction w with
  | nil => rfl
  | cons c cs ih =>
    have hupper : upperChar c = [c.toUpper] := by simp [upperChar, hw c (by simp)]
    rw [upper_cons, hupper, List.singleton_append, asciiLower_cons, (toLower_twice c).2,
      ih fun x hx => hw x (by simp [hx]), asciiLower_cons]

theorem asciiLower_lowerAfter (before : Text) {w : Text} (hw : ∀ c ∈ w, c.toNat < 128) :
    asciiLower (lowerAfter before w) = asciiLower w := by
  induction w generalizing before with
  | nil => rfl
  | cons c cs ih =>
    have hc := hw c (by simp)
    have hsigma : c ≠ 'Σ' := by
      rintro rfl
      exact absurd hc (by decide)
    have hlower : lowerBetween before c cs = [c.toLower] := by
      simp [lowerBetween, hsigma, lowerChar, hc]
    rw [lowerAfter_cons, hlower, List.singleton_append, asciiLower_cons, (toLower_twice c).1,
      ih (c :: before) fun x hx => hw x (by simp [hx]), asciiLower_cons]

/-- An ASCII word differs from its form in a style by ASCII case only. -/
theorem asciiLower_apply (k : KeywordCase) {w : Text} (hw : ∀ c ∈ w, c.toNat < 128) :
    asciiLower (k.apply w) = asciiLower w := by
  cases k with
  | upper => exact asciiLower_upper hw
  | lower => exact asciiLower_lowerAfter [] hw
  | asWritten => rfl

end SqlLayout.Text
