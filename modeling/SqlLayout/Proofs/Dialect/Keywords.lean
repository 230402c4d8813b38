import SqlLayout.Proofs.Dialect.Standard

/-!
# Keywords in another case

The standard words are ASCII.  A word whose upper case is ASCII has the same upper case once it is
in the case of a style (`upper_apply`), so a keyword stays one.
-/

namespace SqlLayout.Text

/-! ## Characters with an upper case in ASCII -/

/-- Whether the character has no lower case of its own and does not start with `E` in upper case. -/
def isCapital (n : Nat) (upper : List Nat) : Bool :=
  n != 'Σ'.toNat && lowerExpansions.lookup n == none && lowerRuns.find? (·.covers n) == none &&
    upper.all (fun m => (Char.ofNat m).toUpper == Char.ofNat m) && (upper.map Char.ofNat).head? != some 'E'

/-- Whether all code points of a run are mapped to characters beyond ASCII. -/
def CaseRun.isWide (r : CaseRun) : Bool :=
  let first := (r.first + r.offset).toNat
  let last := (r.last + r.offset).toNat
  128 ≤ first && (last < 0xD800 || 0xDFFF < first && last < 0x110000)

/-- What the tables map to ASCII are capitals. -/
theorem capital_tables :
    (∀ e ∈ upperExpansions,
      (∃ n ∈ e.2, 128 ≤ (Char.ofNat n).toNat) ∨ isCapital e.1 e.2 = true) ∧
    ∀ r ∈ upperRuns, r.isWide = true ∨
      r.first = r.last ∧ isCapital r.first [(r.first + r.offset).toNat] = true := by decide +kernel

/-- A character beyond ASCII with its upper case in ASCII has no lower case. -/
theorem exists_capital {c : Char} (hc : 128 ≤ c.toNat) (h : ∀ x ∈ upperChar c, x.toNat < 128) :
    ∃ ns, upperChar c = ns.map Char.ofNat ∧ isCapital c.toNat ns = true := by
  have hupper : upperChar c = mapCase upperExpansions upperRuns c := by
    simp [upperChar, Nat.not_lt.mpr hc]
  rw [hupper] at h ⊢
  unfold mapCase at h ⊢
  split at h
  · next ns hlookup =>
    rcases capital_tables.1 _ (mem_of_lookup hlookup) with ⟨n, hn, hwide⟩ | hcapital
    · have := h (Char.ofNat n) (List.mem_map_of_mem hn)
      omega
    · exact ⟨ns, rfl, hcapital⟩
  · split at h
    · next r hfind =>
      have hcovers := List.find?_some hfind
      simp only [CaseRun.covers, Bool.and_eq_true, decide_eq_true_eq] at hcovers
      have hnarrow := h _ (List.mem_singleton.mpr rfl)
      rcases capital_tables.2 r (List.mem_of_find?_eq_some hfind) with hwide | ⟨hone, hcapital⟩
      · simp only [CaseRun.isWide, Bool.and_eq_true, Bool.or_eq_true, decide_eq_true_eq] at hwide
        rw [toNat_ofNat (by omega)] at hnarrow
        omega
      · have hsame : r.first = c.toNat := by omega
        rw [hsame] at hcapital
        exact ⟨[(c.toNat + r.offset).toNat], rfl, hcapital⟩
    · have := h c (by simp)
      omega

theorem ne_sigma {c : Char} (h : ∀ x ∈ upperChar c, x.toNat < 128) : c ≠ 'Σ' := by
  rintro rfl
  obtain ⟨ns, -, hcapital⟩ := exists_capital (by decide) h
  simp [isCapital] at hcapital

theorem eq_of_toUpper_eq_e {c : Char} (h : c.toUpper = 'E') : c = 'e' ∨ c = 'E' := by
  have hcode := toNat_toUpper c
  rw [h] at hcode
  have hcapital : 'E'.toNat = 69 := rfl
  split at hcode
  · exact .inl (Char.toNat_inj.mp (show c.toNat = 101 by omega))
  · exact .inr (Char.toNat_inj.mp (show c.toNat = 69 by omega))

theorem upper_cons (c : Char) (cs : Text) : upper (c :: cs) = upperChar c ++ upper cs := by
  simp [upper]

theorem upper_append (a b : Text) : upper (a ++ b) = upper a ++ upper b := by
  simp [upper]

theorem upper_upperChar {c : Char} (h : ∀ x ∈ upperChar c, x.toNat < 128) :
    upper (upperChar c) = upperChar c := by
  by_cases hc : c.toNat < 128
  · simp [upperChar, hc, upper, (toUpper_twice c).1, (toNat_case_lt hc).1]
  · obtain ⟨ns, hns, hcapital⟩ := exists_capital (Nat.not_lt.mp hc) h
    simp only [isCapital, Bool.and_eq_true, List.all_eq_true, beq_iff_eq] at hcapital
    rw [hns] at h ⊢
    have hfixed : ∀ x ∈ ns.map Char.ofNat, upperChar x = [x] := by
      intro x hx
      obtain ⟨n, hn, rfl⟩ := List.mem_map.mp hx
      simp [upperChar, h _ hx, hcapital.1.2 n hn]
    unfold upper
    generalize ns.map Char.ofNat = xs at hfixed
    induction xs with
    | nil => rfl
    | cons x xs ih =>
      rw [List.flatMap_cons, hfixed x (by simp), ih fun y hy => hfixed y (by simp [hy])]
      rfl

theorem upper_lowerBetween (before behind : Text) {c : Char}
    (h : ∀ x ∈ upperChar c, x.toNat < 128) :
    upper (lowerBetween before c behind) = upperChar c := by
  rw [lowerBetween, if_neg (ne_sigma h)]
  by_cases hc : c.toNat < 128
  · simp [upperChar, lowerChar, hc, upper, (toUpper_twice c).2, (toNat_case_lt hc).2]
  · obtain ⟨ns, -, hcapital⟩ := exists_capital (Nat.not_lt.mp hc) h
    simp only [isCapital, Bool.and_eq_true, beq_iff_eq] at hcapital
    have hlower : lowerChar c = [c] := by
      simp [lowerChar, hc, mapCase, hcapital.1.1.1.2, hcapital.1.1.2]
    simp [hlower, upper]

/-! ## Words -/

theorem upper_upper {w : Text} (h : ∀ x ∈ upper w, x.toNat < 128) : upper (upper w) = upper w := by
  induction w with
  | nil => rfl
  | cons c cs ih =>
    rw [upper_cons] at h ⊢
    simp only [List.forall_mem_append] at h
    rw [upper_append, upper_upperChar h.1, ih h.2]

theorem upper_lowerAfter (before : Text) {w : Text} (h : ∀ x ∈ upper w, x.toNat < 128) :
    upper (lowerAfter before w) = upper w := by
  induction w generalizing before with
  | nil => rfl
  | cons c cs ih =>
    rw [upper_cons] at h ⊢
    simp only [List.forall_mem_append] at h
    rw [lowerAfter_cons, upper_append, upper_lowerBetween before cs h.1, ih (c :: before) h.2]

/-- The case of a style does not change an upper case in ASCII. -/
theorem upper_apply (k : KeywordCase) {w : Text} (h : ∀ x ∈ upper w, x.toNat < 128) :
    upper (k.apply w) = upper w := by
  cases k with
  | upper => exact upper_upper h
  | lower => exact upper_lowerAfter [] h
  | asWritten => rfl

theorem eq_of_upper_head {c : Char} (h : ∀ x ∈ upperChar c, x.toNat < 128)
    (hhead : (upperChar c).head? = some 'E') : c = 'e' ∨ c = 'E' := by
  by_cases hc : c.toNat < 128
  · exact eq_of_toUpper_eq_e (by simpa [upperChar, hc] using hhead)
  · obtain ⟨ns, hns, hcapital⟩ := exists_capital (Nat.not_lt.mp hc) h
    simp only [isCapital, Bool.and_eq_true, bne_iff_ne] at hcapital
    rw [hns] at hhead
    exact absurd hhead hcapital.2

end SqlLayout.Text

namespace SqlLayout.Dialect

theorem narrow_standardWords : ∀ w ∈ standardWords, ∀ c ∈ Text.upper w.toList,
    c.toNat < 128 ∧ c ≠ '.' ∧ c ≠ '*' ∧ c ≠ ' ' := by
  intro w hw c hc
  rw [upper_standardWords hw] at hc
  obtain ⟨hcode, hmarks⟩ := (isCapitals_iff.mp (isCapitals_standardWords w hw)).2 c hc
  exact ⟨by omega, hmarks⟩

/-- The upper case of a word that the standard dialect knows is ASCII. -/
theorem narrow_of_known {x : Text} (h : (standard.classify x).isSome = true) :
    ∀ c ∈ Text.upper x, c.toNat < 128 := by
  obtain ⟨w, hw, hsame⟩ := (isSome_classify_standard x).mp h
  rw [hsame]
  exact fun c hc => (narrow_standardWords w hw c hc).1

/-- A known word is known in the case of a style. -/
theorem classify_apply (k : KeywordCase) {x : Text} (h : (standard.classify x).isSome = true) :
    standard.classify (k.apply x) = standard.classify x := by
  unfold classify
  rw [Text.upper_apply k (narrow_of_known h)]

/-- A word with a dot, a star or a blank in it is not known. -/
theorem classify_of_mem {x : Text} {c : Char} (hc : c ∈ x) (hmark : c = '.' ∨ c = '*' ∨ c = ' ') :
    (standard.classify x).isSome = false := by
  cases hknown : (standard.classify x).isSome with
  | false => rfl
  | true =>
    obtain ⟨w, hw, hsame⟩ := (isSome_classify_standard x).mp hknown
    have hletter : Lexer.isLetter c = false := by rcases hmark with rfl | rfl | rfl <;> decide
    have hupper : c ∈ Text.upper x :=
      List.mem_flatMap.mpr ⟨c, hc, by simp [Text.upperChar_of_not_letter hletter]⟩
    rw [hsame] at hupper
    obtain ⟨-, hdot, hstar, hblank⟩ := narrow_standardWords w hw c hupper
    rcases hmark with rfl | rfl | rfl
    · exact absurd rfl hdot
    · exact absurd rfl hstar
    · exact absurd rfl hblank

/-- A known word starts with `e` in the case of a style only if it does as it was written. -/
theorem head_apply (k : KeywordCase) {x : Text} (h : (standard.classify x).isSome = true)
    {c : Char} (hc : (k.apply x).head? = some c) (he : c = 'e' ∨ c = 'E') :
    ∃ c' ∈ x.head?, c' = 'e' ∨ c' = 'E' := by
  have hnarrow := narrow_of_known h
  obtain ⟨cs, happly⟩ : ∃ cs, k.apply x = c :: cs := by
    cases hx : k.apply x with
    | nil => simp [hx] at hc
    | cons a as =>
      obtain rfl : a = c := by simpa [hx] using hc
      exact ⟨as, rfl⟩
  have hupper : Text.upper x = 'E' :: Text.upper cs := by
    have hfirst : Text.upperChar c = ['E'] := by rcases he with rfl | rfl <;> decide
    rw [← Text.upper_apply k hnarrow, happly, Text.upper_cons, hfirst]
    rfl
  cases x with
  | nil => cases hupper
  | cons a as =>
    rw [Text.upper_cons] at hupper hnarrow
    simp only [List.forall_mem_append] at hnarrow
    have hne : Text.upperChar a ≠ [] := by
      cases hletter : Lexer.isLetter a with
      | true => exact (Text.isLetter_upperChar hletter).1
      | false => simp [Text.upperChar_of_not_letter hletter]
    obtain ⟨y, ys, hy⟩ := List.exists_cons_of_ne_nil hne
    have hhead : (Text.upperChar a).head? = some 'E' := by
      rw [hy, List.cons_append] at hupper
      rw [hy, (List.cons.inj hupper).1]
      rfl
    exact ⟨a, by simp, Text.eq_of_upper_head hnarrow.1 hhead⟩

end SqlLayout.Dialect
