import Mathlib.Data.List.Forall2
import SqlLayout.Proofs.Dialect.Keywords
import SqlLayout.Proofs.Layout.Preservation
import SqlLayout.Proofs.Layout.Total
import SqlLayout.Proofs.Token.Reread
import SqlLayout.Run

/-!
# When a layout fails its check

The check compares what is left of two texts once white space is dropped and every character is
lower-cased on its own.  A layout changes keywords beyond that only where their upper case is written
for characters that have no lower case in ASCII: the check fails exactly when keywords are written in
upper case and one of them has a character beyond ASCII (`formatChecked_error_iff`).
-/

namespace SqlLayout.Equivalence

/-! ## Significant characters -/

theorem firstMismatch_eq_none_iff (n : Nat) (a b : Text) : firstMismatch n a b = none ↔ a = b := by
  fun_induction firstMismatch n a b with
  | case1 n => simp
  | case2 n a as => simp
  | case3 n b bs => simp
  | case4 n as b bs ih => simpa using ih
  | case5 n a as b bs hne => simp [hne]

/-- Texts pass the check exactly when they have the same significant characters. -/
theorem check_eq_none_iff (a b : Text) : check a b = none ↔ significant a = significant b :=
  firstMismatch_eq_none_iff 0 _ _

theorem significant_append (a b : Text) : significant (a ++ b) = significant a ++ significant b := by
  simp [significant]

theorem significant_of_allBlank {a : Text} (h : Text.allBlank a = true) : significant a = [] := by
  simp only [Text.allBlank, List.all_eq_true] at h
  have hnone : a.filter (fun c => !Text.isBlank c) = [] := by
    rw [List.filter_eq_nil_iff]
    intro c hc
    simp [h c hc]
  simp [significant, hnone]

theorem significant_trimEnd (a : Text) : significant (Text.trimEnd a) = significant a := by
  obtain ⟨w, hw, ha⟩ := Text.exists_trimEnd_append a
  have hsame := congrArg significant ha
  rw [significant_append, significant_of_allBlank hw, List.append_nil] at hsame
  exact hsame.symm

/-- Where nothing is blank, nothing is dropped. -/
theorem significant_of_not_blank {a : Text} (h : ∀ c ∈ a, Text.isBlank c = false) :
    significant a = a.flatMap Text.lowerChar := by
  have hall : a.filter (fun c => !Text.isBlank c) = a := by
    rw [List.filter_eq_self]
    intro c hc
    simp [h c hc]
  rw [significant, hall]

/-! ## Keywords -/

/-- Whether the character lies beyond ASCII. -/
def isWide (c : Char) : Bool := 128 ≤ c.toNat

/-- A word that the case of a style keeps a word, with its upper case in ASCII. -/
structure IsPlain (w : Text) : Prop where
  visible : ∀ c ∈ w, Text.isBlank c = false
  narrow : ∀ c ∈ Text.upper w, c.toNat < 128

theorem IsPlain.tail {c : Char} {cs : Text} (h : IsPlain (c :: cs)) : IsPlain cs where
  visible := fun x hx => h.visible x (by simp [hx])
  narrow := fun x hx => h.narrow x (by rw [Text.upper_cons]; simp [hx])

theorem IsPlain.head {c : Char} {cs : Text} (h : IsPlain (c :: cs)) :
    Text.isBlank c = false ∧ ∀ x ∈ Text.upperChar c, x.toNat < 128 :=
  ⟨h.visible c (by simp), fun x hx => h.narrow x (by rw [Text.upper_cons]; simp [hx])⟩

/-- A character beyond ASCII with its upper case in ASCII is its own lower case. -/
theorem lowerChar_of_wide {c : Char} (hc : 128 ≤ c.toNat)
    (h : ∀ x ∈ Text.upperChar c, x.toNat < 128) : Text.lowerChar c = [c] := by
  obtain ⟨ns, -, hcapital⟩ := Text.exists_capital hc h
  simp only [Text.isCapital, Bool.and_eq_true, beq_iff_eq] at hcapital
  simp [Text.lowerChar, Nat.not_lt.mpr hc, Text.mapCase, hcapital.1.1.1.2, hcapital.1.1.2]

/-- Lower-casing twice is lower-casing once. -/
theorem significant_lowerChar {c : Char} (hblank : Text.isBlank c = false)
    (h : ∀ x ∈ Text.upperChar c, x.toNat < 128) :
    significant (Text.lowerChar c) = Text.lowerChar c := by
  by_cases hc : c.toNat < 128
  · have hchar : Text.lowerChar c = [c.toLower] := by simp [Text.lowerChar, hc]
    rw [hchar, significant_of_not_blank (by simp [Text.isBlank_toLower, hblank])]
    simp [Text.lowerChar, (Text.toNat_case_lt hc).2, (Text.toLower_twice c).1]
  · rw [lowerChar_of_wide (Nat.not_lt.mp hc) h, significant_of_not_blank (by simp [hblank])]
    simp [lowerChar_of_wide (Nat.not_lt.mp hc) h]

/-- An ASCII character and its upper case have the same lower case. -/
theorem significant_upperChar {c : Char} (hblank : Text.isBlank c = false) (hc : c.toNat < 128) :
    significant (Text.upperChar c) = Text.lowerChar c := by
  have hchar : Text.upperChar c = [c.toUpper] := by simp [Text.upperChar, hc]
  rw [hchar, significant_of_not_blank (by simp [Text.isBlank_toUpper, hblank])]
  simp [Text.lowerChar, hc, (Text.toNat_case_lt hc).1, (Text.toLower_twice c).2]

theorem significant_lowerAfter (before : Text) {w : Text} (h : IsPlain w) :
    significant (Text.lowerAfter before w) = significant w := by
  induction w generalizing before with
  | nil => rfl
  | cons c cs ih =>
    obtain ⟨hblank, hnarrow⟩ := h.head
    have hcons : significant (c :: cs) = Text.lowerChar c ++ significant cs := by
      rw [← List.singleton_append, significant_append, significant_of_not_blank (by simp [hblank])]
      simp
    rw [Text.lowerAfter_cons, Text.lowerBetween, if_neg (Text.ne_sigma hnarrow), significant_append,
      significant_lowerChar hblank hnarrow, ih (c :: before) h.tail, hcons]

theorem significant_upper {w : Text} (h : IsPlain w) (hw : ∀ c ∈ w, isWide c = false) :
    significant (Text.upper w) = significant w := by
  induction w with
  | nil => rfl
  | cons c cs ih =>
    obtain ⟨hblank, -⟩ := h.head
    have hc : c.toNat < 128 := by simpa [isWide] using hw c (by simp)
    rw [Text.upper_cons, significant_append, significant_upperChar hblank hc,
      ih h.tail fun x hx => hw x (by simp [hx]), ← List.singleton_append, significant_append,
      significant_of_not_blank (a := [c]) (by simp [hblank])]
    simp

/-- The significant characters of a text in ASCII are ASCII. -/
theorem countP_significant_narrow {w : Text} (h : ∀ c ∈ w, c.toNat < 128) :
    (significant w).countP isWide = 0 := by
  rw [List.countP_eq_zero]
  intro x hx
  obtain ⟨c, hc, hx⟩ := List.mem_flatMap.mp hx
  have hnarrow : c.toNat < 128 := h c (List.mem_filter.mp hc).1
  obtain rfl : x = c.toLower := by simpa [Text.lowerChar, hnarrow] using hx
  simpa [isWide] using (Text.toNat_case_lt hnarrow).2

/-- A character beyond ASCII in a keyword is significant. -/
theorem countP_significant_pos {w : Text} (h : IsPlain w) {c : Char} (hc : c ∈ w)
    (hwide : isWide c = true) : 0 < (significant w).countP isWide := by
  have hlarge : 128 ≤ c.toNat := by simpa [isWide] using hwide
  have hnarrow : ∀ x ∈ Text.upperChar c, x.toNat < 128 :=
    fun x hx => h.narrow x (List.mem_flatMap.mpr ⟨c, hc, hx⟩)
  rw [List.countP_pos_iff]
  refine ⟨c, ?_, hwide⟩
  rw [significant_of_not_blank h.visible]
  exact List.mem_flatMap.mpr ⟨c, hc, by simp [lowerChar_of_wide hlarge hnarrow]⟩

/-! ## Tokens and layouts -/

theorem isPlain_of_mem_tokenize {sql : Text} {t : Token} (ht : t ∈ tokenize .standard sql)
    (hkind : t.kind = .keyword) : IsPlain t.text where
  visible := by
    intro c hc
    have hword := (Layout.isWord_of_mem_tokenize t ht hkind).2 c hc
    cases hblank : Text.isBlank c with
    | false => rfl
    | true =>
      rw [(Lexer.not_wordChar_of_isBlank hblank).1] at hword
      cases hword
  narrow := Dialect.narrow_of_known (Layout.classify_of_mem_tokenize t ht hkind)

/-- The keywords of a text that the upper case changes beyond letter case. -/
def WideKeyword (t : Token) : Prop := t.kind = .keyword ∧ ∃ c ∈ t.text, isWide c = true

open Layout

variable {s : Style} {sql : Text} {t t' : Token}

/-- A shown token has the significant characters of the token, unless it is a keyword that the upper
case changes. -/
theorem significant_shown (ht : t ∈ tokenize .standard sql) (h : Shows s t t')
    (hplain : s.keywordCase = .upper → ¬ WideKeyword t) :
    significant t'.text = significant t.text := by
  obtain ⟨text, htext, rfl⟩ := h
  simp only [Token.withText]
  by_cases hkind : t.kind = .keyword
  · have hword := isPlain_of_mem_tokenize ht hkind
    obtain rfl : text = s.keywordCase.apply t.text := by simpa [shownTexts, hkind] using htext
    cases hcase : s.keywordCase with
    | upper =>
      refine significant_upper hword ?_
      intro c hc
      cases hwide : isWide c with
      | false => rfl
      | true => exact absurd ⟨hkind, c, hc, hwide⟩ (hplain hcase)
    | lower => exact significant_lowerAfter [] hword
    | asWritten => rfl
  · simp only [shownTexts, hkind, ↓reduceIte] at htext
    split at htext
    · rcases List.mem_cons.mp htext with rfl | htext
      · rfl
      · rw [List.mem_singleton.mp htext, significant_trimEnd]
    · rw [List.mem_singleton.mp htext]

/-- A keyword in upper case has no character beyond ASCII left. -/
theorem countP_shown_le (ht : t ∈ tokenize .standard sql) (h : Shows s t t')
    (hcase : s.keywordCase = .upper) :
    (significant t'.text).countP isWide ≤ (significant t.text).countP isWide ∧
      (WideKeyword t →
        (significant t'.text).countP isWide < (significant t.text).countP isWide) := by
  have hshown : t.kind = .keyword → (significant t'.text).countP isWide = 0 := by
    intro hkind
    obtain ⟨text, htext, rfl⟩ := h
    obtain rfl : text = Text.upper t.text := by
      simpa [shownTexts, hkind, hcase, KeywordCase.apply] using htext
    exact countP_significant_narrow (isPlain_of_mem_tokenize ht hkind).narrow
  constructor
  · by_cases hkind : t.kind = .keyword
    · rw [hshown hkind]
      exact Nat.zero_le _
    · rw [significant_shown ht h fun _ hwide => hkind hwide.1]
  · rintro ⟨hkind, c, hc, hwide⟩
    rw [hshown hkind]
    exact countP_significant_pos (isPlain_of_mem_tokenize ht hkind) hc hwide

/-- The significant characters of a text are those of its tokens. -/
theorem significant_concat {ts : List Token} (hgaps : Gaps ts) :
    significant (Token.concat ts) = (Token.visible ts).flatMap fun t => significant t.text := by
  induction ts with
  | nil => rfl
  | cons t ts ih =>
    have hrest : Gaps ts := fun x hx => hgaps x (by simp [hx])
    have hcons : Token.concat (t :: ts) = t.text ++ Token.concat ts := rfl
    rw [hcons, significant_append, ih hrest]
    cases hspace : t.isSpace with
    | true => rw [significant_of_allBlank (hgaps t (by simp) hspace).2, visible_cons_space hspace,
        List.nil_append]
    | false => rw [visible_cons hspace, List.flatMap_cons]

/-- The significant characters of pieces are those of their tokens. -/
theorem significant_render {os : List Piece} (hblank : ∀ o ∈ os, Text.allBlank o.gap = true) :
    significant (Piece.render os) = (os.map Piece.token).flatMap fun t => significant t.text := by
  induction os with
  | nil => rfl
  | cons o os ih =>
    rw [Piece.render_cons, significant_append, significant_append,
      significant_of_allBlank (hblank o (by simp)), ih fun p hp => hblank p (by simp [hp])]
    rfl

theorem significant_keepFinalNewline (sql text : Text) :
    significant (keepFinalNewline sql text) = significant text := by
  unfold keepFinalNewline
  split
  · rw [significant_append, significant_of_allBlank (a := ['\n']) (by decide), List.append_nil]
  · rfl

/-- Tokens that keep their significant characters one by one keep them all. -/
theorem flatMap_significant {ts ts' : List Token}
    (h : List.Forall₂ (fun t t' => significant t'.text = significant t.text) ts ts') :
    (ts'.flatMap fun t => significant t.text) = ts.flatMap fun t => significant t.text := by
  induction h with
  | nil => rfl
  | cons hhead _ ih => rw [List.flatMap_cons, List.flatMap_cons, hhead, ih]

/-- One token that loses a character beyond ASCII makes the whole lose one. -/
theorem countP_flatMap_lt {ts ts' : List Token}
    (h : List.Forall₂ (fun t t' =>
      (significant t'.text).countP isWide ≤ (significant t.text).countP isWide ∧
        (WideKeyword t →
          (significant t'.text).countP isWide < (significant t.text).countP isWide)) ts ts') :
    (ts'.flatMap fun t => significant t.text).countP isWide ≤
        (ts.flatMap fun t => significant t.text).countP isWide ∧
      ((∃ t ∈ ts, WideKeyword t) → (ts'.flatMap fun t => significant t.text).countP isWide <
        (ts.flatMap fun t => significant t.text).countP isWide) := by
  induction h with
  | nil => simp
  | cons hhead _ ih =>
    simp only [List.flatMap_cons, List.countP_append, List.exists_mem_cons_iff]
    constructor
    · have := hhead.1
      have := ih.1
      omega
    · rintro (hwide | hwide)
      · have := hhead.2 hwide
        have := ih.1
        omega
      · have := hhead.1
        have := ih.2 hwide
        omega

theorem exists_mem_visible {P : Token → Prop} (hP : ∀ t, P t → t.kind = .keyword)
    {ts : List Token} : (∃ t ∈ Token.visible ts, P t) ↔ ∃ t ∈ ts, P t := by
  constructor
  · rintro ⟨t, ht, hp⟩
    exact ⟨t, (List.mem_filter.mp ht).1, hp⟩
  · rintro ⟨t, ht, hp⟩
    refine ⟨t, List.mem_filter.mpr ⟨ht, ?_⟩, hp⟩
    simp [Token.isSpace, hP t hp]

/-- A layout passes the check exactly when no keyword is written in upper case for characters beyond
ASCII. -/
theorem check_format_eq_none_iff {out : Text} (h : format .standard s sql = some out) :
    check sql out = none ↔
      ¬ (s.keywordCase = .upper ∧ ∃ t ∈ tokenize .standard sql, WideKeyword t) := by
  obtain ⟨ws, ms, fs, harranged, rfl⟩ := exists_arranged h
  have hlaid := harranged.laid
  have hout : significant (keepFinalNewline sql (Token.concat fs)) =
      ((Piece.ofTokens fs).map Piece.token).flatMap fun t => significant t.text := by
    rw [significant_keepFinalNewline, ← harranged.render_eq, significant_render hlaid.blank]
  have hsql : significant sql =
      (Token.visible (tokenize .standard sql)).flatMap fun t => significant t.text := by
    have hconcat : Token.concat (tokenize .standard sql) = sql := Lexer.concat_tokenizeFrom _ 0 sql
    rw [← significant_concat (gaps_tokenize _ sql), hconcat]
  have hmem : ∀ t ∈ Token.visible (tokenize .standard sql), t ∈ tokenize .standard sql :=
    fun t ht => (List.mem_filter.mp ht).1
  have hshows := (List.forall₂_and_left _ _).mpr ⟨hmem, hlaid.shows⟩
  rw [check_eq_none_iff, hout, hsql]
  constructor
  · rintro hsame ⟨hcase, hwide⟩
    have hcount := countP_flatMap_lt (hshows.imp fun t t' h => countP_shown_le h.1 h.2 hcase)
    have hlt := hcount.2 ((exists_mem_visible fun t ht => ht.1).mpr hwide)
    rw [hsame] at hlt
    exact Nat.lt_irrefl _ hlt
  · intro hnone
    refine (flatMap_significant ?_).symm
    refine hshows.imp fun t t' h => significant_shown h.1 h.2 ?_
    exact fun hcase hwide => hnone ⟨hcase, t, h.1, hwide⟩

end SqlLayout.Equivalence

namespace SqlLayout

/-- When a mode's delimiter starts no line comment, laying out a text fails exactly when the mode
checks the result, writes keywords in upper case and a keyword of the text has a character beyond
ASCII, and then for want of equivalence; otherwise the result is the layout itself. -/
theorem formatChecked_error_iff (mode : Mode)
    (hs : Dialect.isLineComment mode.style.delimiter = false) (sql : Text) :
    ((∃ mismatch, formatChecked mode sql = .error (.notEquivalent mismatch)) ↔
      mode.checksEquivalence = true ∧ mode.style.keywordCase = .upper ∧
        ∃ t ∈ tokenize .standard sql, t.kind = .keyword ∧ ∃ c ∈ t.text, 128 ≤ c.toNat) ∧
    ((∀ mismatch, formatChecked mode sql ≠ .error (.notEquivalent mismatch)) →
      ∃ out, format .standard mode.style sql = some out ∧ formatChecked mode sql = .ok out) := by
  obtain ⟨out, hout⟩ := exists_format .standard hs sql
  have hcheck := Equivalence.check_format_eq_none_iff hout
  have hwide : (∃ t ∈ tokenize .standard sql, Equivalence.WideKeyword t) ↔
      ∃ t ∈ tokenize .standard sql, t.kind = .keyword ∧ ∃ c ∈ t.text, 128 ≤ c.toNat := by
    simp [Equivalence.WideKeyword, Equivalence.isWide]
  rw [hwide] at hcheck
  simp only [formatChecked, hout]
  by_cases hasks : mode.checksEquivalence = true
  · simp only [hasks, ↓reduceIte, true_and]
    cases hmismatch : Equivalence.check sql out with
    | none =>
      refine ⟨?_, fun _ => ⟨out, rfl, rfl⟩⟩
      simpa using hcheck.mp hmismatch
    | some mismatch =>
      rw [hmismatch] at hcheck
      constructor
      · simpa using hcheck
      · simp
  · simp [hasks]

/-- A known word on its own is one keyword. -/
theorem tokenize_of_known {w : Text} (hword : Text.IsWord w)
    (hknown : (Dialect.standard.classify w).isSome = true) :
    tokenize .standard w = [⟨.keyword, w, 0⟩] := by
  have hstops : ∀ c ∈ ([] : Text).head?, Lexer.stops w c = true := by simp
  have hread := Lexer.tokenizeFrom_word hword hstops 0
  rw [List.append_nil, Lexer.wordKind, hknown, Lexer.tokenizeFrom] at hread
  exact hread

/-- A keyword with a long s is written with an ordinary S. -/
theorem formatChecked_error_iff_long_s :
    Dialect.isLineComment (default : Style).delimiter = false ∧
      ∃ mismatch, formatChecked {} "ſelect".toList = .error (.notEquivalent mismatch) := by
  have hword : Text.IsWord "ſelect".toList := ⟨⟨'ſ', by decide, by decide⟩, by decide⟩
  have hknown : (Dialect.standard.classify "ſelect".toList).isSome = true :=
    (Dialect.isSome_classify_standard _).mpr ⟨"SELECT", by decide +kernel, by decide +kernel⟩
  refine ⟨by decide, (formatChecked_error_iff {} (by decide) _).1.mpr ⟨rfl, rfl, ?_⟩⟩
  rw [tokenize_of_known hword hknown]
  exact ⟨_, List.mem_singleton_self _, rfl, 'ſ', by decide, by decide⟩

end SqlLayout
