import SqlLayout.Proofs.Layout.Fill
import SqlLayout.Proofs.Token.Tokens

/-!
# A layout keeps its tokens

The text of a layout is the text of its tokens, in order, with white space between them
(`exists_laid_of_format`).  Keywords are in the case of the style, a line comment may have lost the
white space at its end, and every other token is written as it was read.
-/

namespace SqlLayout.Layout

/-- The texts that a layout may write for a token. -/
def shownTexts (s : Style) (t : Token) : List Text :=
  if t.kind = .keyword then [s.keywordCase.apply t.text]
  else if isLineComment t then [t.text, Text.trimEnd t.text]
  else [t.text]

/-- A token as a layout may show it. -/
def Shows (s : Style) (t t' : Token) : Prop := ∃ text ∈ shownTexts s t, t' = t.withText text

instance (s : Style) (t t' : Token) : Decidable (Shows s t t') :=
  inferInstanceAs (Decidable (∃ text ∈ shownTexts s t, t' = t.withText text))

/-- The pieces `os` lay out the tokens `ts`: they show the tokens that are not white space, in
order, with nothing but white space between them and nothing in front of the first. -/
structure Laid (s : Style) (ts : List Token) (os : List Piece) : Prop where
  shows : List.Forall₂ (Shows s) (Token.visible ts) (os.map Piece.token)
  blank : ∀ o ∈ os, Text.allBlank o.gap = true
  first : ∀ o ∈ os.head?, o.gap = []

instance (s : Style) (ts : List Token) (os : List Piece) : Decidable (Laid s ts os) :=
  decidable_of_iff (List.Forall₂ (Shows s) (Token.visible ts) (os.map Piece.token) ∧
      (∀ o ∈ os, Text.allBlank o.gap = true) ∧ ∀ o ∈ os.head?, o.gap = [])
    ⟨fun h => ⟨h.1, h.2.1, h.2.2⟩, fun h => ⟨h.shows, h.blank, h.first⟩⟩

/-! ## White space at the ends -/

theorem exists_dropLeadingSpace (ts : List Token) :
    ∃ front, ts = front ++ dropLeadingSpace ts ∧ ∀ t ∈ front, t.isSpace = true := by
  cases ts with
  | nil => exact ⟨[], rfl, by simp⟩
  | cons t ts =>
    cases hspace : t.isSpace with
    | true => exact ⟨[t], by simp [dropLeadingSpace, hspace], by simp [hspace]⟩
    | false => exact ⟨[], by simp [dropLeadingSpace, hspace], by simp⟩

theorem exists_dropTrailingSpace (ts : List Token) :
    ∃ back, ts = dropTrailingSpace ts ++ back ∧ ∀ t ∈ back, t.isSpace = true := by
  unfold dropTrailingSpace
  split
  · next hlast =>
    obtain ⟨last, hsome, hspace⟩ : ∃ t, ts.getLast? = some t ∧ t.isSpace = true := by
      simpa [Option.any_eq_true] using hlast
    exact ⟨[last], (List.dropLast_append_getLast? last hsome).symm, by simp [hspace]⟩
  · exact ⟨[], by simp, by simp⟩

/-- Trimming cuts white space off both ends. -/
theorem exists_trimEdges (ts : List Token) :
    ∃ front back, ts = front ++ trimEdges ts ++ back ∧
      (∀ t ∈ front, t.isSpace = true) ∧ ∀ t ∈ back, t.isSpace = true := by
  obtain ⟨front, hfront, hfront'⟩ := exists_dropLeadingSpace ts
  obtain ⟨back, hback, hback'⟩ := exists_dropTrailingSpace (dropLeadingSpace ts)
  refine ⟨front, back, ?_, hfront', hback'⟩
  rw [List.append_assoc]
  exact hfront.trans (congrArg (front ++ ·) hback)

theorem visible_of_forall_isSpace {ts : List Token} (h : ∀ t ∈ ts, t.isSpace = true) :
    Token.visible ts = [] := by
  simpa [Token.visible] using h

theorem visible_trimEdges (ts : List Token) : Token.visible (trimEdges ts) = Token.visible ts := by
  obtain ⟨front, back, hts, hfront, hback⟩ := exists_trimEdges ts
  have hvisible := congrArg Token.visible hts
  rw [visible_append, visible_append, visible_of_forall_isSpace hfront,
    visible_of_forall_isSpace hback, List.nil_append, List.append_nil] at hvisible
  exact hvisible.symm

theorem mem_of_mem_trimEdges {ts : List Token} {t : Token} (h : t ∈ trimEdges ts) : t ∈ ts := by
  obtain ⟨front, back, hts, -, -⟩ := exists_trimEdges ts
  rw [hts]
  simp [h]

theorem isChain_trimEdges {R : Token → Token → Prop} {ts : List Token} (h : ts.IsChain R) :
    (trimEdges ts).IsChain R := by
  obtain ⟨front, back, hts, -, -⟩ := exists_trimEdges ts
  rw [hts] at h
  exact h.left_of_append.right_of_append

theorem isSpace_head?_dropLeadingSpace {ts : List Token} (hts : Spaced ts) :
    ∀ t ∈ (dropLeadingSpace ts).head?, t.isSpace = false := by
  cases ts with
  | nil => simp [dropLeadingSpace]
  | cons t ts =>
    cases hspace : t.isSpace with
    | true =>
      have htail : dropLeadingSpace (t :: ts) = ts := by simp [dropLeadingSpace, hspace]
      rw [htail]
      exact fun n hn => (List.isChain_cons.mp hts).1 n hn hspace
    | false => simp [dropLeadingSpace, hspace]

/-- Tokens without two white space tokens in a row have none at the ends once trimmed. -/
theorem framed_trimEdges {ts : List Token} (hts : Spaced ts) : Framed (trimEdges ts) := by
  have hhead := isSpace_head?_dropLeadingSpace hts
  have hspaced : Spaced (dropLeadingSpace ts) := by
    obtain ⟨front, hfront, -⟩ := exists_dropLeadingSpace ts
    rw [hfront] at hts
    exact hts.right_of_append
  unfold trimEdges
  generalize dropLeadingSpace ts = us at hhead hspaced
  unfold dropTrailingSpace
  split
  · next hlast =>
    obtain ⟨last, hsome, hspace⟩ : ∃ t, us.getLast? = some t ∧ t.isSpace = true := by
      simpa [Option.any_eq_true] using hlast
    obtain ⟨front, rfl⟩ : ∃ front, us = front ++ [last] := ⟨_, (List.dropLast_append_getLast? last hsome).symm⟩
    rw [List.dropLast_concat]
    constructor
    · cases front with
      | nil => simp
      | cons a as => simpa using hhead
    · intro t ht
      have hjoin := (List.isChain_append.mp hspaced).2.2 t ht last (by simp)
      cases hvisible : t.isSpace with
      | false => rfl
      | true =>
        rw [hjoin hvisible] at hspace
        cases hspace
  · next hlast =>
    refine ⟨hhead, ?_⟩
    intro t ht
    cases hspace : t.isSpace with
    | false => rfl
    | true =>
      have hsome : us.getLast? = some t := ht
      simp [hsome, hspace] at hlast

/-! ## Keywords in the case of the style -/

/-- A token with its keyword case applied. -/
def recase (s : Style) (t : Token) : Token :=
  if t.kind = .keyword then t.withText (s.keywordCase.apply t.text) else t

theorem applyKeywordCase_eq (s : Style) (ts : List Token) :
    applyKeywordCase s ts = ts.map (recase s) := rfl

theorem kind_recase (s : Style) (t : Token) : (recase s t).kind = t.kind := by
  unfold recase
  split <;> rfl

theorem text_recase {s : Style} {t : Token} (h : t.kind = .keyword) :
    (recase s t).text = s.keywordCase.apply t.text := by
  simp [recase, h, Token.withText]

theorem isSpace_recase (s : Style) (t : Token) : (recase s t).isSpace = t.isSpace := by
  simp [Token.isSpace, kind_recase]

theorem recase_of_kind_ne {t : Token} (s : Style) (h : t.kind ≠ .keyword) : recase s t = t := by
  simp [recase, h]

theorem visible_applyKeywordCase (s : Style) (ts : List Token) :
    Token.visible (applyKeywordCase s ts) = (Token.visible ts).map (recase s) := by
  rw [applyKeywordCase_eq]
  simp [Token.visible, List.filter_map, Function.comp_def, isSpace_recase]

theorem spaced_applyKeywordCase {s : Style} {ts : List Token} (h : Spaced ts) :
    Spaced (applyKeywordCase s ts) := by
  rw [applyKeywordCase_eq]
  simpa [Spaced, List.isChain_map, isSpace_recase] using h

theorem framed_applyKeywordCase {s : Style} {ts : List Token} (h : Framed ts) :
    Framed (applyKeywordCase s ts) := by
  rw [applyKeywordCase_eq]
  simpa [Framed, isSpace_recase] using h

theorem shows_of_settles {s : Style} {t t' : Token} (h : Settles (recase s t) t') :
    Shows s t t' := by
  unfold Shows shownTexts
  by_cases hkeyword : t.kind = .keyword
  · have hrecase : recase s t = t.withText (s.keywordCase.apply t.text) := by
      simp [recase, hkeyword]
    have hsettle : settle (recase s t) = recase s t :=
      settle_of_kind_ne (by simp [kind_recase, hkeyword])
    refine ⟨s.keywordCase.apply t.text, by simp [hkeyword], ?_⟩
    rcases h with rfl | rfl
    · exact hrecase
    · exact hsettle.trans hrecase
  · rw [recase_of_kind_ne s hkeyword] at h
    by_cases hcomment : isLineComment t = true
    · rcases h with rfl | rfl
      · exact ⟨t'.text, by simp [hkeyword, hcomment], rfl⟩
      · exact ⟨Text.trimEnd t.text, by simp [hkeyword, hcomment], by simp [settle, hcomment]⟩
    · have hsettle : settle t = t := by simp [settle, hcomment]
      refine ⟨t.text, by simp [hkeyword, hcomment], ?_⟩
      rcases h with rfl | rfl
      · rfl
      · exact hsettle

/-- Whether a text starts with a character that is not white space. -/
def startsVisibly (text : Text) : Bool := text.head?.any fun c => !Text.isBlank c

theorem allBlank_of_startsVisibly {text : Text} (h : startsVisibly text = true) :
    Text.allBlank text = false := by
  obtain ⟨c, hc, hblank⟩ : ∃ c, text.head? = some c ∧ Text.isBlank c = false := by
    simpa [startsVisibly, Option.any_eq_true] using h
  exact Text.allBlank_of_head hc hblank

/-- A token of a text, in the case of the style, starts with a visible character. -/
theorem startsVisibly_recase {d : Dialect} (s : Style) {sql : Text} {t : Token}
    (ht : t ∈ tokenize d sql) (hvisible : t.isSpace = false) :
    startsVisibly (recase s t).text = true := by
  by_cases hkeyword : t.kind = .keyword
  · have hword := Text.isWord_apply s.keywordCase (isWord_of_mem_tokenize t ht hkeyword)
    obtain ⟨c, cs, hcs, -, hblank⟩ := hword.exists_head
    simp [recase, hkeyword, Token.withText, startsVisibly, hcs, hblank]
  · rw [recase_of_kind_ne s hkeyword]
    obtain ⟨c, hc, hblank⟩ := exists_head_of_mem_tokenize t ht
    simp [startsVisibly, hc, hblank, hvisible]

/-! ## The passes together -/

/-- The tokens that the layout starts from: no white space at the ends, keywords in their case. -/
def prepared (s : Style) (ts : List Token) : List Token := applyKeywordCase s (trimEdges ts)

theorem mem_prepared {s : Style} {ts : List Token} {t : Token} (h : t ∈ prepared s ts) :
    ∃ t' ∈ ts, t = recase s t' := by
  rw [prepared, applyKeywordCase_eq] at h
  obtain ⟨t', ht', rfl⟩ := List.mem_map.mp h
  exact ⟨t', mem_of_mem_trimEdges ht', rfl⟩

theorem visible_prepared (s : Style) (ts : List Token) :
    Token.visible (prepared s ts) = (Token.visible ts).map (recase s) := by
  rw [prepared, visible_applyKeywordCase, visible_trimEdges]

theorem solid_prepared (d : Dialect) (s : Style) (sql : Text) :
    Solid (prepared s (tokenize d sql)) := by
  intro t ht hvisible
  obtain ⟨t', ht', rfl⟩ := mem_prepared ht
  rw [isSpace_recase] at hvisible
  exact allBlank_of_startsVisibly (startsVisibly_recase s ht' hvisible)

theorem gaps_prepared (d : Dialect) (s : Style) (sql : Text) :
    Gaps (prepared s (tokenize d sql)) := by
  intro t ht hspace
  obtain ⟨t', ht', rfl⟩ := mem_prepared ht
  rw [isSpace_recase] at hspace
  have hkind : t'.kind = .space := by simpa [Token.isSpace] using hspace
  rw [recase_of_kind_ne s (by simp [hkind])]
  exact gaps_tokenize d sql t' ht' hspace

theorem spaced_prepared (d : Dialect) (s : Style) (sql : Text) :
    Spaced (prepared s (tokenize d sql)) :=
  spaced_applyKeywordCase (isChain_trimEdges (spaced_tokenize d sql))

theorem framed_prepared (d : Dialect) (s : Style) (sql : Text) :
    Framed (prepared s (tokenize d sql)) :=
  framed_applyKeywordCase (framed_trimEdges (spaced_tokenize d sql))

theorem edits_collapse_prepared (d : Dialect) (s : Style) (sql : Text) :
    Edits s (prepared s (tokenize d sql)) (collapse (prepared s (tokenize d sql))) :=
  edits_collapse (spaced_prepared d s sql) (framed_prepared d s sql).1

theorem spells_normalize (s : Style) (ts : List Token) :
    Spells Compound (collapse (prepared s ts)) (normalize s ts) :=
  spells_glueCompounds _ (text_of_mem_collapseAfter false _)

theorem gaps_normalize (d : Dialect) (s : Style) (sql : Text) :
    Gaps (normalize s (tokenize d sql)) :=
  (spells_normalize s _).gaps
    ((edits_collapse_prepared d s sql).preserves Edit.gaps (gaps_prepared d s sql))

/-- The passes behind the walk, followed back to the tokens that the layout started from. -/
structure Arranged (d : Dialect) (s : Style) (sql : Text) (ws ms fs : List Token) : Prop where
  walked : breakLines d s (normalize s (tokenize d sql)) = some ws
  filled : Filled ws ms
  spells : Spells Compound fs ms
  edits : Edits s (prepared s (tokenize d sql)) fs

/-- A layout arranges its tokens, and its text is theirs. -/
theorem exists_arranged {d : Dialect} {s : Style} {sql out : Text}
    (h : format d s sql = some out) :
    ∃ ws ms fs, Arranged d s sql ws ms fs ∧ out = keepFinalNewline sql (Token.concat fs) := by
  obtain ⟨ws, hws, rfl⟩ : ∃ ws, breakLines d s (normalize s (tokenize d sql)) = some ws ∧
      keepFinalNewline sql (Token.concat (insertGaps s (compact ws))) = out := by
    simpa [format, arrange] using h
  have hcollapse := edits_collapse_prepared d s sql
  have hspells := spells_normalize s (tokenize d sql)
  have hsolid : Solid ws := by
    refine (Walk.edits_run hws).preserves Edit.solid ?_
    refine hspells.solid (fun _ _ => Compound.concat) (fun _ _ => Compound.exists_first) ?_
    exact hcollapse.preserves Edit.solid (solid_prepared d s sql)
  have hgaps : Gaps ws := (Walk.edits_run hws).preserves Edit.gaps (gaps_normalize d s sql)
  obtain ⟨ms, hfilled, hjoined⟩ := exists_filled s ws hgaps hsolid
  obtain ⟨fs, hfs, hspells'⟩ := hspells.edits ((Walk.edits_run hws).trans hfilled.edits)
  refine ⟨ws, ms, fs, ⟨hws, hfilled, hspells', hcollapse.trans hfs⟩, ?_⟩
  rw [hspells'.concat fun _ _ => Compound.concat, hjoined.concat fun _ _ => Bracketed.concat]

namespace Arranged

variable {d : Dialect} {s : Style} {sql : Text} {ws ms fs : List Token}

theorem framed (h : Arranged d s sql ws ms fs) : Framed fs :=
  h.edits.preserves Edit.framed (framed_prepared d s sql)

theorem gaps (h : Arranged d s sql ws ms fs) : Gaps fs :=
  h.edits.preserves Edit.gaps (gaps_prepared d s sql)

/-- The pieces of the arranged tokens lay out the tokens of the text. -/
theorem laid (h : Arranged d s sql ws ms fs) :
    Laid s (tokenize d sql) (Piece.ofTokens fs) where
  shows := by
    have hvisible := h.edits.visible
    rw [visible_prepared, List.forall₂_map_left_iff] at hvisible
    rw [Piece.ofTokens, Piece.map_token_ofTokensAfter]
    exact hvisible.imp fun t t' => shows_of_settles
  blank := Piece.allBlank_gap [] fs rfl fun t ht hspace => (h.gaps t ht hspace).2
  first := Piece.head?_gap fs h.framed.1

theorem render_eq (h : Arranged d s sql ws ms fs) :
    Piece.render (Piece.ofTokens fs) = Token.concat fs :=
  Piece.render_ofTokens fs h.framed.2

end Arranged

/-- A layout changes nothing but white space and the case of keywords: its text is the tokens of the
input in order, each as the style shows it, with white space between them, and a line feed at the
end when the input has one there and the last token does not. -/
theorem exists_laid_of_format (d : Dialect) (s : Style) (sql out : Text)
    (h : format d s sql = some out) :
    ∃ os, Laid s (tokenize d sql) os ∧
      out = Piece.render os ++
        if Text.endsWith sql '\n' = true ∧ Text.endsWith (Piece.render os) '\n' = false then ['\n']
        else [] := by
  obtain ⟨ws, ms, fs, harranged, rfl⟩ := exists_arranged h
  refine ⟨Piece.ofTokens fs, harranged.laid, ?_⟩
  rw [harranged.render_eq, keepFinalNewline]
  cases Text.endsWith sql '\n' <;> cases Text.endsWith (Token.concat fs) '\n' <;> simp

/-- The white space inside a quoted value stays, the one behind a comment goes. -/
theorem exists_laid_of_format_comment :
    ∃ os, Laid .default (tokenize .standard "1,\n-- c \n'a  B'\n".toList) os ∧
      "1, -- c\n'a  B'\n".toList = Piece.render os ++
        if Text.endsWith "1,\n-- c \n'a  B'\n".toList '\n' = true ∧
          Text.endsWith (Piece.render os) '\n' = false then ['\n'] else [] :=
  exists_laid_of_format .standard .default _ _ (by decide +kernel)

end SqlLayout.Layout
