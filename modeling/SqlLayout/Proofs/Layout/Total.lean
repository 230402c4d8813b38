import SqlLayout.Layout
import SqlLayout.Proofs.Layout.Walked

/-!
# Every text has a layout

The walk runs past its last token only where closing a line comment meets a comment that has shrunk
to the delimiter.  A delimiter that does not start a line comment rules that out (`exists_format`),
under every dialect.
-/

namespace SqlLayout.Layout

/-- Lower case keeps hyphens, and makes none. -/
theorem isLineComment_asciiLower (text : Text) :
    Dialect.isLineComment (Text.asciiLower text) = Dialect.isLineComment text := by
  rw [Bool.eq_iff_iff, isLineComment_iff, isLineComment_iff]
  constructor
  · rintro ⟨cs, hcs⟩
    obtain ⟨x, xs, rfl, hx, hxs⟩ := List.map_eq_cons_iff.mp hcs
    obtain ⟨y, ys, rfl, hy, -⟩ := List.map_eq_cons_iff.mp hxs
    exact ⟨ys, by rw [toLower_eq_mark (.inr (.inl rfl)) hx, toLower_eq_mark (.inr (.inl rfl)) hy]⟩
  · rintro ⟨cs, rfl⟩
    exact ⟨Text.asciiLower cs, rfl⟩

/-- What is taken for the delimiter starts a line comment if the delimiter does. -/
theorem isLineComment_of_isDelimiter {s : Style} {text : Text} (h : s.isDelimiter text = true) :
    Dialect.isLineComment text = Dialect.isLineComment s.delimiter := by
  have hlower : Text.asciiLower text = Text.asciiLower s.delimiter := by
    simpa [Style.isDelimiter, Text.sameAsciiCase] using h
  rw [← isLineComment_asciiLower, hlower, isLineComment_asciiLower]

/-- A line comment is the delimiter only if the delimiter starts one. -/
theorem isDelimiter_comment {s : Style} (hs : Dialect.isLineComment s.delimiter = false) {text : Text}
    (h : Dialect.isLineComment text = true) : s.isDelimiter text = false := by
  cases hdelimiter : s.isDelimiter text with
  | false => rfl
  | true =>
    rw [isLineComment_of_isDelimiter hdelimiter, hs] at h
    cases h

/-- Trimming a line comment does not make it the delimiter. -/
theorem isDelimiter_settle_eq_false {s : Style} (hs : Dialect.isLineComment s.delimiter = false)
    {t : Token} (h : s.isDelimiter t.text = false) : s.isDelimiter (settle t).text = false := by
  by_cases hline : isLineComment t = true
  · have htext := isLineComment_text hline
    rw [settle, if_pos hline]
    exact isDelimiter_comment hs (isLineComment_trimEnd htext)
  · simpa [settle, hline] using h

namespace Walk

variable {d : Dialect} {s : Style}

/-- A break in front of a token that is no delimiter leaves the cursor at it. -/
theorem after_ne_nil_breakHere (level : Int) {w : Walk} {t : Token} {ts : List Token}
    (hafter : w.cursor.after = t :: ts) (hspace : t.isSpace = false)
    (ht : s.isDelimiter t.text = false) (ht' : s.isDelimiter (settle t).text = false) :
    (w.breakHere s level).cursor.after ≠ [] := by
  unfold breakHere
  split
  · simp [hafter]
  · obtain ⟨⟨before, after⟩, _⟩ := w
    obtain rfl : after = t :: ts := hafter
    cases before with
    | nil => simp [Cursor.breakHere, hspace, ht]
    | cons p ps =>
      simp only [Cursor.breakHere, isSpace_settle, hspace, ht']
      cases p.isSpace <;> simp

theorem after_ne_nil_closeLineComment (hs : Dialect.isLineComment s.delimiter = false) {w : Walk}
    (h : w.cursor.after ≠ []) : (w.closeLineComment s).cursor.after ≠ [] := by
  unfold closeLineComment
  split
  · next hopen =>
    unfold followsOpenLineComment at hopen
    split at hopen
    · next p ps t ts hbefore hafter =>
      simp only [Bool.and_eq_true, Bool.not_eq_true'] at hopen
      exact after_ne_nil_breakHere w.level hafter hopen.1.2 hopen.2
        (isDelimiter_settle_eq_false hs hopen.2)
    · cases hopen
  · exact h

/-- A visit has a result while there is a token to visit. -/
theorem exists_visit (hs : Dialect.isLineComment s.delimiter = false) {w : Walk}
    (h : w.cursor.after ≠ []) : ∃ w', w.visit d s = some w' := by
  obtain ⟨t, ts, hafter⟩ := List.exists_cons_of_ne_nil (after_ne_nil_closeLineComment hs h)
  simp [visit, hafter]

/-- The walk has a result when the delimiter starts no line comment. -/
theorem exists_run_of_delimiter (hs : Dialect.isLineComment s.delimiter = false) (w : Walk) :
    ∃ ts, w.run d s = some ts := by
  fun_induction run d s w with
  | case1 w hdone => exact ⟨_, rfl⟩
  | case2 w hmore hvisit =>
    obtain ⟨w', hw'⟩ := exists_visit (d := d) hs (w := w) (by simpa using hmore)
    rw [hvisit] at hw'
    cases hw'
  | case3 w hmore w' hvisit ih => exact ih

end Walk

end SqlLayout.Layout

namespace SqlLayout

/-- Every text has a layout when the delimiter starts no line comment. -/
theorem exists_format (d : Dialect) {s : Style} (hs : Dialect.isLineComment s.delimiter = false)
    (sql : Text) : ∃ out, format d s sql = some out := by
  obtain ⟨ts, hts⟩ := Layout.Walk.exists_run_of_delimiter (d := d) hs
    (Layout.Walk.start (Layout.normalize s (tokenize d sql)))
  simp [format, Layout.arrange, Layout.breakLines, hts]

end SqlLayout
