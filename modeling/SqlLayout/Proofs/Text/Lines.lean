import SqlLayout.Text.Basic

/-!
# The lines of a text

A line feed ends a line, and takes a carriage return in front of it along.  So the lines of a text can
be taken off one by one (`lines_feed`), and a text is cut between its lines behind any line feed
(`lines_append`).  `LineAt` says where a line stands; every line of a text stands somewhere
(`exists_lineAt`).
-/

namespace SqlLayout.Text

/-- A line without the carriage return that belongs to its line feed. -/
def dropReturn (line : Text) : Text := if endsWith line '\r' then line.dropLast else line

/-- What may stand behind a line: nothing, or a line end and more. -/
inductive EndsAt (line : Text) : Text → Prop
  | nothing : EndsAt line []
  | feed (rest : Text) (bare : endsWith line '\r' = false) : EndsAt line ('\n' :: rest)
  | returnFeed (rest : Text) : EndsAt line ('\r' :: '\n' :: rest)

/-- A line between what stands before it and what stands behind it. -/
structure LineAt (before line after : Text) : Prop where
  starts : before = [] ∨ endsWith before '\n' = true
  one : '\n' ∉ line
  ends : EndsAt line after

variable {line s : Text}

/-! ## Cutting at a line feed -/

theorem cutAfterNewline_of_not_mem (h : '\n' ∉ line) : cutAfterNewline line = (line, []) := by
  induction line with
  | nil => rfl
  | cons c cs ih =>
    obtain ⟨hc, hcs⟩ := not_or.mp (mt List.mem_cons.mpr h)
    rw [cutAfterNewline, if_neg (Ne.symm hc), ih hcs]

theorem cutAfterNewline_feed (h : '\n' ∉ line) (rest : Text) :
    cutAfterNewline (line ++ '\n' :: rest) = (line ++ ['\n'], rest) := by
  induction line with
  | nil => rfl
  | cons c cs ih =>
    obtain ⟨hc, hcs⟩ := not_or.mp (mt List.mem_cons.mpr h)
    rw [List.cons_append, cutAfterNewline, if_neg (Ne.symm hc), ih hcs, List.cons_append]

theorem linesKeepingEnds_of_ne_nil (h : s ≠ []) :
    linesKeepingEnds s = (cutAfterNewline s).1 :: linesKeepingEnds (cutAfterNewline s).2 := by
  cases s with
  | nil => exact absurd rfl h
  | cons c cs => rw [linesKeepingEnds]

/-! ## Line by line -/

theorem dropLineEnd_of_not_mem (h : '\n' ∉ line) : dropLineEnd line = line := by
  unfold dropLineEnd
  split
  · next cs hline => exact absurd (List.mem_reverse.mp (hline ▸ List.mem_cons_self)) h
  · next cs _ hline => exact absurd (List.mem_reverse.mp (hline ▸ List.mem_cons_self)) h
  · rfl

theorem dropLineEnd_feed (line : Text) : dropLineEnd (line ++ ['\n']) = dropReturn line := by
  obtain rfl | ⟨front, c, rfl⟩ := List.eq_nil_or_concat line
  · rfl
  · by_cases hc : c = '\r' <;> simp [dropLineEnd, dropReturn, endsWith, hc]

theorem lines_nil : lines [] = [] := by
  rw [lines, linesKeepingEnds, List.map_nil]

theorem lines_of_not_mem (h : '\n' ∉ line) (hne : line ≠ []) : lines line = [line] := by
  rw [lines, linesKeepingEnds_of_ne_nil hne, cutAfterNewline_of_not_mem h, linesKeepingEnds,
    List.map_singleton, dropLineEnd_of_not_mem h]

/-- The first line goes up to the first line feed. -/
theorem lines_feed (h : '\n' ∉ line) (rest : Text) :
    lines (line ++ '\n' :: rest) = dropReturn line :: lines rest := by
  rw [lines, linesKeepingEnds_of_ne_nil (by simp), cutAfterNewline_feed h, List.map_cons,
    dropLineEnd_feed, lines]

theorem mem_of_endsWith {c : Char} (h : endsWith s c = true) : c ∈ s :=
  List.mem_of_getLast? (by simpa [endsWith] using h)

/-- A line feed is followed by the start of a line. -/
theorem starts_cons_iff {rest : Text} : rest = [] ∨ endsWith rest '\n' = true ↔
    endsWith (line ++ '\n' :: rest) '\n' = true := by
  cases rest <;> simp [endsWith]

/-- No line goes on behind a line feed. -/
theorem lines_append {before : Text} (h : before = [] ∨ endsWith before '\n' = true) (rest : Text) :
    lines (before ++ rest) = lines before ++ lines rest := by
  rcases h with rfl | hfeed
  · rw [lines_nil, List.nil_append, List.nil_append]
  · obtain ⟨line, more, rfl, hline⟩ := List.eq_append_cons_of_mem (mem_of_endsWith hfeed)
    have ih := lines_append (starts_cons_iff.mpr hfeed) rest
    rw [List.append_assoc, List.cons_append, lines_feed hline, lines_feed hline, ih,
      List.cons_append]
termination_by before.length
decreasing_by simp_all; omega

/-! ## Where a line stands -/

theorem dropReturn_of_not_endsWith (h : endsWith line '\r' = false) : dropReturn line = line := by
  rw [dropReturn, h]
  rfl

theorem dropReturn_concat (line : Text) : dropReturn (line ++ ['\r']) = line := by
  simp [dropReturn, endsWith]

theorem dropReturn_isPrefix (line : Text) : dropReturn line <+: line := by
  unfold dropReturn
  split
  · exact List.dropLast_prefix line
  · exact List.prefix_rfl

theorem endsWith_append {b : Text} (hb : b ≠ []) (a : Text) (c : Char) :
    endsWith (a ++ b) c = endsWith b c := by
  obtain ⟨last, hlast⟩ := Option.ne_none_iff_exists'.mp (mt List.getLast?_eq_none_iff.mp hb)
  rw [endsWith, endsWith, List.getLast?_append, hlast]
  rfl

/-- What may stand behind a line may stand behind each end of it. -/
theorem EndsAt.of_append {a b after : Text} (h : EndsAt (a ++ b) after) : EndsAt b after := by
  cases h with
  | nothing => exact .nothing
  | feed rest bare =>
    refine .feed rest ?_
    by_cases hb : b = []
    · rw [hb]
      rfl
    · rwa [endsWith_append hb] at bare
  | returnFeed rest => exact .returnFeed rest

theorem EndsAt.append {b after : Text} (h : EndsAt b after) (hb : b ≠ []) (a : Text) :
    EndsAt (a ++ b) after := by
  cases h with
  | nothing => exact .nothing
  | feed rest bare => exact .feed rest (by rwa [endsWith_append hb])
  | returnFeed rest => exact .returnFeed rest

/-- Every line of a text stands somewhere in it, behind the lines before it. -/
theorem exists_lineAt {text : Text} {i : Nat} (h : (lines text)[i]? = some line) :
    ∃ before after, text = before ++ line ++ after ∧ (lines before).length = i ∧
      LineAt before line after := by
  by_cases hfeed : '\n' ∈ text
  · obtain ⟨first, rest, rfl, hfirst⟩ := List.eq_append_cons_of_mem hfeed
    rw [lines_feed hfirst] at h
    cases i with
    | zero =>
      obtain rfl : dropReturn first = line := Option.some.inj h
      by_cases hreturn : endsWith first '\r' = true
      · obtain ⟨front, rfl⟩ := List.getLast?_eq_some_iff.mp (by simpa [endsWith] using hreturn)
        rw [dropReturn_concat]
        refine ⟨[], '\r' :: '\n' :: rest, by simp, by rw [lines_nil]; rfl, .inl rfl, ?_,
          .returnFeed rest⟩
        exact fun hmem => hfirst (List.mem_append_left _ hmem)
      · have hbare : endsWith first '\r' = false := eq_false_of_ne_true hreturn
        rw [dropReturn_of_not_endsWith hbare]
        exact ⟨[], '\n' :: rest, rfl, by rw [lines_nil]; rfl, .inl rfl, hfirst, .feed rest hbare⟩
    | succ i =>
      obtain ⟨before, after, rfl, hcount, hat⟩ := exists_lineAt (List.getElem?_cons_succ ▸ h)
      refine ⟨first ++ '\n' :: before, after, by simp, ?_, ?_, hat.one, hat.ends⟩
      · rw [lines_feed hfirst, List.length_cons, hcount]
      · exact .inr (starts_cons_iff.mp hat.starts)
  · cases text with
    | nil => rw [lines_nil] at h; cases h
    | cons c cs =>
      rw [lines_of_not_mem hfeed (by simp), List.getElem?_singleton] at h
      obtain ⟨rfl, hline⟩ : i = 0 ∧ c :: cs = line := by simpa using h
      rw [← hline]
      exact ⟨[], [], by simp, by rw [lines_nil]; rfl, .inl rfl, hfeed, .nothing⟩
termination_by text.length
decreasing_by simp_all; omega

end SqlLayout.Text
