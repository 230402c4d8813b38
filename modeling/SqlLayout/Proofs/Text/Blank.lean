import SqlLayout.Text.Basic

/-!
# White space in texts

Trimming takes nothing but white space off a text, so a text and its trimmed form are blank
together, and two texts with the same trimmed form differ in white space at the end only.
-/

namespace SqlLayout.Text

theorem allBlank_append (a b : Text) : allBlank (a ++ b) = (allBlank a && allBlank b) := by
  simp [allBlank]

theorem allBlank_cons (c : Char) (cs : Text) : allBlank (c :: cs) = (isBlank c && allBlank cs) := by
  simp [allBlank]

theorem trimStart_append {a : Text} (h : allBlank a = true) (b : Text) :
    trimStart (a ++ b) = trimStart b :=
  List.dropWhile_append_of_pos (List.all_eq_true.mp h)

theorem trimStart_of_allBlank {s : Text} (h : allBlank s = true) : trimStart s = [] := by
  simpa [trimStart] using trimStart_append h []

/-- A text that starts with a visible character has no white space to drop in front. -/
theorem trimStart_of_head {s : Text} (h : ∀ c ∈ s.head?, isBlank c = false) : trimStart s = s := by
  cases s with
  | nil => rfl
  | cons c cs => exact trimStart_cons_of_not_blank (h c rfl) cs

/-- What trimming takes off the end is white space. -/
theorem exists_trimEnd_append (s : Text) : ∃ w, allBlank w = true ∧ s = trimEnd s ++ w := by
  refine ⟨(s.reverse.takeWhile isBlank).reverse, ?_, ?_⟩
  · simp [allBlank]
  · unfold trimEnd
    rw [← List.reverse_append, List.takeWhile_append_dropWhile, List.reverse_reverse]

theorem allBlank_trimEnd (s : Text) : allBlank (trimEnd s) = allBlank s := by
  obtain ⟨w, hw, hs⟩ := exists_trimEnd_append s
  have h := congrArg allBlank hs
  rw [allBlank_append, hw, Bool.and_true] at h
  exact h.symm

theorem isBlank_of_head?_dropWhile {s : Text} {c : Char} (h : (s.dropWhile isBlank).head? = some c) :
    isBlank c = false := by
  have hhead := List.head?_dropWhile_not isBlank s
  rw [h] at hhead
  exact hhead

/-- What trimming leaves starts and ends with visible characters. -/
theorem visible_trim {s : Text} (h : trim s ≠ []) :
    (∃ c ∈ (trim s).head?, isBlank c = false) ∧ ∃ c ∈ (trim s).getLast?, isBlank c = false := by
  constructor
  · obtain ⟨c, hc⟩ := Option.ne_none_iff_exists'.mp (mt List.head?_eq_none_iff.mp h)
    refine ⟨c, hc, isBlank_of_head?_dropWhile (s := s) ?_⟩
    obtain ⟨w, -, hw⟩ := exists_trimEnd_append (trimStart s)
    rw [← trimStart, hw, List.head?_append, ← trim, hc]
    rfl
  · obtain ⟨c, hc⟩ := Option.ne_none_iff_exists'.mp (mt List.getLast?_eq_none_iff.mp h)
    refine ⟨c, hc, isBlank_of_head?_dropWhile (s := (trimStart s).reverse) ?_⟩
    rwa [trim, trimEnd, List.getLast?_reverse] at hc

/-- A text that starts with a visible character is not blank. -/
theorem allBlank_of_head {s : Text} {c : Char} (hs : s.head? = some c) (hc : isBlank c = false) :
    allBlank s = false := by
  cases s with
  | nil => simp at hs
  | cons a as =>
    obtain rfl : a = c := by simpa using hs
    simp [allBlank_cons, hc]

/-! ## Visible characters -/

/-- The characters of a text that are no white space. -/
def visible (s : Text) : Text := s.filter fun c => !isBlank c

theorem visible_append (a b : Text) : visible (a ++ b) = visible a ++ visible b := List.filter_append a b

theorem visible_of_allBlank {s : Text} (h : allBlank s = true) : visible s = [] := by
  simpa [visible, allBlank] using h

end SqlLayout.Text
