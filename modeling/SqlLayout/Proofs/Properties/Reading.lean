import Mathlib.Data.List.Induction
import SqlLayout.Proofs.Text.Blank
import SqlLayout.Proofs.Text.Lines
import SqlLayout.Properties

/-!
# Reading property files line by line

The reader holds the logical line in progress and what it found.  Reading a text is taken apart here:
what stands before a line is read first (`readText_append`), then the line (`readText_feed`,
`readText_line`), and a line that is not skipped is taken as it is without the white space in front
(`readLine_eq_take`).
-/

namespace SqlLayout.Properties

/-! ## Backslashes at the end of a line -/

theorem trailingBackslashes_concat (s : Text) (c : Char) :
    trailingBackslashes (s ++ [c]) = if c = '\\' then trailingBackslashes s + 1 else 0 := by
  by_cases hc : c = '\\' <;> simp [trailingBackslashes, hc]

/-- Behind an even number of backslashes only those of what follows count. -/
theorem trailingBackslashes_append {a : Text} (h : trailingBackslashes a % 2 = 0) (b : Text) :
    trailingBackslashes (a ++ b) % 2 = trailingBackslashes b % 2 := by
  induction b using List.reverseRecOn with
  | nil => rw [List.append_nil, h]; rfl
  | append_singleton b c ih =>
    rw [← List.append_assoc, trailingBackslashes_concat, trailingBackslashes_concat]
    split
    · omega
    · rfl

/-- The line starts with a character that is neither white space nor a comment mark. -/
def Opens (line : Text) : Prop :=
  ∃ c ∈ line.head?, Text.isBlank c = false ∧ c ≠ '#' ∧ c ≠ '!'

theorem Opens.visible {line : Text} (h : Opens line) : ∀ c ∈ line.head?, Text.isBlank c = false := by
  obtain ⟨c, hc, hblank, -⟩ := h
  intro c' hc'
  rwa [← Option.mem_unique hc hc']

theorem Opens.append {line : Text} (h : Opens line) (rest : Text) : Opens (line ++ rest) := by
  obtain ⟨c, hc, hmarks⟩ := h
  refine ⟨c, ?_, hmarks⟩
  rw [List.head?_append, Option.mem_def.mp hc]
  rfl

namespace Reader

variable {r : Reader} {a b raw raw' line : Text}

/-- Ends the reading.  A logical line that is left open counts. -/
def close (r : Reader) : Properties :=
  if r.pending.isEmpty then r.found else (finish r.pending r.found).found

/-- What is found when the rest of a text is read. -/
def readText (r : Reader) (text : Text) : Properties := ((Text.lines text).foldl readLine r).close

/-- Reads a line that is not skipped and has no white space in front. -/
def take (r : Reader) (line : Text) : Reader :=
  if trailingBackslashes line % 2 = 1 then { r with pending := r.pending ++ line.dropLast }
  else finish (r.pending ++ line) r.found

/-! ## One line -/

theorem readLine_eq_take (h : r.pending ≠ [] ∨ isSkipped (Text.trimStart raw) = false) :
    r.readLine raw = r.take (Text.trimStart raw) := by
  have hread : (r.pending.isEmpty && isSkipped (Text.trimStart raw)) = false := by
    rcases h with h | h
    · rw [List.isEmpty_eq_false_iff.mpr h, Bool.false_and]
    · rw [h, Bool.and_false]
  rw [readLine, hread]
  rfl

/-- A line that starts with neither white space nor a comment mark is taken as it is. -/
theorem readLine_of_opens (h : Opens raw) (r : Reader) : r.readLine raw = r.take raw := by
  obtain ⟨c, hc, hblank, hhash, hbang⟩ := h
  obtain ⟨cs, rfl⟩ := List.head?_eq_some_iff.mp hc
  have htrim : Text.trimStart (c :: cs) = c :: cs := Text.trimStart_cons_of_not_blank hblank cs
  have hread : isSkipped (c :: cs) = false := by
    simp [isSkipped, Text.startsWith, List.isPrefixOf, Ne.symm hhash, Ne.symm hbang]
  rw [readLine_eq_take (.inr (by rwa [htrim])), htrim]

/-- White space in front of a line says nothing. -/
theorem readLine_congr (h : Text.trimStart raw = Text.trimStart raw') :
    r.readLine raw = r.readLine raw' := by
  rw [readLine, readLine, h]

/-- An odd backslash at the end leaves the logical line open. -/
theorem take_concat_backslash (h : trailingBackslashes line % 2 = 0) :
    r.take (line ++ ['\\']) = ⟨r.pending ++ line, r.found⟩ := by
  have hodd : trailingBackslashes (line ++ ['\\']) % 2 = 1 := by
    rw [trailingBackslashes_append h]
    rfl
  rw [take, if_pos hodd, List.dropLast_concat]

/-- A logical line may be taken in two parts. -/
theorem take_append (h : trailingBackslashes a % 2 = 0) (r : Reader) (b : Text) :
    take ⟨r.pending ++ a, r.found⟩ b = r.take (a ++ b) := by
  unfold take
  rw [trailingBackslashes_append h]
  split
  · next hodd =>
    have hb : b ≠ [] := by
      rintro rfl
      cases hodd
    rw [List.dropLast_append_of_ne_nil hb, ← List.append_assoc]
  · rw [← List.append_assoc]

/-- An empty line at the end ends the logical line, as the end of the text does. -/
theorem close_readLine_nil (r : Reader) : (r.readLine []).close = r.close := by
  have hskipped : isSkipped [] = true := rfl
  have hline : r.readLine [] = if r.pending.isEmpty then r else finish r.pending r.found := by
    simp [readLine, Text.trimStart, hskipped, trailingBackslashes]
  rw [hline]
  by_cases hpending : r.pending.isEmpty = true
  · rw [if_pos hpending]
  · rw [if_neg hpending, close, close, if_neg hpending]
    rfl

/-! ## A text -/

theorem parse_eq_readText (text : Text) : parse text = readText ⟨[], []⟩ text := rfl

theorem readText_nil (r : Reader) : r.readText [] = r.close := by
  rw [readText, Text.lines_nil, List.foldl_nil]

theorem readText_line (h : '\n' ∉ line) (r : Reader) :
    r.readText line = (r.readLine line).close := by
  cases line with
  | nil => rw [readText_nil, close_readLine_nil]
  | cons c cs => rw [readText, Text.lines_of_not_mem h (by simp), List.foldl_cons, List.foldl_nil]

theorem readText_feed (h : '\n' ∉ line) (r : Reader) (rest : Text) :
    r.readText (line ++ '\n' :: rest) = (r.readLine (Text.dropReturn line)).readText rest := by
  rw [readText, Text.lines_feed h, List.foldl_cons, readText]

theorem readText_append {before : Text} (h : before = [] ∨ Text.endsWith before '\n' = true)
    (r : Reader) (rest : Text) :
    r.readText (before ++ rest) = ((Text.lines before).foldl readLine r).readText rest := by
  rw [readText, Text.lines_append h, List.foldl_append, readText]

end Reader

end SqlLayout.Properties
