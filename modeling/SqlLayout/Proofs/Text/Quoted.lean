import Mathlib.Tactic.IntervalCases
import SqlLayout.Text.Quoted

/-!
# A character between quotes can be read back

A quoted character begins with a backslash exactly when it is escaped, and what stands behind the
backslash tells how.  So a quoted character is read off the front of a text together with what stands
behind it (`readEscaped_escapeChar`).
-/

namespace SqlLayout.Text

/-- The value of a lower-case hexadecimal digit. -/
def hexDigitValue (c : Char) : Nat :=
  if isDigit c then c.toNat - '0'.toNat else c.toNat - 'a'.toNat + 10

/-- The value of a run of hexadecimal digits, most significant first. -/
def hexValue (s : Text) : Nat := s.foldl (fun n c => 16 * n + hexDigitValue c) 0

theorem hexDigitValue_digitChar {n : Nat} (h : n < 16) : hexDigitValue n.digitChar = n := by
  interval_cases n <;> rfl

theorem hexValue_concat (s : Text) (c : Char) :
    hexValue (s ++ [c]) = 16 * hexValue s + hexDigitValue c := by
  simp [hexValue]

/-- A number is read back from its hexadecimal digits, among which is no brace. -/
theorem hexValue_toDigits (n : Nat) :
    hexValue (Nat.toDigits 16 n) = n ∧ ∀ c ∈ Nat.toDigits 16 n, c ≠ '}' := by
  induction n using Nat.strongRecOn with
  | ind n ih =>
    rw [Nat.toDigits_eq_if (by decide)]
    split
    · next hsmall =>
      have hvalue : hexValue [n.digitChar] = n := by
        rw [← List.nil_append [n.digitChar], hexValue_concat, hexDigitValue_digitChar hsmall]
        exact Nat.zero_add n
      exact ⟨hvalue, List.forall_mem_singleton.mpr (Nat.digitChar_ne _ rfl)⟩
    · next hlarge =>
      obtain ⟨hvalue, hbrace⟩ := ih (n / 16) (by omega)
      have hlast : n % 16 < 16 := Nat.mod_lt n (by decide)
      refine ⟨?_, List.forall_mem_append.mpr ⟨hbrace, ?_⟩⟩
      · rw [hexValue_concat, hvalue, hexDigitValue_digitChar hlast]
        omega
      · exact List.forall_mem_singleton.mpr (Nat.digitChar_ne _ rfl)

/-- Reads one character that stands between single quotes. -/
def readEscaped : Text → Option (Char × Text)
  | [] => none
  | '\\' :: 't' :: cs => some ('\t', cs)
  | '\\' :: 'r' :: cs => some ('\r', cs)
  | '\\' :: 'n' :: cs => some ('\n', cs)
  | '\\' :: '0' :: cs => some (Char.ofNat 0, cs)
  | '\\' :: 'u' :: '{' :: cs =>
    some (Char.ofNat (hexValue (cs.takeWhile (· ≠ '}'))), (cs.dropWhile (· ≠ '}')).tail)
  | '\\' :: c :: cs => some (c, cs)
  | c :: cs => some (c, cs)

theorem readEscaped_escapeByNumber (c : Char) (rest : Text) :
    readEscaped (escapeByNumber c ++ rest) = some (c, rest) := by
  obtain ⟨hvalue, hbrace⟩ := hexValue_toDigits c.toNat
  have hdigits : ∀ d ∈ Nat.toDigits 16 c.toNat, decide (d ≠ '}') = true := by simpa using hbrace
  have hsplit : escapeByNumber c ++ rest =
      '\\' :: 'u' :: '{' :: (Nat.toDigits 16 c.toNat ++ '}' :: rest) := by
    simp [escapeByNumber]
  rw [hsplit, readEscaped, List.takeWhile_append_of_pos hdigits, List.dropWhile_append_of_pos hdigits]
  simp [hvalue, Char.ofNat_toNat]

/-- A character between single quotes is read back. -/
theorem readEscaped_escapeChar (c : Char) (rest : Text) :
    readEscaped (escapeChar '\'' c ++ rest) = some (c, rest) := by
  unfold escapeChar
  split_ifs with htab hreturn hfeed hnul hmark hnumber
  · rw [htab]; rfl
  · rw [hreturn]; rfl
  · rw [hfeed]; rfl
  · have hc : Char.ofNat 0 = c := by rw [← hnul, Char.ofNat_toNat]
    rw [← hc]; rfl
  · have hc : c = '\\' ∨ c = '\'' := by simpa using hmark
    rcases hc with rfl | rfl <;> rfl
  · exact readEscaped_escapeByNumber c rest
  · have hc : c ≠ '\\' := by
      rintro rfl
      exact hmark rfl
    rw [List.singleton_append, readEscaped]
    all_goals simp [hc]

end SqlLayout.Text
