import Mathlib.Tactic.ByContra
import SqlLayout.Proofs.Text.LetterCase

/-!
# The words of a dialect

Registering words makes exactly these words known, up to case, and keeps the class of keywords.
The standard dialect knows the words of its four lists and no others (`isSome_classify_standard`).
-/

namespace SqlLayout.Dialect

theorem register_of_classify {d : Dialect} {w : Text} (h : d.classify w ≠ some .keyword)
    (kind : WordKind) : d.register kind w = ⟨(Text.upper w, kind) :: d.words, d.commands⟩ :=
  if_neg h

theorem classify_register (d : Dialect) (kind : WordKind) (w x : Text) :
    (d.register kind w).classify x =
      if d.classify w ≠ some .keyword ∧ Text.upper x = Text.upper w then some kind
      else d.classify x := by
  unfold register
  by_cases hkeyword : d.classify w = some .keyword
  · simp [hkeyword]
  · rw [if_neg hkeyword]
    by_cases hsame : Text.upper x = Text.upper w
    · rw [if_pos ⟨hkeyword, hsame⟩]
      simp [classify, hsame]
    · have hne : (Text.upper x == Text.upper w) = false := by simpa using hsame
      simp [classify, hsame, List.lookup_cons, hne]

theorem isSome_classify_register {d : Dialect} (kind : WordKind) (w : Text) {x : Text}
    (h : (d.classify x).isSome = true) : ((d.register kind w).classify x).isSome = true := by
  rw [classify_register]
  split
  · rfl
  · exact h

theorem classify_register_ne_keyword {d : Dialect} {kind : WordKind} (w : Text) {x : Text}
    (hkind : kind ≠ .keyword) (h : d.classify x ≠ some .keyword) :
    (d.register kind w).classify x ≠ some .keyword := by
  rw [classify_register]
  split
  · simpa using hkind
  · exact h

/-- A word is known to a dialect, or it is one of the words just registered. -/
theorem classify_addWords_eq_some {d : Dialect} {kind kind' : WordKind} {ws : List Text} {x : Text}
    (h : (d.addWords kind ws).classify x = some kind') :
    d.classify x = some kind' ∨ kind' = kind ∧ ∃ w ∈ ws, Text.upper x = Text.upper w := by
  induction ws generalizing d with
  | nil => exact .inl h
  | cons w ws ih =>
    have hfold : d.addWords kind (w :: ws) = (d.register kind w).addWords kind ws := rfl
    rw [hfold] at h
    rcases ih h with hknown | ⟨hkind, w', hw', hsame⟩
    · rw [classify_register] at hknown
      split at hknown
      · next hnew =>
        cases hknown
        exact .inr ⟨rfl, w, by simp, hnew.2⟩
      · exact .inl hknown
    · exact .inr ⟨hkind, w', by simp [hw'], hsame⟩

theorem isSome_classify_addWords (d : Dialect) (kind : WordKind) (ws : List Text) (x : Text) :
    ((d.addWords kind ws).classify x).isSome = true ↔
      (d.classify x).isSome = true ∨ ∃ w ∈ ws, Text.upper x = Text.upper w := by
  constructor
  · intro h
    obtain ⟨kind', hkind'⟩ := Option.isSome_iff_exists.mp h
    rcases classify_addWords_eq_some hkind' with hknown | ⟨-, hnew⟩
    · exact .inl (by simp [hknown])
    · exact .inr hnew
  · intro h
    induction ws generalizing d with
    | nil =>
      rcases h with h | ⟨w, hw, -⟩
      · exact h
      · simp at hw
    | cons w ws ih =>
      have hfold : d.addWords kind (w :: ws) = (d.register kind w).addWords kind ws := rfl
      rw [hfold]
      refine ih (d.register kind w) ?_
      rw [classify_register]
      split
      · exact .inl rfl
      · next hnew =>
        rcases h with h | ⟨w', hw', hsame⟩
        · exact .inl h
        · rcases List.mem_cons.mp hw' with rfl | hw'
          · have hkeyword : d.classify w' = some .keyword := by
              by_contra hother
              exact hnew ⟨hother, hsame⟩
            refine .inl ?_
            rw [classify] at hkeyword ⊢
            rw [hsame, hkeyword]
            rfl
          · exact .inr ⟨w', hw', hsame⟩

/-- All words of the standard dialect. -/
def standardWords : List String := Words.reserved ++ Words.common ++ Words.types ++ Words.functions

theorem isSome_classify_standard (x : Text) :
    (standard.classify x).isSome = true ↔ ∃ w ∈ standardWords, Text.upper x = Text.upper w.toList := by
  have hempty : (empty.classify x).isSome = false := rfl
  simp only [standard, isSome_classify_addWords, hempty, Bool.false_eq_true, false_or,
    List.mem_map, exists_exists_and_eq_and, standardWords, List.mem_append, or_and_right,
    exists_or]

theorem exists_function_of_isFunction {x : Text} (h : standard.isFunction x = true) :
    ∃ w ∈ Words.functions, Text.upper x = Text.upper w.toList := by
  have hclass : standard.classify x = some .function := by simpa [isFunction] using h
  rcases classify_addWords_eq_some hclass with hclass | ⟨-, w, hw, hsame⟩
  · rcases classify_addWords_eq_some hclass with hclass | ⟨hkind, -⟩
    · rcases classify_addWords_eq_some hclass with hclass | ⟨hkind, -⟩
      · rcases classify_addWords_eq_some hclass with hclass | ⟨hkind, -⟩
        · cases hclass
        · cases hkind
      · cases hkind
    · cases hkind
  · obtain ⟨f, hf, rfl⟩ := List.mem_map.mp hw
    exact ⟨f, hf, hsame⟩

theorem commands_standard : standard.commands = [] := by
  have hcommands : ∀ (d : Dialect) (kind : WordKind) (ws : List Text),
      (d.addWords kind ws).commands = d.commands := by
    intro d kind ws
    induction ws generalizing d with
    | nil => rfl
    | cons w ws ih =>
      have hfold : d.addWords kind (w :: ws) = (d.register kind w).addWords kind ws := rfl
      rw [hfold, ih]
      unfold register
      split <;> rfl
  simp [standard, hcommands, empty]

theorem isCommand_standard (x : Text) : standard.isCommand x = false := by
  simp [isCommand, commands_standard]

/-! ## How the words are written -/

/-- Whether a word is in capitals of ASCII, starts with one and has no dot, star or blank in it. -/
def isCapitals : Text → Bool
  | [] => false
  | c :: cs => 65 ≤ c.toNat && c.toNat ≤ 90 &&
      (c :: cs).all fun c => c.toNat < 97 && c != '.' && c != '*' && c != ' '

theorem isCapitals_standardWords : ∀ w ∈ standardWords, isCapitals w.toList = true := by
  decide +kernel

theorem isCapitals_iff {w : Text} : isCapitals w = true ↔
    (∃ c ∈ w.head?, 65 ≤ c.toNat ∧ c.toNat ≤ 90) ∧
      ∀ c ∈ w, c.toNat < 97 ∧ c ≠ '.' ∧ c ≠ '*' ∧ c ≠ ' ' := by
  cases w with
  | nil => simp [isCapitals]
  | cons c cs => simp [isCapitals, and_assoc]

/-- Words in capitals are their own upper case. -/
theorem upper_of_isCapitals {w : Text} (h : isCapitals w = true) : Text.upper w = w := by
  have hchars : ∀ c ∈ w, Text.upperChar c = [c] := by
    intro c hc
    obtain ⟨hcode, -⟩ := (isCapitals_iff.mp h).2 c hc
    have hsame : c.toUpper = c := Char.toNat_inj.mp (by rw [Text.toNat_toUpper, if_neg (by omega)])
    rw [Text.upperChar, if_pos (by omega), hsame]
  clear h
  induction w with
  | nil => rfl
  | cons c cs ih =>
    have hcs : Text.upper cs = cs := ih fun c' hc' => hchars c' (List.mem_cons_of_mem c hc')
    rw [Text.upper, List.flatMap_cons, hchars c List.mem_cons_self, ← Text.upper, hcs]
    rfl

theorem upper_standardWords {w : String} (hw : w ∈ standardWords) :
    Text.upper w.toList = w.toList :=
  upper_of_isCapitals (isCapitals_standardWords w hw)

theorem head_standardWords {w : String} (hw : w ∈ standardWords) :
    ∃ c ∈ w.toList.head?, Lexer.isLetter c = true := by
  obtain ⟨c, hc, hcode⟩ := (isCapitals_iff.mp (isCapitals_standardWords w hw)).1
  exact ⟨c, hc, Text.isLetter_of_alphabet (.inl hcode)⟩

theorem mem_standardWords_of_function {w : String} (hw : w ∈ Words.functions) :
    w ∈ standardWords :=
  List.mem_append_right _ hw

/-- A word that is none of the standard words is not known. -/
theorem classify_standard_eq_none {x : Text} {w : String} (hw : w ∉ standardWords)
    (hx : Text.upper x = w.toList) : standard.classify x = none := by
  refine Option.not_isSome_iff_eq_none.mp (mt (isSome_classify_standard x).mp ?_)
  rintro ⟨w', hw', hsame⟩
  rw [upper_standardWords hw', hx] at hsame
  exact hw (String.toList_inj.mp hsame ▸ hw')

end SqlLayout.Dialect
