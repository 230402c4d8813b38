import SqlLayout.Proofs.Dialect.Keywords

/-!
# Dialects built on the standard one

A dialect is extended by registering words and commands.  As long as these are ASCII, every word that
the dialect knows is written with ASCII letters in upper case (`narrow`), so that a keyword is known in
every case of a style; and the keywords of the standard dialect stay keywords (`classify_keyword`).
-/

namespace SqlLayout.Dialect

/-- Whether all characters of a word are ASCII. -/
def isAscii (word : Text) : Bool := word.all fun c => c.toNat < 128

/-- The dialects that come from the standard one by registering ASCII words and commands. -/
inductive Extends : Dialect → Prop
  | standard : Extends standard
  | addWords {d : Dialect} (base : Extends d) (kind : WordKind) (words : List Text)
      (ascii : ∀ w ∈ words, isAscii w = true) : Extends (d.addWords kind words)
  | addCommand {d : Dialect} (base : Extends d) (word : Text) (ascii : isAscii word = true) :
      Extends (d.addCommand word)

/-- A keyword stays one. -/
theorem classify_addWords_of_keyword {d : Dialect} {x : Text} (h : d.classify x = some .keyword)
    (kind : WordKind) (words : List Text) : (d.addWords kind words).classify x = some .keyword := by
  induction words generalizing d with
  | nil => exact h
  | cons w words ih =>
    have hfold : d.addWords kind (w :: words) = (d.register kind w).addWords kind words := rfl
    rw [hfold]
    refine ih ?_
    rw [classify_register]
    split
    · next hnew =>
      have hsame : d.classify w = d.classify x := by rw [classify, classify, hnew.2]
      exact absurd (hsame.trans h) hnew.1
    · exact h

/-- A word that is registered as a keyword is one. -/
theorem classify_addWords_keyword {words : List Text} {x : Text}
    (h : ∃ w ∈ words, Text.upper x = Text.upper w) (d : Dialect) :
    (d.addWords .keyword words).classify x = some .keyword := by
  induction words generalizing d with
  | nil => simp at h
  | cons w words ih =>
    have hfold : d.addWords .keyword (w :: words) =
        (d.register .keyword w).addWords .keyword words := rfl
    obtain ⟨w', hw', hsame⟩ := h
    rw [hfold]
    rcases List.mem_cons.mp hw' with rfl | hw'
    · refine classify_addWords_of_keyword ?_ .keyword words
      rw [classify_register]
      split
      · rfl
      · next hold =>
        have hkeyword : d.classify w' = some .keyword := by
          by_contra hother
          exact hold ⟨hother, hsame⟩
        rwa [classify, hsame, ← classify]
    · exact ih ⟨w', hw', hsame⟩ _

/-- The reserved and the common words of the standard dialect are keywords. -/
theorem classify_standard_keyword {w : String} (hw : w ∈ Words.reserved ++ Words.common) :
    Dialect.standard.classify w.toList = some .keyword := by
  refine classify_addWords_of_keyword (classify_addWords_of_keyword ?_ _ _) _ _
  rcases List.mem_append.mp hw with hw | hw
  · refine classify_addWords_of_keyword (classify_addWords_keyword ?_ _) _ _
    exact ⟨_, List.mem_map_of_mem hw, rfl⟩
  · exact classify_addWords_keyword ⟨_, List.mem_map_of_mem hw, rfl⟩ _

/-- The upper case of an ASCII word is ASCII. -/
theorem narrow_upper {w : Text} (h : isAscii w = true) : ∀ c ∈ Text.upper w, c.toNat < 128 := by
  intro c hc
  obtain ⟨x, hx, hc⟩ := List.mem_flatMap.mp hc
  have hx' : x.toNat < 128 := by simpa using List.all_eq_true.mp h x hx
  rw [Text.upperChar, if_pos hx', List.mem_singleton] at hc
  rw [hc]
  exact (Text.toNat_case_lt hx').1

namespace Extends

variable {d : Dialect} {x : Text}

/-- The upper case of a word that the dialect knows is ASCII. -/
theorem narrow (h : d.Extends) (hknown : (d.classify x).isSome = true) :
    ∀ c ∈ Text.upper x, c.toNat < 128 := by
  induction h with
  | standard => exact narrow_of_known hknown
  | addWords base kind words ascii ih =>
    rcases (isSome_classify_addWords _ _ _ _).mp hknown with hold | ⟨w, hw, hsame⟩
    · exact ih hold
    · rw [hsame]
      exact narrow_upper (ascii w hw)
  | addCommand base word ascii ih => exact ih hknown

/-- The reserved and the common words of the standard dialect are keywords of the dialect. -/
theorem classify_keyword (h : d.Extends) {w : String} (hw : w ∈ Words.reserved ++ Words.common) :
    d.classify w.toList = some .keyword := by
  induction h with
  | standard => exact classify_standard_keyword hw
  | addWords base kind words ascii ih => exact classify_addWords_of_keyword ih kind words
  | addCommand base word ascii ih => exact ih

/-- A word that the dialect knows keeps its class in the case of a style. -/
theorem classify_apply (h : d.Extends) (k : KeywordCase) (hknown : (d.classify x).isSome = true) :
    d.classify (k.apply x) = d.classify x := by
  rw [classify, Text.upper_apply k (h.narrow hknown), classify]

end Extends

end SqlLayout.Dialect
