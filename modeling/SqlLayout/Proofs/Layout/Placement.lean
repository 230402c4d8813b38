import SqlLayout.Proofs.Layout.Preservation

/-!
# Where the tokens of a text stand in its layout

White space ends where a token starts, so the pieces of a layout are determined by its text as far
as they can be: from each token up to the next one the text is the same in any two ways to find the
tokens (`Laid.spans_eq`).
-/

namespace SqlLayout.Layout

/-- White space in front of a visible text ends where the text starts. -/
theorem append_inj_of_startsVisibly {a a' b b' : Text} (ha : Text.allBlank a = true)
    (ha' : Text.allBlank a' = true) (hb : startsVisibly b = true) (hb' : startsVisibly b' = true)
    (h : a ++ b = a' ++ b') : a = a' ∧ b = b' := by
  induction a generalizing a' with
  | nil =>
    cases a' with
    | nil => exact ⟨rfl, h⟩
    | cons c cs =>
      rw [Text.allBlank_cons, Bool.and_eq_true] at ha'
      simp [show b = c :: (cs ++ b') from h, startsVisibly, ha'.1] at hb
  | cons c cs ih =>
    rw [Text.allBlank_cons, Bool.and_eq_true] at ha
    cases a' with
    | nil => simp [show b' = c :: (cs ++ b) from h.symm, startsVisibly, ha.1] at hb'
    | cons c' cs' =>
      rw [Text.allBlank_cons, Bool.and_eq_true] at ha'
      obtain ⟨rfl, hrest⟩ := List.cons.inj h
      obtain ⟨rfl, rfl⟩ := ih ha.2 ha'.2 hrest
      exact ⟨rfl, rfl⟩

theorem startsVisibly_append {a : Text} (h : startsVisibly a = true) (b : Text) :
    startsVisibly (a ++ b) = true := by
  cases a with
  | nil => simp [startsVisibly] at h
  | cons c cs => exact h

theorem startsVisibly_trimEnd {a : Text} (h : startsVisibly a = true) :
    startsVisibly (Text.trimEnd a) = true := by
  obtain ⟨w, hw, ha⟩ := Text.exists_trimEnd_append a
  have hvisible := allBlank_of_startsVisibly h
  rw [← Text.allBlank_trimEnd] at hvisible
  cases htrim : Text.trimEnd a with
  | nil => simp [htrim, Text.allBlank] at hvisible
  | cons c cs =>
    rw [htrim] at ha
    rw [ha] at h
    exact h

/-- `HasCore P`: the tokens that `P` holds of differ in white space at the end of their texts only. -/
def HasCore (P : Token → Prop) : Prop :=
  ∃ core, ∀ t, P t → ∃ w, Text.allBlank w = true ∧ t.text = core ++ w

/-- What a layout may show of a token differs in white space at the end only. -/
theorem hasCore_shows (s : Style) (t : Token) : HasCore (Shows s t) := by
  have hcore : ∃ core, ∀ text ∈ shownTexts s t, ∃ w, Text.allBlank w = true ∧ text = core ++ w := by
    unfold shownTexts
    split
    · exact ⟨s.keywordCase.apply t.text, by simp [Text.allBlank]⟩
    · split
      · obtain ⟨w, hw, ht⟩ := Text.exists_trimEnd_append t.text
        refine ⟨Text.trimEnd t.text, List.forall_mem_cons.mpr ⟨⟨w, hw, ht⟩, ?_⟩⟩
        exact List.forall_mem_singleton.mpr ⟨[], rfl, by simp⟩
      · exact ⟨t.text, by simp [Text.allBlank]⟩
  obtain ⟨core, hcore⟩ := hcore
  refine ⟨core, ?_⟩
  rintro t' ⟨text, htext, rfl⟩
  exact hcore text htext

/-- A token of a text starts visibly however it is shown. -/
theorem Shows.startsVisibly {d : Dialect} {s : Style} {sql : Text} {t t' : Token}
    (h : Shows s t t') (ht : t ∈ tokenize d sql) (hvisible : t.isSpace = false) :
    Layout.startsVisibly t'.text = true := by
  have hrecase := startsVisibly_recase s ht hvisible
  obtain ⟨text, htext, rfl⟩ := h
  simp only [shownTexts] at htext
  by_cases hkeyword : t.kind = .keyword
  · rw [if_pos hkeyword, List.mem_singleton] at htext
    simpa [recase, hkeyword, Token.withText, htext] using hrecase
  · rw [recase_of_kind_ne s hkeyword] at hrecase
    rw [if_neg hkeyword] at htext
    split at htext
    · rcases List.mem_cons.mp htext with rfl | htext
      · exact hrecase
      · rw [List.mem_singleton] at htext
        simpa [Token.withText, htext] using startsVisibly_trimEnd hrecase
    · rw [List.mem_singleton] at htext
      simpa [Token.withText, htext] using hrecase

/-- The text from each token up to the next one. -/
def spans : List Piece → List Text
  | p :: q :: ps => (p.token.text ++ q.gap) :: spans (q :: ps)
  | _ => []

/-- Two ways to find the same tokens in the same text find them in the same places. -/
theorem spans_eq {R : Token → Token → Prop} {us : List Token} {os os' : List Piece} {e e' : Text}
    (hcore : ∀ u, HasCore (R u)) (hvisible : ∀ u ∈ us, ∀ t, R u t → startsVisibly t.text = true)
    (hos : List.Forall₂ R us (os.map Piece.token)) (hos' : List.Forall₂ R us (os'.map Piece.token))
    (hblank : ∀ o ∈ os, Text.allBlank o.gap = true)
    (hblank' : ∀ o ∈ os', Text.allBlank o.gap = true)
    (hfirst : os.head?.map Piece.gap = os'.head?.map Piece.gap)
    (hsame : Piece.render os ++ e = Piece.render os' ++ e') : spans os = spans os' := by
  induction us generalizing os os' with
  | nil =>
    rw [List.forall₂_nil_left_iff, List.map_eq_nil_iff] at hos hos'
    rw [hos, hos']
  | cons u us ih =>
    obtain ⟨t, ts, ht, hts, hmap⟩ := List.forall₂_cons_left_iff.mp hos
    obtain ⟨t', ts', ht', hts', hmap'⟩ := List.forall₂_cons_left_iff.mp hos'
    obtain ⟨p, os, rfl, rfl, rfl⟩ := List.map_eq_cons_iff.mp hmap
    obtain ⟨p', os', rfl, rfl, rfl⟩ := List.map_eq_cons_iff.mp hmap'
    have hgap : p.gap = p'.gap := by simpa using hfirst
    cases us with
    | nil =>
      rw [List.forall₂_nil_left_iff, List.map_eq_nil_iff] at hts hts'
      simp [hts, hts', spans]
    | cons v vs =>
      obtain ⟨x, xs, hx, hxs, hmap⟩ := List.forall₂_cons_left_iff.mp hts
      obtain ⟨x', xs', hx', hxs', hmap'⟩ := List.forall₂_cons_left_iff.mp hts'
      obtain ⟨q, os, rfl, rfl, rfl⟩ := List.map_eq_cons_iff.mp hmap
      obtain ⟨q', os', rfl, rfl, rfl⟩ := List.map_eq_cons_iff.mp hmap'
      -- both tokens are one core and white space, which runs up to the next token
      obtain ⟨core, hshown⟩ := hcore u
      obtain ⟨w, hw, hwtext⟩ := hshown _ ht
      obtain ⟨w', hw', hwtext'⟩ := hshown _ ht'
      have hqgap : Text.allBlank q.gap = true := hblank q (by simp)
      have hqgap' : Text.allBlank q'.gap = true := hblank' q' (by simp)
      have hstarts : startsVisibly (q.token.text ++ (Piece.render os ++ e)) = true :=
        startsVisibly_append (hvisible v (by simp) q.token hx) _
      have hstarts' : startsVisibly (q'.token.text ++ (Piece.render os' ++ e')) = true :=
        startsVisibly_append (hvisible v (by simp) q'.token hx') _
      have hrest : (w ++ q.gap) ++ (q.token.text ++ (Piece.render os ++ e)) =
          (w' ++ q'.gap) ++ (q'.token.text ++ (Piece.render os' ++ e')) := by
        simpa [hgap, hwtext, hwtext'] using hsame
      obtain ⟨hbetween, hbehind⟩ := append_inj_of_startsVisibly
        (by rw [Text.allBlank_append, hw, hqgap]; rfl)
        (by rw [Text.allBlank_append, hw', hqgap']; rfl) hstarts hstarts' hrest
      have htext : p.token.text ++ q.gap = p'.token.text ++ q'.gap := by
        rw [hwtext, hwtext', List.append_assoc, List.append_assoc, hbetween]
      have hih : spans (⟨[], q.token⟩ :: os) = spans (⟨[], q'.token⟩ :: os') :=
        ih (fun n hn => hvisible n (by simp [hn])) hts hts'
          (List.forall_mem_cons.mpr ⟨rfl, fun o ho => hblank o (by simp [ho])⟩)
          (List.forall_mem_cons.mpr ⟨rfl, fun o ho => hblank' o (by simp [ho])⟩) rfl
          (by simpa using hbehind)
      have hgapless : ∀ (r : Piece) (rs : List Piece), spans (r :: rs) = spans (⟨[], r.token⟩ :: rs) := by
        intro r rs
        cases rs <;> rfl
      rw [spans, spans, htext, hgapless q, hgapless q', hih]

/-- Pieces that show the same tokens with nothing in front of the first have the same gap there. -/
theorem head?_gap_eq {R : Token → Token → Prop} {us : List Token} {os os' : List Piece}
    (hos : List.Forall₂ R us (os.map Piece.token)) (hos' : List.Forall₂ R us (os'.map Piece.token))
    (hfirst : ∀ o ∈ os.head?, o.gap = []) (hfirst' : ∀ o ∈ os'.head?, o.gap = []) :
    os.head?.map Piece.gap = os'.head?.map Piece.gap := by
  have hlength : os.length = os'.length := by
    have hlen := hos.length_eq
    have hlen' := hos'.length_eq
    simp only [List.length_map] at hlen hlen'
    omega
  cases os with
  | nil => rw [List.eq_nil_of_length_eq_zero hlength.symm]
  | cons o os =>
    cases os' with
    | nil => simp at hlength
    | cons o' os' => simp [hfirst o (by simp), hfirst' o' (by simp)]

/-! ## Two layouts side by side -/

/-- Two rows of pieces side by side: `R` relates their tokens, and from each token up to the next
one the text is the same. -/
inductive SameSpans (R : Token → Token → Prop) : List Piece → List Piece → Prop
  | nil : SameSpans R [] []
  | single {p p' : Piece} (tokens : R p.token p'.token) : SameSpans R [p] [p']
  | cons {p p' q q' : Piece} {os os' : List Piece} (tokens : R p.token p'.token)
      (text : p.token.text ++ q.gap = p'.token.text ++ q'.gap)
      (rest : SameSpans R (q :: os) (q' :: os')) : SameSpans R (p :: q :: os) (p' :: q' :: os')

theorem sameSpans_of_spans {R : Token → Token → Prop} {os os' : List Piece}
    (h : List.Forall₂ R (os.map Piece.token) (os'.map Piece.token)) (hspans : spans os = spans os') :
    SameSpans R os os' := by
  rw [List.forall₂_map_left_iff, List.forall₂_map_right_iff] at h
  induction h with
  | nil => exact .nil
  | cons ht hts ih =>
    cases hts with
    | nil => exact .single ht
    | cons hu hus =>
      rw [spans, spans, List.cons.injEq] at hspans
      exact .cons ht hspans.1 (ih hspans.2)

/-- Two ways to show the same token. -/
def ShownAlike (s : Style) (t t' : Token) : Prop := ∃ u, Shows s u t ∧ Shows s u t'

theorem forall₂_shownAlike {s : Style} {us ts ts' : List Token} (h : List.Forall₂ (Shows s) us ts)
    (h' : List.Forall₂ (Shows s) us ts') : List.Forall₂ (ShownAlike s) ts ts' := by
  induction h generalizing ts' with
  | nil =>
    rw [List.forall₂_nil_left_iff] at h'
    rw [h']
    exact .nil
  | cons ht _ ih =>
    obtain ⟨t', ts', ht', hts', rfl⟩ := List.forall₂_cons_left_iff.mp h'
    exact .cons ⟨_, ht, ht'⟩ (ih hts')

namespace Laid

variable {d : Dialect} {s : Style} {sql e e' : Text} {os os' : List Piece}

theorem head?_gap (h : Laid s (tokenize d sql) os) (h' : Laid s (tokenize d sql) os') :
    os.head?.map Piece.gap = os'.head?.map Piece.gap :=
  head?_gap_eq h.shows h'.shows h.first h'.first

theorem spans_eq (h : Laid s (tokenize d sql) os) (h' : Laid s (tokenize d sql) os')
    (hsame : Piece.render os ++ e = Piece.render os' ++ e') : spans os = spans os' := by
  refine Layout.spans_eq (hasCore_shows s) ?_ h.shows h'.shows h.blank h'.blank (h.head?_gap h') hsame
  intro u hu t ht
  obtain ⟨hmem, hvisible⟩ := List.mem_filter.mp hu
  exact ht.startsVisibly hmem (by simpa using hvisible)

end Laid

theorem exists_keepFinalNewline (sql text : Text) : ∃ e, keepFinalNewline sql text = text ++ e := by
  unfold keepFinalNewline
  split
  · exact ⟨_, rfl⟩
  · exact ⟨[], by simp⟩

/-- Two ways to find the tokens in the same layout find them in the same places. -/
theorem Laid.spans_eq_of_keepFinalNewline {d : Dialect} {s : Style} {sql : Text}
    {os os' : List Piece} (h : Laid s (tokenize d sql) os) (h' : Laid s (tokenize d sql) os')
    (hsame : keepFinalNewline sql (Piece.render os) = keepFinalNewline sql (Piece.render os')) :
    spans os = spans os' := by
  obtain ⟨e, he⟩ := exists_keepFinalNewline sql (Piece.render os)
  obtain ⟨e', he'⟩ := exists_keepFinalNewline sql (Piece.render os')
  rw [he, he'] at hsame
  exact h.spans_eq h' hsame

theorem Laid.sameSpans {d : Dialect} {s : Style} {sql : Text} {os os' : List Piece}
    (h : Laid s (tokenize d sql) os) (h' : Laid s (tokenize d sql) os')
    (hsame : keepFinalNewline sql (Piece.render os) = keepFinalNewline sql (Piece.render os')) :
    SameSpans (ShownAlike s) os os' :=
  sameSpans_of_spans (forall₂_shownAlike h.shows h'.shows) (h.spans_eq_of_keepFinalNewline h' hsame)

end SqlLayout.Layout
