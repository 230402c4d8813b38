import SqlLayout.Proofs.Layout.TwinPasses

/-!
# What a layout does not see

Two texts with the same outline, which is what their tokens are once white space that nothing needs
is gone, have the same layout (`format_eq_of_outline`): neither the white space of a text nor the
place of a token in it decides anything.  Two texts that differ by ASCII case have tokens of the same
classes at the same places and layouts that differ by ASCII case (`format_asciiCase`).
-/

namespace SqlLayout.Layout

variable {d : Dialect} {s : Style}

/-! ## Outlines -/

/-- Whether white space next to the token says anything. -/
def isWordlike (t : Token) : Bool := t.kind != .symbol && t.kind != .comment

/-- The outline of tokens with `p` in front of them. -/
def outlineAfter (p : Option Token) : List Token → List (TokenKind × Text)
  | [] => []
  | t :: ts =>
    if t.isSpace then
      if p.any isWordlike && ts.head?.any isWordlike then (.space, [' ']) :: outlineAfter (some t) ts
      else outlineAfter (some t) ts
    else (t.kind, t.text) :: outlineAfter (some t) ts

/-- The classes and texts of tokens, without white space at the ends or next to a symbol or a comment
and with one blank for any other. -/
def outline (ts : List Token) : List (TokenKind × Text) := outlineAfter none ts

theorem absorbsSpace_eq (t : Token) : absorbsSpace t = !isWordlike t := by
  simp [absorbsSpace, isWordlike, bne]

theorem outlineAfter_eq {n : Token} (hn : n.isSpace = false) (p q : Option Token) (ns : List Token) :
    outlineAfter p (n :: ns) = outlineAfter q (n :: ns) := by
  simp [outlineAfter, hn]

theorem dropTrailingSpace_cons {t : Token} {ts : List Token} (h : t.isSpace = false ∨ ts ≠ []) :
    dropTrailingSpace (t :: ts) = t :: dropTrailingSpace ts := by
  cases ts with
  | nil =>
    have ht : t.isSpace = false := h.resolve_right (by simp)
    simp [dropTrailingSpace, ht]
  | cons n ns =>
    rw [dropTrailingSpace, dropTrailingSpace, List.getLast?_cons_cons, List.dropLast_cons_cons]
    split <;> rfl

/-- Behind a token that is no white space, the outline is what the reduction of white space leaves. -/
theorem outlineAfter_some (p : Token) (ts : List Token) (hp : p.isSpace = false)
    (hts : Spaced (p :: ts)) : outlineAfter (some p) ts =
      (collapseAfter (absorbsSpace p) (dropTrailingSpace ts)).map fun t => (t.kind, t.text) := by
  induction ts generalizing p with
  | nil => rfl
  | cons t ts ih =>
    cases ht : t.isSpace with
    | false =>
      rw [dropTrailingSpace_cons (.inl ht), collapseAfter, outlineAfter, ht, ih t ht hts.tail]
      rfl
    | true =>
      cases ts with
      | nil => simp [outlineAfter, dropTrailingSpace, ht, collapseAfter]
      | cons n ns =>
        have hn : n.isSpace = false := (List.isChain_cons.mp hts.tail).1 n (by simp) ht
        have hshort : Spaced (p :: n :: ns) :=
          List.isChain_cons_cons.mpr ⟨fun _ => hn, hts.tail.tail⟩
        have hrest := ih p hp hshort
        have hkind : t.kind = .space := by simpa [Token.isSpace] using ht
        rw [outlineAfter_eq hn (some p) (some t)] at hrest
        rw [dropTrailingSpace_cons (.inl hn)] at hrest
        rw [collapseAfter_eq (by simpa using hn) (absorbsSpace p) false] at hrest
        rw [dropTrailingSpace_cons (.inr (by simp)), dropTrailingSpace_cons (.inl hn), collapseAfter,
          outlineAfter, ht, hrest, absorbsSpace_eq]
        cases hfirst : isWordlike p <;> cases hsecond : isWordlike n <;>
          simp [hfirst, hsecond, absorbsSpace_eq, Token.withText, hkind]

/-- The outline of a text is what the reduction of white space leaves of its tokens. -/
theorem outline_tokenize (d : Dialect) (sql : Text) :
    outline (tokenize d sql) = (reduced d sql).map fun t => (t.kind, t.text) := by
  have visible : ∀ (p : Option Token) (ts : List Token), (∀ t ∈ ts.head?, t.isSpace = false) →
      Spaced ts → outlineAfter p ts =
        (collapse (dropTrailingSpace ts)).map fun t => (t.kind, t.text) := by
    intro p ts hhead hts
    cases ts with
    | nil => rfl
    | cons t ts =>
      have ht : t.isSpace = false := hhead t (by simp)
      rw [outlineAfter, ht, outlineAfter_some t ts ht hts, dropTrailingSpace_cons (.inl ht), collapse,
        collapseAfter, ht]
      rfl
  have hspaced := spaced_tokenize d sql
  rw [outline, reduced, trimEdges]
  generalize tokenize d sql = ts at hspaced
  cases ts with
  | nil => rfl
  | cons t ts =>
    cases ht : t.isSpace with
    | false =>
      have hfirst : dropLeadingSpace (t :: ts) = t :: ts := by simp [dropLeadingSpace, ht]
      rw [hfirst]
      exact visible none (t :: ts) (by simpa using ht) hspaced
    | true =>
      have hfirst : dropLeadingSpace (t :: ts) = ts := by simp [dropLeadingSpace, ht]
      have hnext : ∀ n ∈ ts.head?, n.isSpace = false :=
        fun n hn => (List.isChain_cons.mp hspaced).1 n hn ht
      rw [hfirst, ← visible (some t) ts hnext hspaced.tail, outlineAfter, ht]
      rfl

/-! ## Twins of two texts -/

/-- Lists that look the same through `f` are the sides of a list of twins. -/
theorem exists_twins {α : Type} {f : Token → α} {xs ys : List Token} (h : xs.map f = ys.map f) :
    ∃ zs : List Twin, zs.map Twin.left = xs ∧ zs.map Twin.right = ys ∧
      ∀ z ∈ zs, f z.right = f z.left := by
  induction xs generalizing ys with
  | nil =>
    obtain rfl : ys = [] := by simpa using h.symm
    exact ⟨[], rfl, rfl, by simp⟩
  | cons x xs ih =>
    obtain ⟨y, ys', rfl, hy, hys⟩ := List.map_eq_cons_iff.mp h.symm
    obtain ⟨zs, rfl, rfl, hzs⟩ := ih hys.symm
    exact ⟨⟨x, y⟩ :: zs, rfl, rfl, List.forall_mem_cons.mpr ⟨hy, hzs⟩⟩

/-- A view of texts that goes along with what a layout does to them, and shows at least what a layout
looks at. -/
structure IsView (k : KeywordCase) (f : Text → Text) : Prop where
  append : ∀ a b, f (a ++ b) = f a ++ f b
  trimEnd : ∀ a, f (Text.trimEnd a) = Text.trimEnd (f a)
  isLineComment : ∀ a, Dialect.isLineComment (f a) = Dialect.isLineComment a
  apply : ∀ a b, f a = f b → f (k.apply a) = f (k.apply b)
  lower : ∀ a b, f a = f b → Text.asciiLower a = Text.asciiLower b

theorem isView_id (k : KeywordCase) : IsView k id where
  append _ _ := rfl
  trimEnd _ := rfl
  isLineComment _ := rfl
  apply _ _ h := congrArg k.apply h
  lower _ _ h := congrArg Text.asciiLower h

theorem isView_asciiLower (k : KeywordCase) : IsView k Text.asciiLower where
  append := Text.asciiLower_append
  trimEnd a := (Text.trimEnd_asciiLower a).symm
  isLineComment := Dialect.isLineComment_asciiLower
  apply a b h := by
    rw [← Text.asciiLower_apply_asciiLower, h, Text.asciiLower_apply_asciiLower]
  lower _ _ h := h

/-- Twins of one class that look the same. -/
def LookAlike (f : Text → Text) (zs : List Twin) : Prop :=
  ∀ z ∈ zs, z.right.kind = z.left.kind ∧ f z.right.text = f z.left.text

section Views

variable {f : Text → Text} (hview : IsView s.keywordCase f)

include hview

theorem LookAlike.concat {zs : List Twin} (h : LookAlike f zs) :
    f (Token.concat (zs.map Twin.right)) = f (Token.concat (zs.map Twin.left)) := by
  induction zs with
  | nil => rfl
  | cons z zs ih =>
    obtain ⟨hz, hzs⟩ := List.forall_mem_cons.mp h
    rw [concat_map_cons, concat_map_cons, hview.append, hview.append, hz.2, ih hzs]

/-- Edited twins look the same if they did before. -/
theorem LookAlike.edit {a b : List Twin} (hedit : TwinEdit s s a b) (ha : LookAlike f a) :
    LookAlike f b := by
  unfold LookAlike at *
  cases hedit with
  | retext l r z g space =>
    simp only [List.forall_mem_append, List.forall_mem_cons] at ha ⊢
    exact ⟨ha.1, ⟨ha.2.1.1, rfl⟩, ha.2.2⟩
  | insert l r z g =>
    simp only [List.forall_mem_append, List.forall_mem_cons] at ha ⊢
    exact ⟨ha.1, ⟨rfl, rfl⟩, ha.2⟩
  | settle l r z =>
    simp only [List.forall_mem_append, List.forall_mem_cons] at ha ⊢
    obtain ⟨hl, ⟨hkind, htext⟩, hr⟩ := ha
    have hline : isLineComment z.right = isLineComment z.left := by
      rw [isLineComment, isLineComment, hkind, ← hview.isLineComment, htext, hview.isLineComment]
    refine ⟨hl, ⟨by simp [Twin.settle, kind_settle, hkind], ?_⟩, hr⟩
    simp only [Twin.settle, settle, hline]
    split
    · simp only [Token.withText, hview.trimEnd, htext]
    · exact htext
  | drop l r z space =>
    simp only [List.forall_mem_append, List.forall_mem_cons] at ha ⊢
    exact ⟨ha.1, ha.2.2⟩
  | join l r z zs visible plain =>
    simp only [List.forall_mem_append, List.forall_mem_cons] at ha ⊢
    obtain ⟨hl, hz, hzs, hr⟩ := ha
    have hjoined : LookAlike f (z :: zs) := List.forall_mem_cons.mpr ⟨hz, hzs⟩
    exact ⟨hl, ⟨hz.1, hjoined.concat hview⟩, hr⟩

/-- Texts whose reduced tokens look the same have layouts that look the same. -/
theorem format_lookAlike {sql sql' : Text} (hfinal : Text.endsWith sql' '\n' = Text.endsWith sql '\n')
    (hreduced : (reduced d sql).map (fun t => (t.kind, f t.text)) =
      (reduced d sql').map fun t => (t.kind, f t.text)) :
    (format d s sql').map f = (format d s sql).map f := by
  obtain ⟨zs, hleft, hright, hsame⟩ := exists_twins hreduced
  have hlook : ∀ z ∈ zs, z.right.kind = z.left.kind ∧ f z.right.text = f z.left.text := by
    simpa using hsame
  have hrecased : LookAlike f (zs.map (Twin.recase s s)) := by
    intro y hy
    obtain ⟨z, hz, rfl⟩ := List.mem_map.mp hy
    obtain ⟨hkind, htext⟩ := hlook z hz
    refine ⟨by simp [Twin.recase, kind_recase, hkind], ?_⟩
    simp only [Twin.recase, recase, hkind]
    split
    · exact hview.apply _ _ htext
    · exact htext
  obtain ⟨r, hformat, hformat', hr⟩ := exists_twins_format rfl (fun level => rfl) hleft hright
    (fun z hz => (hlook z hz).1)
    (fun z hz _ => hview.lower _ _ (hrecased _ (List.mem_map_of_mem hz)).2)
  rw [hformat, hformat']
  cases r with
  | none => rfl
  | some fs =>
    obtain ⟨hedits, hkindred⟩ := hr fs rfl
    have hconcat := (hedits.preserves (LookAlike.edit hview) hrecased).concat hview
    have hends := endsWith_concat hkindred
    simp only [Option.map_some, keepFinalNewline, hfinal, hends]
    split
    · rw [hview.append, hview.append, hconcat]
    · rw [hconcat]

end Views

/-! ## Layouts of two texts -/

/-- The layout of a text is told by its outline, and by whether it ends in a line feed. -/
theorem format_eq_of_outline (d : Dialect) (s : Style) {sql sql' : Text}
    (hfinal : Text.endsWith sql '\n' = Text.endsWith sql' '\n')
    (houtline : outline (tokenize d sql) = outline (tokenize d sql')) :
    format d s sql = format d s sql' := by
  rw [outline_tokenize, outline_tokenize] at houtline
  have hlook := format_lookAlike (isView_id s.keywordCase) hfinal houtline.symm
  simpa using hlook

theorem format_eq_of_outline_spread :
    outline (tokenize (Dialect.empty.register .keyword "select".toList) "select  a ,\n b\n".toList) =
        outline (tokenize (Dialect.empty.register .keyword "select".toList) " select a,b \n".toList) ∧
      format (Dialect.empty.register .keyword "select".toList) .default "select  a ,\n b\n".toList =
        format (Dialect.empty.register .keyword "select".toList) .default " select a,b \n".toList := by
  have houtline : outline (tokenize (Dialect.empty.register .keyword "select".toList)
      "select  a ,\n b\n".toList) = outline (tokenize (Dialect.empty.register .keyword "select".toList)
      " select a,b \n".toList) := by decide +kernel
  exact ⟨houtline, format_eq_of_outline _ .default (by decide) houtline⟩

theorem map_asciiLower_reduced (d : Dialect) (sql : Text) :
    (reduced d sql).map Token.asciiLower = reduced d (Text.asciiLower sql) := by
  have hkind : ∀ t : Token, t.asciiLower.kind = t.kind := fun _ => rfl
  rw [reduced, reduced, tokenize_asciiLower, map_trimEdges hkind]
  exact (map_collapseAfter hkind (fun _ _ => rfl) false _).symm

/-- Texts that differ by ASCII case have tokens of the same classes at the same places and layouts
that differ by ASCII case, or none. -/
theorem format_asciiCase (d : Dialect) (s : Style) {sql sql' : Text}
    (h : Text.asciiLower sql = Text.asciiLower sql') :
    (tokenize d sql).map (fun t => (t.kind, t.offset)) =
        (tokenize d sql').map (fun t => (t.kind, t.offset)) ∧
      (format d s sql).map Text.asciiLower = (format d s sql').map Text.asciiLower := by
  constructor
  · have htokens := congrArg (fun ts => ts.map fun t : Token => (t.kind, t.offset))
      (congrArg (tokenize d) h)
    simpa [tokenize_asciiLower, Function.comp_def, Token.asciiLower, Token.withText] using htokens
  · refine format_lookAlike (isView_asciiLower s.keywordCase) ?_ ?_
    · rw [← Text.endsWith_asciiLower (by decide), h, Text.endsWith_asciiLower (by decide)]
    · have hreduced : (reduced d sql').map Token.asciiLower = (reduced d sql).map Token.asciiLower := by
        rw [map_asciiLower_reduced, map_asciiLower_reduced, h]
      have hviews := congrArg (fun ts => ts.map fun t : Token => (t.kind, t.text)) hreduced
      simpa [Function.comp_def, Token.asciiLower, Token.withText] using hviews

theorem format_asciiCase_join :
    Text.asciiLower "Select 1E5 From a Left JOIN b".toList =
        Text.asciiLower "sELECT 1e5 fROM A left join B".toList ∧
      (tokenize .standard "Select 1E5 From a Left JOIN b".toList).map (fun t => (t.kind, t.offset)) =
        (tokenize .standard "sELECT 1e5 fROM A left join B".toList).map (fun t => (t.kind, t.offset)) ∧
      (format .standard .default "Select 1E5 From a Left JOIN b".toList).map Text.asciiLower =
        (format .standard .default "sELECT 1e5 fROM A left join B".toList).map Text.asciiLower :=
  ⟨by decide, format_asciiCase .standard .default (by decide)⟩

end SqlLayout.Layout
