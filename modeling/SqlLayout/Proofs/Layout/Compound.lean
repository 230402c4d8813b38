import SqlLayout.Proofs.Layout.Passes

/-!
# Compounds spell their tokens

Joining compounds makes one token out of a block of neighbours (`Compound`).  `Spells Compound fs cs`
says that the tokens `cs` come from the finer list `fs` that way.  Joining changes no text, and an edit
of the joined list is an edit of the finer one (`Spells.edits`), so a layout of compounds can be
read as edits of the tokens that they were made of.
-/

namespace SqlLayout.Layout

/-- `Compound b t`: the token `t` spells the neighbours `b`. -/
inductive Compound : List Token → Token → Prop
  | one (t : Token) : Compound [t] t
  | clause (a b c : Token) (first : a.kind = .keyword) (space : b.isSpace = true)
      (blank : b.text = [' ']) (second : c.kind = .keyword) :
      Compound [a, b, c] (a.withText (a.text ++ ' ' :: c.text))
  | outerJoin (a b c : Token) (first : a.isSymbol ['('] = true) (middle : b.isSymbol ['+'] = true)
      (last : c.isSymbol [')'] = true) : Compound [a, b, c] (a.withText ['(', '+', ')'])
  | angled (a b c : Token) (first : a.isSymbol ['<'] = true) (middle : b.kind = .name)
      (last : c.isSymbol ['>'] = true) :
      Compound [a, b, c] (a.withText (a.text ++ b.text ++ c.text))

/-- `Spells B fs cs`: every token of `cs` stands for a block of `fs`, in order; `B` says which
blocks a token may stand for. -/
inductive Spells (B : List Token → Token → Prop) : List Token → List Token → Prop
  | nil : Spells B [] []
  | cons {b fs : List Token} {t : Token} {cs : List Token} (block : B b t)
      (rest : Spells B fs cs) : Spells B (b ++ fs) (t :: cs)

theorem kind_of_isSymbol {t : Token} {symbol : Text} (h : t.isSymbol symbol = true) :
    t.kind = .symbol := by
  simp only [Token.isSymbol, Bool.and_eq_true, beq_iff_eq] at h
  exact h.1

theorem text_of_isSymbol {t : Token} {symbol : Text} (h : t.isSymbol symbol = true) :
    t.text = symbol := by
  simp only [Token.isSymbol, Bool.and_eq_true, beq_iff_eq] at h
  exact h.2

namespace Compound

theorem concat {b : List Token} {t : Token} (h : Compound b t) : Token.concat b = t.text := by
  cases h with
  | one t => simp [Token.concat]
  | clause a b c first space blank second => simp [Token.concat, Token.withText, blank]
  | outerJoin a b c first middle last =>
    simp [Token.concat, Token.withText, text_of_isSymbol first, text_of_isSymbol middle,
      text_of_isSymbol last]
  | angled a b c first middle last => simp [Token.concat, Token.withText]

/-- A compound starts with a token of its own class. -/
theorem exists_first {b : List Token} {t : Token} (h : Compound b t) :
    ∃ a rest, b = a :: rest ∧ a.kind = t.kind := by
  cases h <;> exact ⟨_, _, rfl, rfl⟩

/-- A compound ends with a token of its own class. -/
theorem exists_last {b : List Token} {t : Token} (h : Compound b t) :
    ∃ front z, b = front ++ [z] ∧ z.kind = t.kind := by
  cases h with
  | one => exact ⟨[], t, rfl, rfl⟩
  | clause a b c first space blank second => exact ⟨[a, b], c, rfl, second.trans first.symm⟩
  | outerJoin a b c first middle last =>
    exact ⟨[a, b], c, rfl, (kind_of_isSymbol last).trans (kind_of_isSymbol first).symm⟩
  | angled a b c first middle last =>
    exact ⟨[a, b], c, rfl, (kind_of_isSymbol last).trans (kind_of_isSymbol first).symm⟩

/-- Only keywords and symbols spell more than themselves. -/
theorem eq_of_kind {b : List Token} {t : Token} (h : Compound b t) (hkeyword : t.kind ≠ .keyword)
    (hsymbol : t.kind ≠ .symbol) : b = [t] := by
  cases h with
  | one => rfl
  | clause a b c first space blank second => exact absurd first hkeyword
  | outerJoin a b c first middle last => exact absurd (kind_of_isSymbol first) hsymbol
  | angled a b c first middle last => exact absurd (kind_of_isSymbol first) hsymbol

theorem eq_of_isSpace {b : List Token} {t : Token} (h : Compound b t) (hspace : t.isSpace = true) :
    b = [t] := by
  have hkind : t.kind = .space := by simpa [Token.isSpace] using hspace
  exact h.eq_of_kind (by simp [hkind]) (by simp [hkind])

/-- A mark at the end of a block, or at the start of one, is the whole block. -/
theorem eq_of_opensComment {b c : List Token} {p t z a : Token} (hp : Compound b p)
    (ht : Compound c t) (hz : b.getLast? = some z) (ha : c.head? = some a)
    (hopens : opensComment z a = true) : z = p ∧ a = t := by
  have hmark : ∀ x : Token, (x.kind = .keyword ∨ x.isSymbol ['('] = true ∨ x.isSymbol [')'] = true ∨
      x.isSymbol ['<'] = true ∨ x.isSymbol ['>'] = true) → ¬ (z = x ∨ a = x) := by
    rintro x hx hsame
    simp only [opensComment, Token.isSymbol, Bool.or_eq_true, Bool.and_eq_true, beq_iff_eq]
      at hopens hx
    rcases hsame with rfl | rfl <;> rcases hopens with h | h <;> simp_all
  constructor
  · cases hp with
    | one => simpa using hz.symm
    | clause x y w first space blank second =>
      exact absurd (.inl (by simpa using hz.symm)) (hmark w (.inl second))
    | outerJoin x y w first middle last =>
      exact absurd (.inl (by simpa using hz.symm)) (hmark w (.inr (.inr (.inl last))))
    | angled x y w first middle last =>
      exact absurd (.inl (by simpa using hz.symm)) (hmark w (.inr (.inr (.inr (.inr last)))))
  · cases ht with
    | one => simpa using ha.symm
    | clause x y w first space blank second =>
      exact absurd (.inr (by simpa using ha.symm)) (hmark x (.inl first))
    | outerJoin x y w first middle last =>
      exact absurd (.inr (by simpa using ha.symm)) (hmark x (.inr (.inl first)))
    | angled x y w first middle last =>
      exact absurd (.inr (by simpa using ha.symm)) (hmark x (.inr (.inr (.inr (.inl first)))))

end Compound

namespace Spells

variable {B : List Token → Token → Prop}

theorem append {fl fr l r : List Token} (hl : Spells B fl l) (hr : Spells B fr r) :
    Spells B (fl ++ fr) (l ++ r) := by
  induction hl with
  | nil => exact hr
  | cons block _ ih =>
    rw [List.append_assoc]
    exact .cons block ih

theorem exists_append {fs l r : List Token} (h : Spells B fs (l ++ r)) :
    ∃ fl fr, fs = fl ++ fr ∧ Spells B fl l ∧ Spells B fr r := by
  induction l generalizing fs with
  | nil => exact ⟨[], fs, rfl, .nil, h⟩
  | cons t l ih =>
    cases h with
    | cons block rest =>
      obtain ⟨fl, fr, rfl, hl, hr⟩ := ih rest
      exact ⟨_, fr, (List.append_assoc _ _ _).symm, .cons block hl, hr⟩

/-- Blocks that read like their tokens leave the text as it is. -/
theorem concat (hB : ∀ b t, B b t → Token.concat b = t.text) {fs cs : List Token}
    (h : Spells B fs cs) : Token.concat fs = Token.concat cs := by
  induction h with
  | nil => rfl
  | cons block _ ih =>
    have hblock := hB _ _ block
    simp only [Token.concat, List.flatMap_append, List.flatMap_cons] at hblock ih ⊢
    rw [hblock, ih]

/-- A token that stands for tokens which are not blank is not blank. -/
theorem solid (hB : ∀ b t, B b t → Token.concat b = t.text)
    (hfirst : ∀ b t, B b t → ∃ a rest, b = a :: rest ∧ a.kind = t.kind) {fs cs : List Token}
    (h : Spells B fs cs) (hfs : Solid fs) : Solid cs := by
  induction h with
  | nil => simp [Solid]
  | @cons b fs t cs block rest ih =>
    have hrest : Solid fs := fun x hx => hfs x (by simp [hx])
    refine List.forall_mem_cons.mpr ⟨fun hvisible => ?_, ih hrest⟩
    obtain ⟨a, more, rfl, hkind⟩ := hfirst _ _ block
    have ha : Text.allBlank a.text = false := by
      refine hfs a (by simp) ?_
      simpa [Token.isSpace, hkind] using hvisible
    rw [← hB _ _ block]
    simp [Token.concat, Text.allBlank_append, ha]

theorem gaps {fs cs : List Token} (h : Spells Compound fs cs) (hfs : Gaps fs) : Gaps cs := by
  induction h with
  | nil => simp [Gaps]
  | @cons b fs t cs block rest ih =>
    have hrest : Gaps fs := fun x hx => hfs x (by simp [hx])
    refine List.forall_mem_cons.mpr ⟨fun hspace => ?_, ih hrest⟩
    obtain rfl := block.eq_of_isSpace hspace
    exact hfs t (by simp) hspace

/-- An edit of the joined tokens is an edit of the tokens that they spell, or none at all. -/
theorem edit {s : Style} {fs cs cs' : List Token} (h : Spells Compound fs cs) (hedit : Edit s cs cs') :
    ∃ fs', Edits s fs fs' ∧ Spells Compound fs' cs' := by
  cases hedit with
  | retext l r t g space gap =>
    obtain ⟨fl, ft, rfl, hl, ht⟩ := h.exists_append
    cases ht with
    | cons compound hr =>
      obtain rfl := compound.eq_of_isSpace space
      refine ⟨_, .single (.retext fl _ t g space gap), ?_⟩
      exact hl.append (.cons (.one (t.withText g)) hr)
  | insert l r p t g offset gap apart =>
    obtain ⟨fl, fp, rfl, hl, hp⟩ := h.exists_append
    cases hp with
    | cons before hp =>
      cases hp with
      | cons behind hr =>
        obtain ⟨bl, z, rfl, -⟩ := before.exists_last
        obtain ⟨a, br, rfl, -⟩ := behind.exists_first
        have hopens : opensComment z a = true → s.isDelimiter z.text = true := by
          intro hopens
          obtain ⟨rfl, rfl⟩ := before.eq_of_opensComment behind (by simp) rfl hopens
          exact apart hopens
        refine ⟨_, .single ?_, hl.append (.cons before (.cons (.one (Token.space g offset))
          (.cons behind hr)))⟩
        simpa using Edit.insert (s := s) (fl ++ bl) (br ++ _) z a g offset gap hopens
  | settle l r t =>
    by_cases hcomment : t.kind = .comment
    · obtain ⟨fl, ft, rfl, hl, ht⟩ := h.exists_append
      cases ht with
      | cons compound hr =>
        obtain rfl := compound.eq_of_kind (by simp [hcomment]) (by simp [hcomment])
        exact ⟨_, .single (.settle fl _ t), hl.append (.cons (.one (Layout.settle t)) hr)⟩
    · rw [settle_of_kind_ne hcomment]
      exact ⟨fs, .refl _, h⟩
  | dropAfter l r p t absorbs space =>
    obtain ⟨fl, fp, rfl, hl, hp⟩ := h.exists_append
    cases hp with
    | cons before hp =>
      cases hp with
      | cons behind hr =>
        obtain ⟨bl, z, rfl, hkind⟩ := before.exists_last
        obtain rfl := behind.eq_of_isSpace space
        have hz : absorbsSpace z = true := by simpa [absorbsSpace, hkind] using absorbs
        refine ⟨_, .single ?_, hl.append (.cons before hr)⟩
        simpa using Edit.dropAfter (s := s) (fl ++ bl) _ z t hz space
  | dropBefore l r t n space absorbs =>
    obtain ⟨fl, ft, rfl, hl, ht⟩ := h.exists_append
    cases ht with
    | cons before ht =>
      cases ht with
      | cons behind hr =>
        obtain rfl := before.eq_of_isSpace space
        obtain ⟨a, br, rfl, hkind⟩ := behind.exists_first
        have ha : absorbsSpace a = true := by simpa [absorbsSpace, hkind] using absorbs
        refine ⟨_, .single ?_, hl.append (.cons behind hr)⟩
        simpa using Edit.dropBefore (s := s) fl (br ++ _) t a space ha

theorem edits {s : Style} {fs cs cs' : List Token} (h : Spells Compound fs cs) (hedits : Edits s cs cs') :
    ∃ fs', Edits s fs fs' ∧ Spells Compound fs' cs' := by
  induction hedits with
  | refl => exact ⟨fs, .refl _, h⟩
  | tail _ hedit ih =>
    obtain ⟨mid, hmid, hspells⟩ := ih
    obtain ⟨fs', hfs', hspells'⟩ := hspells.edit hedit
    exact ⟨fs', hmid.trans hfs', hspells'⟩

end Spells

theorem compound_of_glue? {a b c t : Token} (h : glue? a b c = some t)
    (hblank : b.isSpace = true → b.text = [' ']) : Compound [a, b, c] t := by
  unfold glue? at h
  split at h
  · next hclause =>
    cases h
    simp only [Bool.and_eq_true, decide_eq_true_eq] at hclause
    obtain ⟨⟨⟨hfirst, hspace⟩, hsecond⟩, -⟩ := hclause
    exact .clause a b c hfirst hspace (hblank hspace) hsecond
  · split at h
    · next hjoin =>
      cases h
      simp only [Bool.and_eq_true] at hjoin
      exact .outerJoin a b c hjoin.1.1 hjoin.1.2 hjoin.2
    · split at h
      · next hangled =>
        cases h
        simp only [Bool.and_eq_true, decide_eq_true_eq] at hangled
        exact .angled a b c hangled.1.1 hangled.1.2 hangled.2
      · cases h

/-- Joined compounds spell the tokens they were joined from. -/
theorem spells_glueCompounds (ts : List Token)
    (hblank : ∀ t ∈ ts, t.isSpace = true → t.text = [' ']) : Spells Compound ts (glueCompounds ts) := by
  fun_induction glueCompounds ts with
  | case1 a b c ts t hglue ih =>
    have hcompound : Compound [a, b, c] t := compound_of_glue? hglue (hblank b (by simp))
    exact .cons hcompound (ih fun x hx => hblank x (by simp [hx]))
  | case2 a b c ts hglue ih =>
    exact .cons (Compound.one a) (ih fun x hx => hblank x (List.mem_cons_of_mem a hx))
  | case3 ts hshort =>
    match ts with
    | [] => exact .nil
    | [a] => exact .cons (Compound.one a) .nil
    | [a, b] => exact .cons (Compound.one a) (.cons (Compound.one b) .nil)
    | a :: b :: c :: ts => exact absurd rfl (hshort a b c ts)

end SqlLayout.Layout
