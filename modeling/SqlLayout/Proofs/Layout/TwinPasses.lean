import SqlLayout.Proofs.Layout.Normalized
import SqlLayout.Proofs.Layout.TwinWalk

/-!
# Two layouts side by side

The passes around the walk join the same tokens and fill the same gaps in two runs over akin tokens,
so two layouts are the two sides of one list of twins, or neither text has one
(`exists_twins_format`).

A pair of brackets that is compacted takes the white space between them along, if that is all they
hold.  The two tokens it becomes need not be the same up to case, but what is asked of them later is
answered by their brackets (`Kindred`).
-/

namespace SqlLayout.Layout

variable {d : Dialect} {s s' : Style}

/-! ## Compounds -/

theorem Akin.join {z : Twin} {zs : List Twin} (h : Akin s s' z) (hz : z.left.isSpace = false)
    (hsame : ∀ n ∈ zs, Text.asciiLower n.right.text = Text.asciiLower n.left.text) :
    Akin s s' (z.join zs) := by
  have hvisible : (z.join zs).left.isSpace = false := hz
  have hconcat : Text.asciiLower (Token.concat (zs.map Twin.right)) =
      Text.asciiLower (Token.concat (zs.map Twin.left)) := by
    induction zs with
    | nil => rfl
    | cons n ns ih =>
      obtain ⟨hn, hns⟩ := List.forall_mem_cons.mp hsame
      rw [concat_map_cons, concat_map_cons, Text.asciiLower_append, Text.asciiLower_append, hn,
        ih hns hz]
  refine ⟨h.kind, fun hspace => ?_, fun _ => ?_, fun _ => ?_⟩
  · rw [hvisible] at hspace
    cases hspace
  · simp only [Twin.join, Token.withText, concat_map_cons, Text.asciiLower_append, h.word hz, hconcat]
  · simp only [Twin.join, Token.withText, concat_map_cons, Text.allBlank_append, h.solid hz,
      Bool.false_and]

theorem visible_of_kind {z : Twin} {kind : TokenKind} (h : z.left.kind = kind) (hkind : kind ≠ .space) :
    z.left.isSpace = false := by
  simpa [Token.isSpace, h] using hkind

/-- Three twins are joined in both runs. -/
theorem exists_join {a b c : Twin} (ha : Akin s s' a) (hb : Akin s s' b) (hc : Akin s s' c)
    (hkind : a.left.kind = .symbol) (hvb : b.left.isSpace = false) (hvc : c.left.isSpace = false) :
    (a.join [b, c]).left.isSpace = false ∧ Akin s s' (a.join [b, c]) ∧
      ∀ r, TwinEdits s s' (a :: b :: c :: r) (a.join [b, c] :: r) := by
  have hva : a.left.isSpace = false := visible_of_kind hkind (by decide)
  refine ⟨hva, ha.join hva ?_, fun r => .single (.join [] r a [b, c] hva (by simp [hkind]))⟩
  simpa using ⟨hb.word hvb, hc.word hvc⟩

/-- Two keywords are joined with one blank between them in both runs. -/
theorem exists_join_clause {a b c : Twin} (ha : Akin s s' a) (hc : Akin s s' c)
    (hkind : a.left.kind = .keyword) (hspace : b.left.isSpace = true) (hvc : c.left.isSpace = false) :
    (a.join [b.withGap s s' .blank, c]).left.isSpace = false ∧
      Akin s s' (a.join [b.withGap s s' .blank, c]) ∧
      ∀ r, TwinEdits s s' (a :: b :: c :: r) (a.join [b.withGap s s' .blank, c] :: r) := by
  have hva : a.left.isSpace = false := visible_of_kind hkind (by decide)
  refine ⟨hva, ha.join hva ?_, fun r => ?_⟩
  · simpa [Twin.withGap, Gap.write, Token.withText] using hc.word hvc
  · refine (TwinEdits.single (.retext [a] (c :: r) b .blank hspace)).trans (.single ?_)
    exact .join [] r a [b.withGap s s' .blank, c] hva (by simp [hkind])

/-- Two keywords make a clause in both runs or in none. -/
theorem isCompoundClause_congr {a b c : Twin} (ha : Akin s s' a) (hb : Akin s s' b) (hc : Akin s s' c) :
    (a.right.kind = .keyword && b.right.isSpace && c.right.kind = .keyword &&
      isCompoundClause (Text.upper a.right.text) (Text.upper c.right.text)) =
    (a.left.kind = .keyword && b.left.isSpace && c.left.kind = .keyword &&
      isCompoundClause (Text.upper a.left.text) (Text.upper c.left.text)) := by
  rw [ha.kind, hb.isSpace, hc.kind]
  by_cases hka : a.left.kind = .keyword
  · by_cases hkc : c.left.kind = .keyword
    · rw [ha.upper (visible_of_kind hka (by decide)), hc.upper (visible_of_kind hkc (by decide))]
    · simp [hkc]
  · simp [hka]

/-- Three twins form a compound in both runs or in none. -/
theorem exists_glue? {a b c : Twin} (ha : Akin s s' a) (hb : Akin s s' b) (hc : Akin s s' c) :
    (glue? a.left b.left c.left = none ∧ glue? a.right b.right c.right = none) ∨
      ∃ z, glue? a.left b.left c.left = some z.left ∧ glue? a.right b.right c.right = some z.right ∧
        z.left.kind = a.left.kind ∧ z.left.isSpace = false ∧ Akin s s' z ∧
        ∀ r, TwinEdits s s' (a :: b :: c :: r) (z :: r) := by
  unfold glue?
  rw [isCompoundClause_congr ha hb hc, ha.isSymbol (w := ['(']) (by decide) (by decide),
    hb.isSymbol (w := ['+']) (by decide) (by decide), hc.isSymbol (w := [')']) (by decide) (by decide),
    ha.isSymbol (w := ['<']) (by decide) (by decide), hc.isSymbol (w := ['>']) (by decide) (by decide), hb.kind]
  split
  · next h =>
    simp only [Bool.and_eq_true, decide_eq_true_eq] at h
    obtain ⟨⟨⟨hka, hspace⟩, hkc⟩, -⟩ := h
    refine .inr ⟨a.join [b.withGap s s' .blank, c], ?_, ?_, rfl,
      exists_join_clause ha hc hka hspace (visible_of_kind hkc (by decide))⟩
    all_goals simp [Twin.join, Twin.withGap, Gap.write, Token.concat, Token.withText]
  · split
    · next h =>
      simp only [Bool.and_eq_true] at h
      obtain ⟨⟨hsa, hsb⟩, hsc⟩ := h
      have hra : a.right.isSymbol ['('] = true := (ha.isSymbol (by decide) (by decide)).trans hsa
      have hrb : b.right.isSymbol ['+'] = true := (hb.isSymbol (by decide) (by decide)).trans hsb
      have hrc : c.right.isSymbol [')'] = true := (hc.isSymbol (by decide) (by decide)).trans hsc
      refine .inr ⟨a.join [b, c], ?_, ?_, rfl, exists_join ha hb hc (kind_of_isSymbol hsa)
        (visible_of_kind (kind_of_isSymbol hsb) (by decide))
        (visible_of_kind (kind_of_isSymbol hsc) (by decide))⟩
      · simp [Twin.join, Token.concat, text_of_isSymbol hsa, text_of_isSymbol hsb, text_of_isSymbol hsc]
      · simp [Twin.join, Token.concat, text_of_isSymbol hra, text_of_isSymbol hrb, text_of_isSymbol hrc]
    · split
      · next h =>
        simp only [Bool.and_eq_true, decide_eq_true_eq] at h
        obtain ⟨⟨hsa, hkb⟩, hsc⟩ := h
        refine .inr ⟨a.join [b, c], ?_, ?_, rfl, exists_join ha hb hc (kind_of_isSymbol hsa)
          (visible_of_kind hkb (by decide)) (visible_of_kind (kind_of_isSymbol hsc) (by decide))⟩
        all_goals simp [Twin.join, Token.concat]
      · exact .inl ⟨rfl, rfl⟩

/-- Both runs join the same compounds. -/
theorem exists_twins_glueCompounds (zs : List Twin) (hakin : ∀ z ∈ zs, Akin s s' z) (htight : Tight zs) :
    ∃ gs, glueCompounds (zs.map Twin.left) = gs.map Twin.left ∧
      glueCompounds (zs.map Twin.right) = gs.map Twin.right ∧ TwinEdits s s' zs gs ∧
      (∀ z ∈ gs, Akin s s' z) ∧ Tight gs ∧
      gs.head?.map (fun z => z.left.kind) = zs.head?.map fun z => z.left.kind := by
  match zs with
  | [] | [a] | [a, b] => exact ⟨_, rfl, rfl, .refl _, hakin, htight, rfl⟩
  | a :: b :: c :: zs =>
    simp only [List.forall_mem_cons] at hakin
    obtain ⟨ha, hb, hc, hzs⟩ := hakin
    rcases exists_glue? ha hb hc with ⟨hleft, hright⟩ | ⟨z, hleft, hright, hkind, hvisible, hz, hedits⟩
    · have htail : ∀ n ∈ b :: c :: zs, Akin s s' n := by simpa using ⟨hb, hc, hzs⟩
      obtain ⟨gs, hgl, hgr, hge, hga, hgt, hgh⟩ := exists_twins_glueCompounds (b :: c :: zs) htail htight.tail
      refine ⟨a :: gs, ?_, ?_, hge.cons a, List.forall_mem_cons.mpr ⟨ha, hga⟩, ?_, rfl⟩
      · simp only [List.map_cons] at hgl ⊢
        rw [glueCompounds, hleft, hgl]
      · simp only [List.map_cons] at hgr ⊢
        rw [glueCompounds, hright, hgr]
      · refine List.isChain_cons.mpr ⟨fun n hn hspace => ?_, hgt⟩
        have hnb : n.left.kind = b.left.kind := by simpa [Option.mem_def.mp hn] using hgh
        rw [hnb]
        exact (List.isChain_cons.mp htight).1 b (by simp) hspace
    · obtain ⟨gs, hgl, hgr, hge, hga, hgt, -⟩ := exists_twins_glueCompounds zs hzs htight.tail.tail.tail
      refine ⟨z :: gs, ?_, ?_, (hedits zs).trans (hge.cons z), List.forall_mem_cons.mpr ⟨hz, hga⟩, ?_,
        by simp [hkind]⟩
      · simp only [List.map_cons]
        rw [glueCompounds, hleft, hgl]
      · simp only [List.map_cons]
        rw [glueCompounds, hright, hgr]
      · refine List.isChain_cons.mpr ⟨fun n _ hspace => ?_, hgt⟩
        rw [hvisible] at hspace
        cases hspace
termination_by zs.length

/-! ## Brackets around one token -/

/-- Twins that are akin, or two brackets with what stands between them. -/
inductive Kindred (s s' : Style) (z : Twin) : Prop
  | akin (akin : Akin s s' z)
  | bracketed (x y : Text) (left : z.left.text = '(' :: x ++ [')'])
      (right : z.right.text = '(' :: y ++ [')']) (symbol : z.left.kind = .symbol)
      (kind : z.right.kind = z.left.kind)

namespace Kindred

variable {z : Twin}

theorem kind (h : Kindred s s' z) : z.right.kind = z.left.kind := by
  cases h with
  | akin h => exact h.kind
  | bracketed x y left right symbol kind => exact kind

theorem isSpace (h : Kindred s s' z) : z.right.isSpace = z.left.isSpace := by
  rw [Token.isSpace, Token.isSpace, h.kind]

theorem not_blank_bracketed {t : Token} {x : Text} (h : t.text = '(' :: x ++ [')']) :
    t.isBlank = false := by
  have hblank : Text.isBlank '(' = false := by decide
  simp [Token.isBlank, h, Text.allBlank, hblank]

theorem isBlank (h : Kindred s s' z) : z.right.isBlank = z.left.isBlank := by
  cases h with
  | akin h => exact h.isBlank
  | bracketed x y left right symbol kind =>
    rw [not_blank_bracketed left, not_blank_bracketed right]

/-- Whatever looks like white space is white space. -/
theorem isSpace_of_isBlank (h : Kindred s s' z) (hblank : z.left.isBlank = true) :
    z.left.isSpace = true := by
  cases h with
  | akin h =>
    cases hspace : z.left.isSpace with
    | true => rfl
    | false => exact absurd ((h.solid hspace).symm.trans hblank) (by decide)
  | bracketed x y left right symbol kind =>
    rw [not_blank_bracketed left] at hblank
    cases hblank

theorem isSymbol_close (h : Kindred s s' z) : z.right.isSymbol [')'] = z.left.isSymbol [')'] := by
  cases h with
  | akin h => exact h.isSymbol (by decide) (by decide)
  | bracketed x y left right symbol kind => simp [Token.isSymbol, left, right]

theorem isLineComment (h : Kindred s s' z) :
    Layout.isLineComment z.right = Layout.isLineComment z.left := by
  cases h with
  | akin h => exact h.isLineComment
  | bracketed x y left right symbol kind =>
    rw [isLineComment_of_kind_ne (t := z.left) (by simp [symbol]),
      isLineComment_of_kind_ne (t := z.right) (by simp [kind, symbol])]

theorem endsWith (h : Kindred s s' z) :
    Text.endsWith z.right.text '\n' = Text.endsWith z.left.text '\n' := by
  cases h with
  | akin h => exact h.endsWith
  | bracketed x y left right symbol kind =>
    rw [left, right, endsWith_append (by simp), endsWith_append (by simp)]

theorem isEmbedded (h : Kindred s s' z) : Layout.isEmbedded z.right = Layout.isEmbedded z.left := by
  cases h with
  | akin h =>
    rw [Layout.isEmbedded, Layout.isEmbedded, h.isSymbol (by decide) (by decide),
      h.isSymbol (by decide) (by decide)]
  | bracketed x y left right symbol kind =>
    rw [isEmbedded_eq_false (t := z.left) (by simp [left]) (by simp [left]),
      isEmbedded_eq_false (t := z.right) (by simp [right]) (by simp [right])]

theorem text_ne_nil (h : Kindred s s' z) : z.left.text ≠ [] ∧ z.right.text ≠ [] := by
  cases h with
  | akin h =>
    cases hspace : z.left.isSpace with
    | true =>
      obtain ⟨g, hleft, hright⟩ := h.gap hspace
      rw [hleft, hright]
      exact ⟨(g.isGap_write s).1, (g.isGap_write s').1⟩
    | false =>
      have hsolid := h.solid hspace
      have hword := h.word hspace
      refine ⟨?_, ?_⟩ <;> intro hnil <;> simp_all [Text.allBlank, Text.asciiLower]
  | bracketed x y left right symbol kind => simp [left, right]

end Kindred

/-- Both runs compact the same brackets at the front of a list. -/
theorem exists_compactFront {t : Twin} {zs : List Twin} (ht : Akin s s' t)
    (hzs : ∀ z ∈ zs, Kindred s s' z) :
    ∃ cs, compactFront (t.left :: zs.map Twin.left) = cs.map Twin.left ∧
      compactFront (t.right :: zs.map Twin.right) = cs.map Twin.right ∧
      TwinEdits s s' (t :: zs) cs ∧ ∀ z ∈ cs, Kindred s s' z := by
  have hsame : ∀ z ∈ t :: zs, Kindred s s' z := List.forall_mem_cons.mpr ⟨.akin ht, hzs⟩
  match zs with
  | [] | [b] | [b, c] | [b, c, d] => exact ⟨_, rfl, rfl, .refl _, hsame⟩
  | b :: c :: d :: e :: zs =>
    simp only [List.forall_mem_cons] at hzs
    obtain ⟨hb, hc, hd, he, hrest⟩ := hzs
    have hsingle : isSingleValue t.right b.right d.right e.right =
        isSingleValue t.left b.left d.left e.left := by
      rw [isSingleValue, isSingleValue, ht.isSymbol (by decide) (by decide), hb.isBlank, hd.isBlank,
        he.isSymbol_close]
    simp only [List.map_cons, compactFront, hsingle]
    split
    · next h =>
      simp only [isSingleValue, Bool.and_eq_true] at h
      obtain ⟨⟨⟨hopen, hleft⟩, hright⟩, hclose⟩ := h
      have hkind : t.left.kind = .symbol := kind_of_isSymbol hopen
      have hvisible : t.left.isSpace = false := by simp [Token.isSpace, hkind]
      have hopen' : t.right.isSymbol ['('] = true := (ht.isSymbol (by decide) (by decide)).trans hopen
      have hclose' : e.right.isSymbol [')'] = true := he.isSymbol_close.trans hclose
      have hjoin : (t.join [c, e]).left = t.left.withText ('(' :: c.left.text ++ [')']) ∧
          (t.join [c, e]).right = t.right.withText ('(' :: c.right.text ++ [')']) := by
        simp [Twin.join, Token.concat, text_of_isSymbol hopen, text_of_isSymbol hclose,
          text_of_isSymbol hopen', text_of_isSymbol hclose']
      refine ⟨t.join [c, e] :: zs, ?_, ?_, ?_, List.forall_mem_cons.mpr ⟨?_, hrest⟩⟩
      · rw [List.map_cons, hjoin.1]
      · rw [List.map_cons, hjoin.2]
      · have hdropb : TwinEdit s s' (t :: b :: c :: d :: e :: zs) (t :: c :: d :: e :: zs) :=
          .drop [t] (c :: d :: e :: zs) b (hb.isSpace_of_isBlank hleft)
        have hdropd : TwinEdit s s' (t :: c :: d :: e :: zs) (t :: c :: e :: zs) :=
          .drop [t, c] (e :: zs) d (hd.isSpace_of_isBlank hright)
        refine (TwinEdits.single hdropb).trans ((TwinEdits.single hdropd).trans (.single ?_))
        exact .join [] zs t [c, e] hvisible (by simp [hkind])
      · exact .bracketed c.left.text c.right.text (by rw [hjoin.1]; rfl) (by rw [hjoin.2]; rfl)
          hkind ht.kind
    · exact ⟨t :: b :: c :: d :: e :: zs, rfl, rfl, .refl _, hsame⟩

/-- Both runs compact the same brackets. -/
theorem exists_compact {zs : List Twin} (h : ∀ z ∈ zs, Akin s s' z) :
    ∃ cs, compact (zs.map Twin.left) = cs.map Twin.left ∧
      compact (zs.map Twin.right) = cs.map Twin.right ∧ TwinEdits s s' zs cs ∧
      ∀ z ∈ cs, Kindred s s' z := by
  induction zs with
  | nil => exact ⟨[], rfl, rfl, .refl _, by simp⟩
  | cons t ts ih =>
    obtain ⟨ht, hts⟩ := List.forall_mem_cons.mp h
    obtain ⟨rs, hleft, hright, hedits, hkindred⟩ := ih hts
    obtain ⟨cs, hleft', hright', hedits', hkindred'⟩ := exists_compactFront ht hkindred
    refine ⟨cs, ?_, ?_, (hedits.cons t).trans hedits', hkindred'⟩
    · rw [← hleft', ← hleft]
      rfl
    · rw [← hright', ← hright]
      rfl

/-! ## Gaps -/

/-- Both runs put the same gap between two neighbours. -/
theorem exists_gap? (hs : s'.delimiter = s.delimiter) {p t : Twin} (hp : Kindred s s' p)
    (ht : Kindred s s' t) : ∃ g : Option Gap,
      gap? s p.left t.left = g.map (Gap.write s) ∧ gap? s' p.right t.right = g.map (Gap.write s') := by
  have hblank : ∃ g : Option Gap,
      some [' '] = g.map (Gap.write s) ∧ some [' '] = g.map (Gap.write s') := ⟨some .blank, rfl, rfl⟩
  have hfeed : ∃ g : Option Gap,
      some ['\n'] = g.map (Gap.write s) ∧ some ['\n'] = g.map (Gap.write s') :=
    ⟨some (.line 0), rfl, rfl⟩
  have hnone : ∃ g : Option Gap, none = g.map (Gap.write s) ∧ none = g.map (Gap.write s') :=
    ⟨none, rfl, rfl⟩
  unfold gap?
  rw [hp.isSpace, ht.isSpace, hp.kind, ht.kind, hp.isLineComment, hp.endsWith, hp.isEmbedded,
    ht.isEmbedded]
  split
  · exact hnone
  · split
    · split
      · exact hfeed
      · exact hnone
    · cases ht with
      | akin ht =>
        have hcomma : t.right.text = [','] ↔ t.left.text = [','] :=
          ht.text_eq_iff (by decide) (by decide)
        rw [ht.startsWith '(' (by decide) (by decide), ht.isDelimiter hs]
        simp only [hcomma]
        repeat' split
        · exact hnone
        · exact hnone
        · exact hnone
        · exact hnone
        · exact hnone
        · exact hblank
      | bracketed x y left right symbol kind =>
        have hopen : ∀ x : Text, Text.startsWith ('(' :: x ++ [')']) ['('] = true := fun x => rfl
        rw [left, right, hopen x, hopen y]
        exact hnone

/-- Both runs fill the same gaps. -/
theorem exists_insertGaps (hs : s'.delimiter = s.delimiter) (zs : List Twin)
    (h : ∀ z ∈ zs, Kindred s s' z) :
    ∃ fs, insertGaps s (zs.map Twin.left) = fs.map Twin.left ∧
      insertGaps s' (zs.map Twin.right) = fs.map Twin.right ∧ TwinEdits s s' zs fs ∧
      ∀ z ∈ fs, Kindred s s' z := by
  match zs with
  | [] | [p] => exact ⟨_, rfl, rfl, .refl _, h⟩
  | p :: t :: zs =>
    obtain ⟨hp, hts⟩ := List.forall_mem_cons.mp h
    obtain ⟨fs, hleft, hright, hedits, hkindred⟩ := exists_insertGaps hs (t :: zs) hts
    obtain ⟨g, hgl, hgr⟩ := exists_gap? hs hp (hts t (by simp))
    simp only [List.map_cons] at hleft hright
    cases g with
    | none =>
      refine ⟨p :: fs, ?_, ?_, hedits.cons p, List.forall_mem_cons.mpr ⟨hp, hkindred⟩⟩
      · simp [insertGaps, hgl, hleft]
      · simp [insertGaps, hgr, hright]
    | some g =>
      have hnew : ∀ z ∈ t.newGap s s' g :: fs, Kindred s s' z :=
        List.forall_mem_cons.mpr ⟨.akin (.newGap s s' g t), hkindred⟩
      refine ⟨p :: t.newGap s s' g :: fs, ?_, ?_, ?_, List.forall_mem_cons.mpr ⟨hp, hnew⟩⟩
      · simp [insertGaps, hgl, hleft, Twin.newGap]
      · simp [insertGaps, hgr, hright, Twin.newGap]
      · exact (TwinEdits.single (.insert [p] (t :: zs) t g)).trans ((hedits.cons _).cons p)
termination_by zs.length

/-! ## Collapsed white space -/

theorem isSpace_of_kind {f : Token → Token} (hkind : ∀ t, (f t).kind = t.kind) (t : Token) :
    (f t).isSpace = t.isSpace := by
  rw [Token.isSpace, Token.isSpace, hkind]

/-- Reducing white space commutes with a change of texts that leaves collapsed white space alone. -/
theorem map_collapseAfter {f : Token → Token} (hkind : ∀ t, (f t).kind = t.kind)
    (hspace : ∀ t : Token, t.isSpace = true → f (t.withText [' ']) = (f t).withText [' '])
    (absorbed : Bool) (ts : List Token) :
    collapseAfter absorbed (ts.map f) = (collapseAfter absorbed ts).map f := by
  have hspaces := isSpace_of_kind hkind
  have habsorbs : ∀ t, absorbsSpace (f t) = absorbsSpace t :=
    fun t => by rw [absorbsSpace, absorbsSpace, hkind]
  have hnext : ∀ ts : List Token, (ts.map f).head?.any absorbsSpace = ts.head?.any absorbsSpace := by
    intro ts
    cases ts with
    | nil => rfl
    | cons n ns => exact habsorbs n
  induction ts generalizing absorbed with
  | nil => rfl
  | cons t ts ih =>
    rw [List.map_cons, collapseAfter, collapseAfter, hspaces, habsorbs, hnext, ih, ih]
    split
    · next ht =>
      split
      · rfl
      · rw [List.map_cons, hspace t ht]
    · rfl

theorem map_trimEdges {f : Token → Token} (hkind : ∀ t, (f t).kind = t.kind) (ts : List Token) :
    trimEdges (ts.map f) = (trimEdges ts).map f := by
  have hspaces := isSpace_of_kind hkind
  have hfirst : dropLeadingSpace (ts.map f) = (dropLeadingSpace ts).map f := by
    cases ts with
    | nil => rfl
    | cons t ts =>
      rw [List.map_cons, dropLeadingSpace, dropLeadingSpace, hspaces]
      split <;> rfl
  have hlast : ∀ us : List Token,
      (us.map f).getLast?.any Token.isSpace = us.getLast?.any Token.isSpace := by
    intro us
    rw [List.getLast?_map]
    cases us.getLast? with
    | none => rfl
    | some t => exact hspaces t
  rw [trimEdges, trimEdges, hfirst, dropTrailingSpace, dropTrailingSpace, hlast]
  split
  · rw [List.map_dropLast]
  · rfl

/-- The tokens of a text without the white space that the layout never looks at. -/
def reduced (d : Dialect) (sql : Text) : List Token := collapse (trimEdges (tokenize d sql))

theorem collapse_prepared (d : Dialect) (s : Style) (sql : Text) :
    collapse (prepared s (tokenize d sql)) = (reduced d sql).map (recase s) := by
  refine map_collapseAfter (kind_recase s) (fun t ht => ?_) false _
  have hkind : t.kind ≠ .keyword := by simp_all [Token.isSpace]
  rw [recase_of_kind_ne s hkind]
  exact recase_of_kind_ne (t := t.withText [' ']) s hkind

theorem text_of_mem_reduced {sql : Text} {t : Token} (ht : t ∈ reduced d sql)
    (hspace : t.isSpace = true) : t.text = [' '] :=
  text_of_mem_collapseAfter false _ t ht hspace

theorem mem_of_mem_reduced {sql : Text} {t : Token} (ht : t ∈ reduced d sql)
    (hvisible : t.isSpace = false) : t ∈ tokenize d sql := by
  rcases mem_collapseAfter ht with hspace | hmem
  · rw [hvisible] at hspace
    cases hspace
  · exact mem_of_mem_trimEdges hmem

theorem apart_reduced (d : Dialect) (sql : Text) : (reduced d sql).IsChain Apart :=
  apart_collapse (isChain_trimEdges (spaced_tokenize d sql)) (framed_trimEdges (spaced_tokenize d sql)).1

/-! ## Whole layouts -/

/-- The passes behind the reduction of white space, in both runs. -/
theorem exists_arrangement (hs : s'.delimiter = s.delimiter) (hlines : EmptyLinesAlike d s s')
    {zs : List Twin} (hakin : ∀ z ∈ zs, Akin s s' z) (htight : Tight zs) :
    ∃ r : Option (List Twin),
      (breakLines d s (glueCompounds (zs.map Twin.left))).map (fun ts => insertGaps s (compact ts)) =
          r.map (List.map Twin.left) ∧
        (breakLines d s' (glueCompounds (zs.map Twin.right))).map
            (fun ts => insertGaps s' (compact ts)) =
          r.map (List.map Twin.right) ∧
        ∀ fs ∈ r, TwinEdits s s' zs fs ∧ ∀ z ∈ fs, Kindred s s' z := by
  obtain ⟨gs, hleft, hright, hedits, hglued, hloose, -⟩ := exists_twins_glueCompounds zs hakin htight
  have hstart : Abreast d s s' (.start (gs.map Twin.left)) (.start (gs.map Twin.right)) ⟨[], gs⟩ :=
    ⟨⟨rfl, rfl, by simp, hglued⟩, rfl, hloose.callsAlike d, .inr rfl⟩
  obtain ⟨r, hwl, hwr, hwalked⟩ := hstart.run hs hlines
  rw [hleft, hright, breakLines, breakLines, hwl, hwr]
  cases r with
  | none => exact ⟨none, rfl, rfl, by simp⟩
  | some ws =>
    obtain ⟨hwedits, hwakin⟩ := hwalked ws rfl
    obtain ⟨cs, hcl, hcr, hcedits, hckindred⟩ := exists_compact hwakin
    obtain ⟨fs, hfl, hfr, hfedits, hfkindred⟩ := exists_insertGaps hs cs hckindred
    refine ⟨some fs, by simp [hcl, hfl], by simp [hcr, hfr], fun zs hzs => ?_⟩
    obtain rfl := Option.mem_some_iff.mp hzs
    exact ⟨hedits.trans (hwedits.trans (hcedits.trans hfedits)), hfkindred⟩

/-- Both tokens with their keyword case applied. -/
def Twin.recase (s s' : Style) (z : Twin) : Twin := ⟨Layout.recase s z.left, Layout.recase s' z.right⟩

theorem text_recase_of_mem_reduced {sql : Text} {t : Token} (ht : t ∈ reduced d sql)
    (hspace : t.isSpace = true) (s : Style) : (recase s t).text = [' '] := by
  have hplain : t.kind ≠ .keyword := by simp_all [Token.isSpace]
  rw [recase_of_kind_ne s hplain, text_of_mem_reduced ht hspace]

theorem akin_recase {sql sql' : Text} {z : Twin} (hleft : z.left ∈ reduced d sql)
    (hright : z.right ∈ reduced d sql') (hkind : z.right.kind = z.left.kind)
    (hword : z.left.isSpace = false →
      Text.asciiLower (recase s' z.right).text = Text.asciiLower (recase s z.left).text) :
    Akin s s' (z.recase s s') := by
  have hspaces : (z.recase s s').left.isSpace = z.left.isSpace := isSpace_recase s z.left
  refine ⟨by simp [Twin.recase, kind_recase, hkind], fun hspace => ⟨.blank, ?_, ?_⟩,
    fun hvisible => ?_, fun hvisible => ?_⟩
  · exact text_recase_of_mem_reduced hleft (hspaces.symm.trans hspace) s
  · refine text_recase_of_mem_reduced hright ?_ s'
    rw [Token.isSpace, hkind]
    exact hspaces.symm.trans hspace
  · exact hword (hspaces.symm.trans hvisible)
  · have hvisible' : z.left.isSpace = false := hspaces.symm.trans hvisible
    exact allBlank_of_startsVisibly
      (startsVisibly_recase s (mem_of_mem_reduced hleft hvisible') hvisible')

theorem tight_map_recase {sql : Text} {zs : List Twin} (hleft : zs.map Twin.left = reduced d sql) :
    Tight (zs.map (Twin.recase s s')) := by
  have hapart := apart_reduced d sql
  rw [← hleft, List.isChain_map] at hapart
  refine (List.isChain_map _).mpr (hapart.imp fun p t h hspace hsymbol => ?_)
  have hp : p.left.isSpace = true := (isSpace_recase s p.left).symm.trans hspace
  have ht : t.left.kind = .symbol := (kind_recase s t.left).symm.trans hsymbol
  have habsorbs := (h.1 hp).2
  simp [absorbsSpace, ht] at habsorbs

/-- Two texts whose reduced tokens are twins that the styles write alike have layouts that are the
two sides of one list of twins, or have none. -/
theorem exists_twins_format (hs : s'.delimiter = s.delimiter) (hlines : EmptyLinesAlike d s s')
    {sql sql' : Text} {zs : List Twin} (hleft : zs.map Twin.left = reduced d sql)
    (hright : zs.map Twin.right = reduced d sql') (hkind : ∀ z ∈ zs, z.right.kind = z.left.kind)
    (hword : ∀ z ∈ zs, z.left.isSpace = false →
      Text.asciiLower (recase s' z.right).text = Text.asciiLower (recase s z.left).text) :
    ∃ r : Option (List Twin),
      format d s sql = r.map (fun fs => keepFinalNewline sql (Token.concat (fs.map Twin.left))) ∧
        format d s' sql' = r.map (fun fs => keepFinalNewline sql' (Token.concat (fs.map Twin.right))) ∧
        ∀ fs ∈ r, TwinEdits s s' (zs.map (Twin.recase s s')) fs ∧ ∀ z ∈ fs, Kindred s s' z := by
  have hakin : ∀ z ∈ zs.map (Twin.recase s s'), Akin s s' z := by
    intro y hy
    obtain ⟨z, hz, rfl⟩ := List.mem_map.mp hy
    exact akin_recase (hleft ▸ List.mem_map_of_mem hz) (hright ▸ List.mem_map_of_mem hz) (hkind z hz)
      (hword z hz)
  have htight : Tight (zs.map (Twin.recase s s')) := tight_map_recase hleft
  obtain ⟨r, hl, hr, hfs⟩ := exists_arrangement hs hlines hakin htight
  have hlefts : (zs.map (Twin.recase s s')).map Twin.left =
      collapse (prepared s (tokenize d sql)) := by
    rw [collapse_prepared, ← hleft, List.map_map, List.map_map]
    rfl
  have hrights : (zs.map (Twin.recase s s')).map Twin.right =
      collapse (prepared s' (tokenize d sql')) := by
    rw [collapse_prepared, ← hright, List.map_map, List.map_map]
    rfl
  rw [hlefts] at hl
  rw [hrights] at hr
  refine ⟨r, ?_, ?_, hfs⟩
  · show Option.map _
      ((breakLines d s (glueCompounds (collapse (prepared s (tokenize d sql))))).map _) = _
    rw [hl, Option.map_map]
    rfl
  · show Option.map _
      ((breakLines d s' (glueCompounds (collapse (prepared s' (tokenize d sql'))))).map _) = _
    rw [hr, Option.map_map]
    rfl

/-- Texts of twins end in a line feed together. -/
theorem endsWith_concat {fs : List Twin} (h : ∀ z ∈ fs, Kindred s s' z) :
    Text.endsWith (Token.concat (fs.map Twin.right)) '\n' =
      Text.endsWith (Token.concat (fs.map Twin.left)) '\n' := by
  rcases List.eq_nil_or_concat fs with rfl | ⟨front, z, rfl⟩
  · rfl
  · have hz : Kindred s s' z := h z (by simp)
    have hconcat : ∀ side : Twin → Token, Token.concat ((front ++ [z]).map side) =
        Token.concat (front.map side) ++ (side z).text := fun side => by simp [Token.concat]
    rw [List.concat_eq_append, hconcat, hconcat, endsWith_append hz.text_ne_nil.2,
      endsWith_append hz.text_ne_nil.1, hz.endsWith]

end SqlLayout.Layout
