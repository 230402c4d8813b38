import SqlLayout.Proofs.Layout.CommentLines
import SqlLayout.Proofs.Layout.Reduced
import SqlLayout.Proofs.Token.Shape

/-!
# A layout read back

When the tokens of a layout have the classes and texts of the tokens it was made from, each of them
stands where the layout shows its token (`readsBack`).  White space between them is what the layout
put there, except that a line comment takes the line feed behind it.
-/

namespace SqlLayout.Layout

/-- The class and the text of a token as far as every layout shows them: keywords in the case of the
style, line comments without white space at the end. -/
def look (s : Style) (t : Token) : TokenKind × Text := (t.kind, (settle (recase s t)).text)

/-- The tokens that are not white space, as far as every layout shows them. -/
def looks (s : Style) (ts : List Token) : List (TokenKind × Text) := (Token.visible ts).map (look s)

/-! ## Lines -/

/-- `Line text rest`: in front of `rest`, the text is a line with its line feed, or there is no line
feed and nothing behind it. -/
def Line (text rest : Text) : Prop :=
  ∃ line, '\n' ∉ line ∧ (text = line ++ ['\n'] ∨ text = line ∧ rest = [])

theorem eq_of_append_feed {a b x y : Text} (ha : '\n' ∉ a) (hb : '\n' ∉ b)
    (h : a ++ '\n' :: x = b ++ '\n' :: y) : a = b := by
  have htake : ∀ (l z : Text), '\n' ∉ l → (l ++ '\n' :: z).takeWhile (· != '\n') = l := by
    intro l z hl
    have hall : ∀ c ∈ l, (c != '\n') = true := by
      intro c hc
      simpa using fun heq : c = '\n' => hl (heq ▸ hc)
    simp [List.takeWhile_append_of_pos hall]
  rw [← htake a x ha, h, htake b y hb]

/-- A line ends in one place. -/
theorem Line.eq {a b x y : Text} (ha : Line a x) (hb : Line b y) (h : a ++ x = b ++ y) : a = b := by
  obtain ⟨line, hline, ha⟩ := ha
  obtain ⟨line', hline', hb⟩ := hb
  have feed : ∀ (l l' z : Text), '\n' ∉ l' → l ++ '\n' :: z ≠ l' := by
    rintro l l' z hl' rfl
    simp at hl'
  rcases ha with rfl | ⟨rfl, rfl⟩ <;> rcases hb with rfl | ⟨rfl, rfl⟩
  · rw [List.append_assoc, List.append_assoc] at h
    rw [eq_of_append_feed hline hline' h]
  · rw [List.append_assoc, List.append_nil] at h
    exact absurd h (feed _ _ _ hline')
  · rw [List.append_assoc, List.append_nil] at h
    exact absurd h.symm (feed _ _ _ hline)
  · simpa using h

/-! ## What the lexer reads -/

/-- `Lexed t rest`: what the lexer makes sure of at a token in front of `rest`. -/
structure Lexed (t : Token) (rest : Text) : Prop where
  visible : startsVisibly t.text = true
  line : isLineComment t = true → Line t.text rest
  word : t.kind = .keyword → Text.IsWord t.text
  maximal : t.kind = .keyword → ∀ c ∈ rest.head?, Lexer.isWordChar c = false

/-- `Read ps rest`: pieces that the lexer has read, with the white space `rest` behind them. -/
def Read : List Piece → Text → Prop
  | [], rest => Text.allBlank rest = true
  | p :: ps, rest =>
    Text.allBlank p.gap = true ∧ Lexed p.token (Piece.render ps ++ rest) ∧ Read ps rest

theorem exists_read_ofTokensAfter {ts : List Token} (hends : EndsComments ts) (hgaps : Gaps ts)
    (hvisible : ∀ t ∈ ts, t.isSpace = false → startsVisibly t.text = true)
    (hline : ∀ t ∈ ts, isLineComment t = true →
      ∃ line, '\n' ∉ line ∧ (t.text = line ∨ t.text = line ++ ['\n']))
    (hword : ∀ t ∈ ts, t.kind = .keyword → Text.IsWord t.text)
    (hmaximal : ts.IsChain fun p t =>
      p.kind = .keyword → ∀ c ∈ t.text.head?, Lexer.isWordChar c = false)
    {g : Text} (hg : Text.allBlank g = true) :
    ∃ rest, g ++ Token.concat ts = Piece.render (Piece.ofTokensAfter g ts) ++ rest ∧
      Read (Piece.ofTokensAfter g ts) rest := by
  induction ts generalizing g with
  | nil => exact ⟨g, by simp [Token.concat, Piece.ofTokensAfter], hg⟩
  | cons t ts ih =>
    have htail := fun {g : Text} => ih (g := g) hends.tail (fun x hx => hgaps x (by simp [hx]))
      (fun x hx => hvisible x (by simp [hx])) (fun x hx => hline x (by simp [hx]))
      (fun x hx => hword x (by simp [hx])) hmaximal.tail
    have hconcat : Token.concat (t :: ts) = t.text ++ Token.concat ts := by simp [Token.concat]
    cases hspace : t.isSpace with
    | true =>
      have hblank : Text.allBlank (g ++ t.text) = true := by
        rw [Text.allBlank_append, hg, (hgaps t (by simp) hspace).2]
        rfl
      obtain ⟨rest, htext, hread⟩ := htail hblank
      rw [Piece.ofTokensAfter_space hspace]
      exact ⟨rest, by rw [hconcat, ← List.append_assoc, htext], hread⟩
    | false =>
      obtain ⟨rest, htext, hread⟩ := htail (g := []) rfl
      rw [List.nil_append] at htext
      rw [Piece.ofTokensAfter_visible hspace]
      refine ⟨rest, by rw [hconcat, htext, Piece.render_cons]; simp, hg, ?_, hread⟩
      rw [← htext]
      refine ⟨hvisible t (by simp) hspace, fun hcomment => ?_, hword t (by simp), fun hkind => ?_⟩
      · obtain ⟨line, hfeed, hcases⟩ := hline t (by simp) hcomment
        refine ⟨line, hfeed, ?_⟩
        rcases hcases with hopen | hclosed
        · refine .inr ⟨hopen, ?_⟩
          cases ts with
          | nil => rfl
          | cons n ns =>
            have hends := (endsComments_cons.mp hends).1 (by simp) hcomment
            rw [hopen] at hends
            exact absurd (List.mem_of_getLast? (by simpa [Text.endsWith] using hends)) hfeed
        · exact .inl hclosed
      · cases ts with
        | nil => simp [Token.concat]
        | cons n ns =>
          have hnext := (List.isChain_cons_cons.mp hmaximal).1 hkind
          have hne : n.text ≠ [] := by
            cases hn : n.isSpace with
            | true => exact (hgaps n (by simp) hn).1
            | false =>
              intro hnil
              simpa [hnil, startsVisibly] using hvisible n (by simp) hn
          have hhead : (Token.concat (n :: ns)).head? = n.text.head? := by
            obtain ⟨c, cs, hc⟩ := List.exists_cons_of_ne_nil hne
            simp [Token.concat, hc]
          rw [hhead]
          exact hnext

/-- The lexer reads a text as its pieces and white space at the end. -/
theorem exists_read (d : Dialect) (sql : Text) :
    ∃ rest, sql = Piece.render (Piece.ofTokens (tokenize d sql)) ++ rest ∧
      Read (Piece.ofTokens (tokenize d sql)) rest := by
  have hvisible : ∀ t ∈ tokenize d sql, t.isSpace = false → startsVisibly t.text = true := by
    intro t ht hspace
    obtain ⟨c, hc, hblank⟩ := exists_head_of_mem_tokenize t ht
    simp [startsVisibly, hc, hblank, hspace]
  obtain ⟨rest, htext, hread⟩ := exists_read_ofTokensAfter (g := []) (endsComments_tokenize d sql)
    (gaps_tokenize d sql) hvisible exists_line_of_mem_tokenize isWord_of_mem_tokenize
    (isChain_keyword d sql) rfl
  refine ⟨rest, ?_, hread⟩
  rw [Piece.ofTokens, ← htext]
  exact (Lexer.concat_tokenizeFrom d 0 sql).symm

/-! ## Reading a layout back -/

/-- Tokens that look the same but for the white space at the end of a line comment. -/
structure Alike (t t' : Token) : Prop where
  kind : t'.kind = t.kind
  text : (settle t').text = (settle t).text

theorem isLineComment_congr {t t' : Token} (hkind : t'.kind = t.kind) (htext : t'.text = t.text) :
    isLineComment t' = isLineComment t := by
  rw [isLineComment, isLineComment, hkind, htext]

namespace Alike

variable {t t' : Token}

theorem isLineComment (h : Alike t t') : Layout.isLineComment t' = Layout.isLineComment t := by
  rw [← isLineComment_settle t', ← isLineComment_settle t]
  exact isLineComment_congr (by rw [kind_settle, kind_settle, h.kind]) h.text

theorem isLineComment_of_recase {s : Style} (h : Alike (recase s t) (recase s t')) :
    Layout.isLineComment t' = Layout.isLineComment t := by
  simpa only [isLineComment_recase] using h.isLineComment

theorem text_eq (h : Alike t t') (ht : Layout.isLineComment t = false) : t'.text = t.text := by
  have htext := h.text
  have ht' : Layout.isLineComment t' = false := h.isLineComment.trans ht
  simpa only [settle, ht, ht', Bool.false_eq_true, ↓reduceIte] using htext

theorem trimEnd_eq (h : Alike t t') (ht : Layout.isLineComment t = true) :
    Text.trimEnd t'.text = Text.trimEnd t.text := by
  have htext := h.text
  have ht' : Layout.isLineComment t' = true := h.isLineComment.trans ht
  simpa only [settle, ht, ht', ↓reduceIte, Token.withText] using htext

end Alike

/-- `ReadsBack G prev ps os qs`: behind a token of class `prev`, the pieces `qs` are what the layout
`os` of the pieces `ps` is read back as.  A comment that the layout leaves as it is comes back as it
is, and the gaps are as `G` says. -/
inductive ReadsBack (G : Option TokenKind → Piece → Piece → Piece → Prop) :
    Option TokenKind → List Piece → List Piece → List Piece → Prop
  | nil (prev : Option TokenKind) : ReadsBack G prev [] [] []
  | cons {prev : Option TokenKind} {p o q : Piece} {ps os qs : List Piece}
      (alike : Alike p.token q.token)
      (whole : o.token.text = p.token.text → q.token.text = p.token.text)
      (gap : G prev p o q)
      (rest : ReadsBack G (some p.token.kind) ps os qs) :
      ReadsBack G prev (p :: ps) (o :: os) (q :: qs)

/-- Except behind a comment, the gap of the layout is read back. -/
def ShownGap (prev : Option TokenKind) (_ o q : Piece) : Prop :=
  ∀ k ∈ prev, k ≠ .comment → q.gap = o.gap

/-- A word that is read as far as it goes is as long as any word at the same place. -/
theorem eq_of_maximal {a b x y : Text} (hlength : a.length ≤ b.length)
    (hb : ∀ c ∈ b, Lexer.isWordChar c = true) (hx : ∀ c ∈ x.head?, Lexer.isWordChar c = false)
    (h : a ++ x = b ++ y) : a = b := by
  rcases List.append_eq_append_iff.mp h with ⟨more, rfl, rfl⟩ | ⟨more, rfl, -⟩
  · cases more with
    | nil => simp
    | cons c cs =>
      have hnot := hx c (by simp)
      rw [hb c (by simp)] at hnot
      cases hnot
  · have hmore : more = [] := by
      rw [List.length_append] at hlength
      exact List.eq_nil_of_length_eq_zero (by omega)
    simp [hmore]

/-- What is read back for a token that is no line comment is what the layout shows. -/
theorem text_eq_of_shows {s : Style} {t o t' : Token} {x y : Text} (hshows : Shows s t o)
    (halike : Alike (recase s t) (recase s t')) (hline : isLineComment t = false)
    (hword : t.kind = .keyword → Text.IsWord t.text) (hlexed : Lexed t' x)
    (h : t'.text ++ x = o.text ++ y) : t'.text = o.text := by
  obtain ⟨text, htext, rfl⟩ := hshows
  have hkind : t'.kind = t.kind := by simpa only [kind_recase] using halike.kind
  have hsame := halike.text_eq ((isLineComment_recase s t).trans hline)
  by_cases hkeyword : t.kind = .keyword
  · have happly : s.keywordCase.apply t'.text = text := by
      rw [shownTexts, if_pos hkeyword, List.mem_singleton] at htext
      simpa only [recase, hkeyword, hkind, ↓reduceIte, Token.withText, htext] using hsame
    have hkeyword' : t'.kind = .keyword := hkind.trans hkeyword
    rw [shownTexts, if_pos hkeyword, List.mem_singleton] at htext
    refine eq_of_maximal ?_ ?_ (hlexed.maximal hkeyword') h
    · show t'.text.length ≤ text.length
      rw [← happly]
      exact Text.length_le_apply _ (hlexed.word hkeyword')
    · show ∀ c ∈ text, Lexer.isWordChar c = true
      rw [htext]
      exact (Text.isWord_apply _ (hword hkeyword)).2
  · rw [shownTexts, if_neg hkeyword, if_neg (by simp [hline]), List.mem_singleton] at htext
    rw [recase_of_kind_ne s hkeyword, recase_of_kind_ne s (by rwa [hkind])] at hsame
    rw [hsame, htext]
    rfl

/-- What is read back for a token and what the layout shows are one text up to white space at the
end, and that only behind comments. -/
theorem exists_core_of_shows {s : Style} {t o t' : Token} {x y : Text} (hshows : Shows s t o)
    (halike : Alike (recase s t) (recase s t')) (hword : t.kind = .keyword → Text.IsWord t.text)
    (hlexed : Lexed t' x) (h : t'.text ++ x = o.text ++ y) :
    ∃ core w w', t'.text = core ++ w ∧ o.text = core ++ w' ∧ Text.allBlank w = true ∧
      Text.allBlank w' = true ∧ (t.kind ≠ .comment → w = [] ∧ w' = []) := by
  cases hline : isLineComment t with
  | false =>
    refine ⟨o.text, [], [], ?_, by simp, rfl, rfl, fun _ => ⟨rfl, rfl⟩⟩
    rw [text_eq_of_shows hshows halike hline hword hlexed h, List.append_nil]
  | true =>
    have hkind := kind_of_isLineComment hline
    have htrim := halike.trimEnd_eq ((isLineComment_recase s t).trans hline)
    rw [recase_of_isLineComment hline,
      recase_of_isLineComment (halike.isLineComment_of_recase.trans hline)] at htrim
    obtain ⟨w, hw, htext⟩ := Text.exists_trimEnd_append t'.text
    rw [htrim] at htext
    obtain ⟨w', hw', htext'⟩ : ∃ w', Text.allBlank w' = true ∧
        o.text = Text.trimEnd t.text ++ w' := by
      obtain ⟨text, hmem, rfl⟩ := hshows
      rw [shownTexts, if_neg (by simp [hkind]), if_pos hline] at hmem
      rcases List.mem_cons.mp hmem with rfl | hmem
      · exact Text.exists_trimEnd_append t.text
      · rw [List.mem_singleton] at hmem
        exact ⟨[], rfl, by rw [List.append_nil]; exact hmem⟩
    exact ⟨Text.trimEnd t.text, w, w', htext, htext', hw, hw', fun hne => absurd hkind hne⟩

/-- A comment that the layout leaves as it is is read back as it is. -/
theorem text_eq_of_whole {s : Style} {t o t' : Token} {x y : Text}
    (halike : Alike (recase s t) (recase s t')) (hline : isLineComment t = true → Line t.text y)
    (hlexed : Lexed t' x) (h : t'.text ++ x = o.text ++ y)
    (hwhole : o.text = (recase s t).text) : (recase s t').text = (recase s t).text := by
  cases hcomment : isLineComment t with
  | false => exact halike.text_eq ((isLineComment_recase s t).trans hcomment)
  | true =>
    have hcomment' : isLineComment t' = true := halike.isLineComment_of_recase.trans hcomment
    rw [recase_of_isLineComment hcomment] at hwhole
    rw [recase_of_isLineComment hcomment, recase_of_isLineComment hcomment']
    rw [hwhole] at h
    exact (hlexed.line hcomment').eq (hline hcomment) h

/-- The pieces without the white space in front of the first. -/
def flush : List Piece → List Piece
  | [] => []
  | p :: ps => ⟨[], p.token⟩ :: ps

/-- The last token ends in one place in the text and in the layout when the layout gets a line feed
at the end only for one that the text has there. -/
theorem line_of_read {p : Piece} {ps os : List Piece} {rest e : Text} (hread : Read (p :: ps) rest)
    (hlength : ps.length = os.length)
    (hend : rest = [] → e ≠ [] → ∀ x ∈ (p :: ps).getLast?, Text.endsWith x.token.text '\n' = true)
    (hline : isLineComment p.token = true) : Line p.token.text (Piece.render os ++ e) := by
  obtain ⟨line, hfeed, hcases⟩ := hread.2.1.line hline
  refine ⟨line, hfeed, hcases.imp id ?_⟩
  rintro ⟨htext, hnil⟩
  refine ⟨htext, ?_⟩
  obtain ⟨hrender, hrest⟩ := List.append_eq_nil_iff.mp hnil
  cases ps with
  | cons q ps =>
    have hvisible := hread.2.2.2.1.visible
    rw [Piece.render_cons, List.append_eq_nil_iff, List.append_eq_nil_iff] at hrender
    rw [hrender.2.1] at hvisible
    cases hvisible
  | nil =>
    rw [List.eq_nil_of_length_eq_zero hlength.symm]
    by_contra hne
    have hlast := hend hrest (by simpa using hne) p (by simp)
    rw [htext] at hlast
    exact hfeed (List.mem_of_getLast? (by simpa [Text.endsWith] using hlast))

/-- Tokens that look like those of the text are read where the layout shows these. -/
theorem readsBack {s : Style} {ps os qs : List Piece} {rest rest' e : Text}
    (prev : Option TokenKind) (hread : Read ps rest) (hread' : Read qs rest')
    (hshows : List.Forall₂ (fun p o => Shows s p.token o.token) ps os)
    (hvisible : ∀ p ∈ ps, ∀ t, Shows s p.token t → startsVisibly t.text = true)
    (hblank : ∀ o ∈ os, Text.allBlank o.gap = true)
    (hend : rest = [] → e ≠ [] → ∀ p ∈ ps.getLast?, Text.endsWith p.token.text '\n' = true)
    (halike : List.Forall₂ (fun p q => Alike (recase s p.token) (recase s q.token)) ps qs)
    (hgap : ∀ k ∈ prev, k ≠ .comment → qs.head?.map Piece.gap = os.head?.map Piece.gap)
    (hsame : Piece.render (flush qs) ++ rest' = Piece.render (flush os) ++ e) :
    ReadsBack ShownGap prev (ps.map (recasePiece s)) os (qs.map (recasePiece s)) := by
  induction hshows generalizing prev qs with
  | nil =>
    rw [List.forall₂_nil_left_iff] at halike
    rw [halike]
    exact .nil prev
  | @cons p o ps os hp hps ih =>
    obtain ⟨q, qs, hq, hqs, rfl⟩ := List.forall₂_cons_left_iff.mp halike
    have hlexed := hread'.2.1
    have htext : q.token.text ++ (Piece.render qs ++ rest') =
        o.token.text ++ (Piece.render os ++ e) := by simpa [flush] using hsame
    have hline := line_of_read hread hps.length_eq hend
    refine .cons (p := recasePiece s p) (q := recasePiece s q) hq
      (text_eq_of_whole hq hline hlexed htext) (fun k hk hne => ?_) ?_
    · show q.gap = o.gap
      simpa using hgap k hk hne
    rw [show (recasePiece s p).token.kind = p.token.kind from kind_recase s p.token]
    cases hps with
    | nil =>
      rw [List.forall₂_nil_left_iff] at hqs
      rw [hqs]
      exact .nil _
    | @cons p₂ o₂ ps os hp₂ hps =>
      obtain ⟨q₂, qs, hq₂, hqs', rfl⟩ := List.forall₂_cons_left_iff.mp hqs
      obtain ⟨core, w, w', hw, hw', hblankw, hblankw', hnone⟩ :=
        exists_core_of_shows hp hq hread.2.1.word hlexed htext
      -- white space runs up to the next token on both sides
      have hbetween : (w ++ q₂.gap) ++ (q₂.token.text ++ (Piece.render qs ++ rest')) =
          (w' ++ o₂.gap) ++ (o₂.token.text ++ (Piece.render os ++ e)) := by
        simpa [hw, hw'] using htext
      obtain ⟨hgaps, hbehind⟩ := append_inj_of_startsVisibly
        (by rw [Text.allBlank_append, hblankw, hread'.2.2.1]; rfl)
        (by rw [Text.allBlank_append, hblankw', hblank o₂ (by simp)]; rfl)
        (startsVisibly_append hread'.2.2.2.1.visible _)
        (startsVisibly_append (hvisible p₂ (by simp) o₂.token hp₂) _) hbetween
      refine ih (some p.token.kind) hread.2.2 hread'.2.2 (fun x hx => hvisible x (by simp [hx]))
        (fun x hx => hblank x (by simp [hx])) ?_ hqs ?_ ?_
      · intro hrest he x hx
        exact hend hrest he x (by rwa [List.getLast?_cons_cons])
      · intro k hk hne
        obtain rfl : p.token.kind = k := by simpa using hk
        obtain ⟨rfl, rfl⟩ := hnone hne
        simpa using hgaps
      · simpa [flush] using hbehind

end SqlLayout.Layout
