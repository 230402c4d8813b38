import SqlLayout.Proofs.Layout.JoinWords
import SqlLayout.Proofs.Layout.Tucked
import SqlLayout.Proofs.Layout.Visits

/-!
# Join clauses

A run of join words that reaches `JOIN` starts a line and stays on it: the walk breaks in front of its first
word only (`gap_pass_joinWord`), and what joins brackets and fills gaps leaves that break and the blanks
between the words as they are (`stretch_behind`).  The walk comes to the words of a run without `JOIN` as well
(`exists_comesTo`), but no clause starts there (`not_atJoinStart`).
-/

namespace SqlLayout.Layout

/-- The tokens `run` are join words, of which there are no more on either side. -/
structure JoinWords (front run back : List Token) : Prop where
  words : ∀ t ∈ run, Walk.isJoinWord t.text = true
  starts : ∀ t ∈ front.getLast?, Walk.isJoinWord t.text = false
  ends : ∀ t ∈ back.head?, Walk.isJoinWord t.text = false

/-- A run of join words among the visible tokens of a list. -/
structure JoinRun (ts front run back : List Token) : Prop extends JoinWords front run back where
  tokens : Token.visible ts = front ++ (run ++ back)

/-- `JoinedPair texts n p run back`: the run is one word between two brackets, `p` and the one that `back`
starts with, and the stretches `texts` of a layout, in which `p` has number `n`, show no white space around
it. -/
structure JoinedPair (texts : List Text) (n : Nat) (p : Token) (run back : List Token) : Prop where
  opens : p.isSymbol ['('] = true
  closes : ∃ e ∈ back.head?, e.isSymbol [')'] = true
  single : ∃ t, run = [t] ∧ texts[n + 1]? = some t.text
  tight : texts[n]? = some p.text

/-- The text is that of a shown token and white space with a line feed in it. -/
def BreaksBehind (shows : Token → Prop) (text : Text) : Prop :=
  ∃ t gap, shows t ∧ text = t.text ++ gap ∧ Text.allBlank gap = true ∧ '\n' ∈ gap

theorem BreaksBehind.imp {P Q : Token → Prop} {text : Text} (h : BreaksBehind P text)
    (himp : ∀ t, P t → Q t) : BreaksBehind Q text := by
  obtain ⟨t, gap, ht, htext, hblank, hfeed⟩ := h
  exact ⟨t, gap, himp t ht, htext, hblank, hfeed⟩

/-! ## Function calls, as a reader sees them -/

/-- Where the walk finds function calls, a reader does. -/
structure CallTrail.Covers (d : Dialect) (r : CallTrail) (h : Hand) : Prop where
  calls : List.Forall₂ (fun call b => b.isCall = true → call = true) r.calls h.footing.brackets
  named : d.isFunction h.previous = true → r.named = true

section Calls

variable {d : Dialect} {s : Style} {h : Hand} {r : CallTrail}

theorem CallTrail.Covers.inCall (hcovers : r.Covers d h) (hcall : r.inCall = false) :
    h.footing.inCall = false := by
  obtain ⟨hcalls, -⟩ := hcovers
  unfold CallTrail.inCall at hcall
  unfold Footing.inCall
  generalize r.calls = calls, h.footing.brackets = brackets at hcalls hcall
  induction hcalls with
  | nil => rfl
  | cons hhead _ ih =>
    rw [List.any_cons, Bool.or_eq_false_iff] at hcall ⊢
    exact ⟨Bool.eq_false_iff.mpr fun hcalled => Bool.eq_false_iff.mp hcall.1 (hhead hcalled), ih hcall.2⟩

theorem CallTrail.covers_start (hnames : NamesFunctions d) : CallTrail.start.Covers d .start := by
  refine ⟨.nil, fun hfunction => ?_⟩
  rw [isFunction_of_allBlank hnames (by decide)] at hfunction
  cases hfunction

/-- The walk finds no call that a reader does not. -/
theorem CallTrail.Covers.pass (hnames : NamesFunctions d) (hmark : IsMark s) (hcovers : r.Covers d h)
    (rest : List Text) {p : Piece}
    (hword : d.isFunction p.token.text = true → namesFunction d p.token = true) :
    (r.next d p.token).Covers d (h.pass d s rest p).hand := by
  refine ⟨?_, fun hfunction => hword ?_⟩
  · rw [brackets_pass hmark, next, callsAfter]
    split
    · exact .cons hcovers.named hcovers.calls
    · split
      · simpa using List.forall₂_drop 1 hcovers.calls
      · exact hcovers.calls
  · cases hskip : h.skips? s p.token with
    | some level =>
      have hline := (isGap_lineBreak s level).append (isGap_lineBreak s level)
      simp only [Hand.pass, hskip, Hand.skip, isFunction_of_allBlank hnames hline.2] at hfunction
      cases hfunction
    | none =>
      simp only [Hand.pass, hskip, Hand.visit] at hfunction
      rcases settles_shown h p.token with hshown | hshown
      · rwa [hshown] at hfunction
      · rwa [hshown, isFunction_settle hnames] at hfunction

theorem CallTrail.Covers.past (hnames : NamesFunctions d) (hmark : IsMark s) (hcovers : r.Covers d h)
    (ps qs : List Piece)
    (hwords : ∀ p ∈ ps, d.isFunction p.token.text = true → namesFunction d p.token = true) :
    (r.past d (ps.map Piece.token)).Covers d (h.past d s ps qs) := by
  induction ps generalizing r h with
  | nil => exact hcovers
  | cons p ps ih =>
    exact ih (hcovers.pass hnames hmark _ (hwords p (by simp))) fun q hq => hwords q (by simp [hq])

end Calls

/-! ## Tokens that a layout shows -/

theorem Settles.isJoinWord {t t' : Token} (h : Settles t t') :
    Walk.isJoinWord t'.text = Walk.isJoinWord t.text := by
  rcases h with rfl | rfl
  · rfl
  · cases hline : isLineComment t with
    | false => simp [settle, hline]
    | true =>
      have hline' := (isLineComment_settle t).trans hline
      simp only [isLineComment, Bool.and_eq_true] at hline hline'
      rw [isJoinWord_of_isLineComment hline.2, isJoinWord_of_isLineComment hline'.2]

theorem Settles.alike {t t' : Token} (h : Settles t t') : Alike t t' := by
  rcases h with rfl | rfl
  · exact ⟨rfl, rfl⟩
  · exact ⟨kind_settle t, by rw [settle_settle]⟩

/-! ## Gaps that the walk gets -/

/-- Between two keywords that the walk gets there is white space. -/
theorem isChain_words_glueBlocks {ps : List Piece} (h : Spread ps) :
    ((glueBlocks ps).map Block.piece).IsChain fun p q =>
      p.token.kind = .keyword → q.token.kind = .keyword → q.gap ≠ [] := by
  fun_induction glueBlocks ps with
  | case1 => exact .nil
  | case2 p ps ih =>
    have hsuffix : ps.drop (compoundRest p ps) <:+ p :: ps :=
      (List.drop_suffix _ ps).trans (List.suffix_cons p ps)
    rw [List.map_cons, List.isChain_cons]
    refine ⟨fun q hq hp hq' => ?_, ih (h.suffix hsuffix)⟩
    rw [List.head?_map] at hq
    obtain ⟨b, hb, rfl⟩ := Option.map_eq_some_iff.mp hq
    have hnext : (ps.drop (compoundRest p ps)).head? = some b.head := by
      rw [← head?_glueBlocks, hb]
      rfl
    have hwords := h.words
    rw [← List.take_append_drop (compoundRest p ps) ps] at hwords
    have hjoins := joins_take_compoundRest p ps
    generalize ps.take (compoundRest p ps) = more, ps.drop (compoundRest p ps) = rest
      at hwords hjoins hnext hp
    -- the last word of a keyword block is a keyword
    cases hjoins with
    | single => exact (List.isChain_cons.mp hwords).1 b.head hnext hp hq'
    | clause _ r pair =>
      exact (List.isChain_cons.mp hwords.tail).1 b.head hnext (kinds_of_isClausePair pair).2 hq'
    | mark _ q r triple => simp [(kinds_of_isMarkTriple triple).1] at hp

/-- Between two keywords the walk gets one blank. -/
theorem gap_of_keywords {d : Dialect} {s : Style} {sql : Text} {front back : List Piece} {p q : Piece}
    (hps : Piece.ofTokens (normalize s (tokenize d sql)) = front ++ p :: q :: back)
    (hp : p.token.kind = .keyword) (hq : q.token.kind = .keyword) : q.gap = [' '] := by
  have hwords := isChain_words_glueBlocks (spread_reduce d s sql)
  have hblank : ∀ q ∈ Piece.ofTokens (normalize s (tokenize d sql)), q.gap = [] ∨ q.gap = [' '] := by
    rw [(writes_glueBlocks d s sql).ofTokens]
    intro q hq
    obtain ⟨b, hb, rfl⟩ := List.mem_map.mp hq
    exact blank_glueBlocks d s sql b hb
  rw [← (writes_glueBlocks d s sql).ofTokens, hps] at hwords
  have hgap := (List.isChain_cons_cons.mp hwords.right_of_append).1 hp hq
  exact (hblank q (by simp [hps])).resolve_left hgap

/-! ## Gaps of the layout -/

section Gaps

variable {d : Dialect} {s : Style} {ps front back : List Piece} {x q : Piece}

/-- The walk shows the tokens of its pieces. -/
theorem settles_place (h : Hand) (ps : List Piece) :
    List.Forall₂ Settles (ps.map Piece.token) ((place d s h ps).map Piece.token) := by
  obtain ⟨outer, hplace, hsettles⟩ := exists_place_append (d := d) (s := s) h ps []
  rw [List.append_nil, place, List.append_nil] at hplace
  rwa [hplace]

/-- The placed pieces around a token, with what the walk puts in front of it. -/
theorem exists_place_behind (h : Hand) (front : List Piece) (x q : Piece) (back : List Piece) :
    ∃ outer x' rest, place d s h (front ++ x :: q :: back) =
        (outer ++ [x']) ++
          ⟨((h.past d s (front ++ [x]) (q :: back)).pass d s (back.map (·.token.text)) q).gap,
            (h.past d s (front ++ [x]) (q :: back)).shown q.token⟩ :: rest ∧
      outer.length = front.length ∧ Settles x.token x'.token ∧
      List.Forall₂ Settles (back.map Piece.token) (rest.map Piece.token) := by
  obtain ⟨placed, hplace, hsettles⟩ :=
    exists_place_append (d := d) (s := s) h (front ++ [x]) (q :: back)
  obtain ⟨outer, x', rfl⟩ : ∃ outer x', placed = outer ++ [x'] := by
    refine (List.eq_nil_or_concat' placed).resolve_left ?_
    rintro rfl
    simpa using hsettles.length_eq
  have hreverse := List.rel_reverse hsettles
  simp only [List.map_append, List.map_cons, List.map_nil, List.reverse_append, List.reverse_cons,
    List.reverse_nil, List.nil_append, List.singleton_append, List.forall₂_cons] at hreverse
  rw [List.append_assoc, List.singleton_append, place] at hplace
  exact ⟨outer, x', _, hplace, by simpa using hreverse.2.length_eq.symm, hreverse.1, settles_place _ back⟩

/-- The text of a layout from a token up to a word that the walk puts white space in front of: that white
space stands there, unless the layout joins the word to brackets around it. -/
theorem stretch_behind (hps : ps = front ++ x :: q :: back) (hkind : q.token.kind = .keyword)
    (hgap :
      ((Hand.start.past d s (front ++ [x]) (q :: back)).pass d s (back.map (·.token.text)) q).gap ≠ []) :
    (∃ t, Settles x.token t ∧ (spans (layGlued d s ps))[front.length]? = some (t.text ++
        ((Hand.start.past d s (front ++ [x]) (q :: back)).pass d s (back.map (·.token.text)) q).gap)) ∨
      JoinedPair (spans (layGlued d s ps)) front.length x.token [q.token] (back.map Piece.token) := by
  obtain ⟨outer, x', rest, hplace, hlength, hx, hback⟩ :=
    exists_place_behind (d := d) (s := s) .start front x q back
  rw [← hps] at hplace
  have hshown : (Hand.start.past d s (front ++ [x]) (q :: back)).shown q.token = q.token :=
    Hand.shown_of_kind_ne _ (by simp [hkind])
  have hbracket : isBracket q.token = false := by
    simp [isBracket, isSymbol_of_kind_ne (t := q.token) (by simp [hkind])]
  rw [hshown] at hplace
  generalize ((Hand.start.past d s (front ++ [x]) (q :: back)).pass d s (back.map (·.token.text)) q).gap = gap
    at hgap hplace ⊢
  rw [← hlength]
  rcases kept_or_between hplace hbracket hgap with
    hkept | ⟨outer', a, e, rest', hfront, rfl, ha, he, htight, hword⟩
  · left
    obtain ⟨y, hy, hytoken⟩ := exists_layGlued (hplace.trans (List.append_assoc ..))
    rw [List.length_append, List.length_singleton] at hkept
    exact ⟨x'.token, hx, by rw [getElem?_spans hy hkept, hytoken]⟩
  · right
    obtain ⟨rfl, hsame⟩ := List.append_inj' hfront rfl
    obtain rfl : x' = a := by simpa using hsame
    have hopen : x.token.isSymbol ['('] = true := (hx.isSymbol _).symm.trans ha
    have hsettled := hx.eq_of_kind_ne (by simp [kind_of_isSymbol hopen])
    obtain ⟨e', back', he', -, hmap⟩ := List.forall₂_cons_right_iff.mp hback
    rw [List.length_append, List.length_singleton] at hword
    exact ⟨hopen, ⟨e', by rw [hmap]; rfl, (he'.isSymbol _).symm.trans he⟩, ⟨q.token, rfl, hword⟩,
      hsettled ▸ htight⟩

end Gaps

/-! ## Runs of a text -/

section Runs

variable {s : Style} {sql : Text} {front back : List Piece} {p q : Piece}

theorem mem_visible_of_mem_ofTokens {ts : List Token} (hp : p ∈ Piece.ofTokens ts) :
    p.token ∈ Token.visible ts := by
  rw [← Piece.map_token_ofTokensAfter []]
  exact List.mem_map_of_mem hp

/-- A word that the walk gets is no delimiter. -/
theorem isDelimiter_of_keyword {d : Dialect} (hmark : IsMark s)
    (hp : p ∈ Piece.ofTokens (normalize s (tokenize d sql))) (hkind : p.token.kind = .keyword) :
    s.isDelimiter p.token.text = false := by
  refine Bool.eq_false_iff.mpr fun hdelimiter => ?_
  simp [(neat_ofTokens_normalize d hmark sql).marks p hp hdelimiter] at hkind

/-- From a join word up to the next one stand the word and one blank. -/
theorem stretch_between_words (hmark : IsMark s)
    (hps : Piece.ofTokens (normalize s (tokenize .standard sql)) = front ++ p :: q :: back)
    (hp : Walk.isJoinWord p.token.text = true) (hq : Walk.isJoinWord q.token.text = true) :
    (spans (layGlued .standard s (Piece.ofTokens (normalize s (tokenize .standard sql)))))[front.length]? =
      some (p.token.text ++ [' ']) := by
  have hpmem : p ∈ Piece.ofTokens (normalize s (tokenize .standard sql)) := by simp [hps]
  have hqmem : q ∈ Piece.ofTokens (normalize s (tokenize .standard sql)) := by simp [hps]
  have hpkind := kind_of_isJoinWord (mem_visible_of_mem_ofTokens hpmem) hp
  have hqkind := kind_of_isJoinWord (mem_visible_of_mem_ofTokens hqmem) hq
  have hhand := hand_pass_joinWord (d := .standard) (h := Hand.start.past .standard s front (p :: q :: back))
    (isDelimiter_of_keyword hmark hpmem hpkind) hpkind hp ((q :: back).map (·.token.text))
  have hgap : ((Hand.start.past .standard s (front ++ [p]) (q :: back)).pass .standard s
      (back.map (·.token.text)) q).gap = [' '] := by
    rw [Hand.past_append, Hand.past, Hand.past]
    rw [List.singleton_append, List.nil_append, hhand]
    rw [gap_pass_joinWord (isDelimiter_of_keyword hmark hqmem hqkind) hqkind hq rfl]
    simp [hp, Hand.gapBefore, gap_of_keywords hps hpkind hqkind]
  rcases stretch_behind (d := .standard) (s := s) hps hqkind (by rw [hgap]; simp) with
    ⟨t, ht, hstretch⟩ | hpair
  · rwa [hgap, ht.eq_of_kind_ne (by simp [hpkind])] at hstretch
  · simp [kind_of_isSymbol hpair.opens] at hpkind

/-- In front of a run of join words that reaches `JOIN` stands a line feed, unless its first word is alone in
brackets that the layout joins. -/
theorem breaks_in_front (hmark : IsMark s)
    (hps : Piece.ofTokens (normalize s (tokenize .standard sql)) = front ++ p :: q :: back)
    (hp : Walk.isJoinWord p.token.text = false) (hq : Walk.isJoinWord q.token.text = true)
    (hreaches : Walk.reachesJoin (q.token.text :: back.map (·.token.text)) = true)
    (hcall : (CallTrail.start.past .standard ((front ++ [p]).map Piece.token)).inCall = false) :
    (∃ text, (spans (layGlued .standard s
        (Piece.ofTokens (normalize s (tokenize .standard sql)))))[front.length]? = some text ∧
          BreaksBehind (Settles p.token) text) ∨
      JoinedPair (spans (layGlued .standard s (Piece.ofTokens (normalize s (tokenize .standard sql)))))
        front.length p.token [q.token] (back.map Piece.token) := by
  have hqmem : q ∈ Piece.ofTokens (normalize s (tokenize .standard sql)) := by simp [hps]
  have hkind := kind_of_isJoinWord (mem_visible_of_mem_ofTokens hqmem) hq
  have hcovers := (CallTrail.covers_start namesFunctions_standard).past namesFunctions_standard hmark
    (front ++ [p]) (q :: back) fun x hx => namesFunction_of_isFunction (s := s) <|
      mem_visible_of_mem_ofTokens <| by
        rw [hps, List.append_cons]
        exact List.mem_append_left _ hx
  have hcall := hcovers.inCall hcall
  have hlast : (Hand.start.past .standard s (front ++ [p]) (q :: back)).last =
      some ((Hand.start.past .standard s front (p :: q :: back)).shown p.token) := by
    rw [Hand.past_append]
    refine last_pass _ fun hdelimiter => ?_
    exact (neat_ofTokens_normalize .standard hmark sql).marks p (by simp [hps]) hdelimiter
  have hshown := (settles_shown (Hand.start.past .standard s front (p :: q :: back)) p.token).isJoinWord
  have hgap := gap_pass_joinWord (d := .standard) (isDelimiter_of_keyword hmark hqmem hkind) hkind hq hlast
    (back.map (·.token.text))
  simp only [hshown, hp, hreaches, hcall, Bool.not_false, Bool.and_self, ↓reduceIte] at hgap
  refine (stretch_behind (d := .standard) (s := s) hps hkind ?_).imp_left ?_
  · rw [hgap]
    exact lineBreak_ne_nil s _
  · rw [hgap]
    rintro ⟨t, ht, hstretch⟩
    exact ⟨_, hstretch, t, _, ht, rfl, (isGap_lineBreak s _).2, feed_mem_lineBreak s _⟩

end Runs

/-! ## Visits to join words -/

section Visits

variable {d : Dialect} {s : Style} {w : Walk} {t : Token}

theorem react_joinWord (hkind : t.kind = .keyword) (hword : Walk.isJoinWord t.text = true) :
    w.react d s t = if Walk.atJoinStart w.cursor then w.breakHere s (w.level - 1) else w := by
  simp [Walk.react, hkind, Walk.onKeyword, ofWord?_of_isJoinWord hword]

/-- A visit to a join word passes that token only. -/
theorem passed_leave_joinWord (hmark : IsMark s) {after : List Token} (hafter : w.cursor.after = t :: after)
    (hkind : t.kind = .keyword) (hword : Walk.isJoinWord t.text = true)
    (hother : s.isDelimiter t.text = false) : ((w.react d s t).leave t.text).passed = w.passed + 1 := by
  have hspace : t.isSpace = false := by simp [Token.isSpace, hkind]
  have hcursor : w.cursor = ⟨w.cursor.before, t :: after⟩ := by rw [← hafter]
  have hstay : ∃ before, (w.react d s t).cursor = ⟨before, t :: after⟩ ∧
      (Token.visible before).length = w.passed := by
    rw [react_joinWord hkind hword]
    split
    · unfold Walk.breakHere
      split
      · exact ⟨_, hcursor, rfl⟩
      · obtain ⟨before', t', hbreak, ht, hlength⟩ := exists_breakHere hmark
          (s.lineBreak (w.level - 1)) w.cursor.before after hspace hother
        obtain rfl := ht.eq_of_kind_ne (by simp [hkind])
        rw [← hcursor] at hbreak
        exact ⟨before', hbreak, hlength⟩
    · exact ⟨_, hcursor, rfl⟩
  obtain ⟨before, hbefore, hpassed⟩ := hstay
  rw [← hpassed, Walk.passed, Walk.leave, hbefore]
  exact length_visible_cons hspace before

theorem exists_of_mem_right {α β : Type} {R : α → β → Prop} {ts : List α} {us : List β}
    (h : List.Forall₂ R ts us) {u : β} (hu : u ∈ us) : ∃ t ∈ ts, R t u := by
  induction h with
  | nil => cases hu
  | cons hhead _ ih =>
    rcases List.mem_cons.mp hu with rfl | hu
    · exact ⟨_, List.mem_cons_self, hhead⟩
    · obtain ⟨t, ht, htu⟩ := ih hu
      exact ⟨t, List.mem_cons_of_mem _ ht, htu⟩

section Texts

variable {sql : Text} {front back : List Piece} {p : Piece}

/-- When the walk first has a join word behind it, it has visited that word just now. -/
theorem exists_behind?_joinWord (hmark : IsMark s)
    (hps : Piece.ofTokens (normalize s (tokenize .standard sql)) = front ++ p :: back)
    (hword : Walk.isJoinWord p.token.text = true) :
    ∃ v, (Walk.start (normalize s (tokenize .standard sql))).behind? .standard s (front.length + 1) = some v ∧
      v.passed = front.length + 1 ∧ v.previous = p.token.text := by
  have hmem : p ∈ Piece.ofTokens (normalize s (tokenize .standard sql)) := by simp [hps]
  have hkind := kind_of_isJoinWord (mem_visible_of_mem_ofTokens hmem) hword
  have hother := isDelimiter_of_keyword hmark hmem hkind
  have hneat := neat_ofTokens_normalize .standard hmark sql
  have hwrites := writes_ofTokens_normalize .standard s sql
  have hfirst := gap_head?_normalize .standard s sql
  rw [hps] at hneat hwrites hfirst
  obtain ⟨w, before, hleads, hlength, hcarries⟩ :=
    exists_carries_past (d := .standard) hmark hneat (carries_start hwrites hfirst)
  have hnone : (Token.visible []).length = 0 := rfl
  rw [hnone, Nat.zero_add] at hleads hlength
  have hskip : (Hand.start.past .standard s front (p :: back)).skips? s p.token = none := by
    unfold Hand.skips?
    split <;> simp [hother]
  obtain ⟨w', gs, rest, -, harrived⟩ :=
    exists_arrived (d := .standard) hmark hneat.right_of_append hcarries hskip
  have hafter : (w'.closeLineComment s).cursor.after = p.token :: rest := by
    rw [harrived.cursor, Hand.shown_of_kind_ne _ (by simp [hkind])]
  obtain ⟨v, hvisit, hv⟩ : ∃ v, w'.visit .standard s = some v ∧
      v = ((w'.closeLineComment s).react .standard s p.token).leave p.token.text := by
    simp [Walk.visit, hafter]
  have hpassed : v.passed = front.length + 1 := by
    rw [hv, passed_leave_joinWord hmark hafter hkind hword hother, passed_closeLineComment hmark,
      harrived.passed, hlength]
  refine ⟨v, ?_, hpassed, congrArg Walk.previous hv⟩
  rw [hleads.behind _ (Nat.lt_succ_self _), harrived.leads.behind _ (by omega),
    Walk.behind?_of_visit (by rw [harrived.passed]; omega) hvisit, Walk.behind?_of_le (by omega)]

/-- The walk comes to every join word of a text. -/
theorem exists_comesTo (hmark : IsMark s)
    (hps : Piece.ofTokens (normalize s (tokenize .standard sql)) = front ++ p :: back)
    (hword : Walk.isJoinWord p.token.text = true) :
    ∃ t w, Walk.ComesTo .standard s (normalize s (tokenize .standard sql)) front.length t w := by
  have hmem : p ∈ Piece.ofTokens (normalize s (tokenize .standard sql)) := by simp [hps]
  have hother := isDelimiter_of_keyword hmark hmem
    (kind_of_isJoinWord (mem_visible_of_mem_ofTokens hmem) hword)
  obtain ⟨v, hbehind, hpassed, hprevious⟩ := exists_behind?_joinWord hmark hps hword
  obtain ⟨w, hreaches, hle, hvisit⟩ := Walk.exists_reaches_of_behind? (Nat.zero_le _) hbehind
  have hclosed := passed_closeLineComment hmark w
  unfold Walk.visit at hvisit
  dsimp only at hvisit
  split at hvisit
  · cases hvisit
  · next t after hcurrent =>
    obtain rfl := Option.some.inj hvisit
    have htext : t.text = p.token.text := hprevious
    cases hspace : t.isSpace with
    | true =>
      -- white space would leave the walk in front of the word
      rw [passed_leave_space hmark hcurrent hspace (by rw [htext, hother])] at hpassed
      omega
    | false =>
      have ht : t ∈ Token.visible (w.closeLineComment s).cursor.tokens := by
        simp [Token.visible, Cursor.tokens, hcurrent, hspace]
      obtain ⟨x, hx, hxt⟩ := exists_of_mem_right hreaches.visible_closed ht
      have hxword : Walk.isJoinWord x.text = true := by rw [← hxt.isJoinWord, htext, hword]
      have hxkind := kind_of_isJoinWord hx hxword
      obtain rfl := hxt.eq_of_kind_ne (by simp [hxkind])
      rw [passed_leave_joinWord hmark hcurrent hxkind hxword (by rw [htext, hother])] at hpassed
      exact ⟨t, _, ⟨w, hreaches, rfl⟩, ⟨after, hcurrent⟩, hspace, by omega⟩

end Texts

end Visits

/-! ## Runs without `JOIN` -/

/-- At the words of a run without `JOIN` no join clause starts. -/
theorem not_atJoinStart {ts front run back : List Token} (hrun : JoinRun ts front run back)
    (hkinds : ∀ t ∈ run, t.kind = .keyword) (hother : run.any isJoin = false) {k : Nat} {u : Token}
    (hu : run[k]? = some u) {c : Cursor}
    (hvisible : List.Forall₂ Settles (Token.visible ts) (Token.visible c.tokens)) {t : Token}
    {after : List Token} (hafter : c.after = t :: after) (ht : t.isSpace = false)
    (hpassed : (Token.visible c.before).length = front.length + k) :
    t = u ∧ Walk.atJoinStart c = false := by
  obtain ⟨hlt, hget⟩ := List.getElem?_eq_some_iff.mp hu
  have hleft : run.drop k = u :: run.drop (k + 1) := by rw [List.drop_eq_getElem_cons hlt, hget]
  have hbefore : (Token.visible c.before.reverse).length = front.length + k := by
    simp [← hpassed, Token.visible]
  -- what is left of the run starts at the cursor
  have hrest : List.Forall₂ Settles (run.drop k ++ back) (t :: Token.visible after) := by
    have hdrop := List.forall₂_drop (front.length + k) hvisible
    rwa [hrun.tokens, List.drop_length_add_append, List.drop_append_of_le_length hlt.le, Cursor.tokens,
      visible_append, hafter, visible_cons ht, ← hbefore, List.drop_left] at hdrop
  constructor
  · rw [hleft, List.cons_append, List.forall₂_cons] at hrest
    exact hrest.1.eq_of_kind_ne (by simp [hkinds u (List.mem_of_getElem? hu)])
  · have hleftOther : (run.drop k).any isJoin = false :=
      List.any_eq_false.mpr fun x hx => List.any_eq_false.mp hother x (List.mem_of_mem_drop hx)
    have hends : ∀ text ∈ (back.map Token.text).head?, Walk.isJoinWord text = false := by
      simpa using hrun.ends
    have hwords : Walk.reachesJoin (Walk.wordTexts c.after) = false := by
      rw [hafter, Walk.wordTexts, ← Token.visible, visible_cons ht,
        reachesJoin_congr (hrest.imp fun _ _ => Settles.alike), List.map_append]
      exact not_reachesJoin hleftOther hends
    rw [Walk.atJoinStart, hwords, Bool.and_false]

/-! ## The layout of join clauses -/

/-- In the stretches `texts` of a layout each word of the run but the last one, the first of which has number
`n`, stands with one blank behind it. -/
def BlankBetween (texts : List Text) (n : Nat) (run : List Token) : Prop :=
  ∀ mid t u rest, run = mid ++ t :: u :: rest → texts[n + mid.length]? = some (t.text ++ [' '])

/-- The walk comes to every word of `run`, which stands behind the first `n` tokens, and does nothing
there. -/
def LeavesAlone (d : Dialect) (s : Style) (ts : List Token) (n : Nat) (run : List Token) : Prop :=
  ∀ k u, run[k]? = some u → (∃ w, Walk.ComesTo d s ts (n + k) u w) ∧
    ∀ t w, Walk.ComesTo d s ts (n + k) t w → t = u ∧ w.react d s t = w

section Clauses

variable {s : Style} {sql : Text} {front run back : List Token}

/-- The pieces of a run. -/
theorem JoinRun.exists_pieces {ts : List Token} (h : JoinRun ts front run back) :
    ∃ front' run' back', Piece.ofTokens ts = front' ++ (run' ++ back') ∧
      front'.map Piece.token = front ∧ run'.map Piece.token = run ∧ back'.map Piece.token = back := by
  have htokens : (Piece.ofTokens ts).map Piece.token = front ++ (run ++ back) :=
    (Piece.map_token_ofTokensAfter [] ts).trans h.tokens
  obtain ⟨front', behind, hps, hfront, hbehind⟩ := List.map_eq_append_iff.mp htokens
  obtain ⟨run', back', rfl, hrun, hback⟩ := List.map_eq_append_iff.mp hbehind
  exact ⟨front', run', back', hps, hfront, hrun, hback⟩

theorem JoinRun.kinds (h : JoinRun (normalize s (tokenize .standard sql)) front run back) :
    ∀ t ∈ run, t.kind = .keyword := by
  intro t ht
  have hmem : t ∈ Token.visible (normalize s (tokenize .standard sql)) := by simp [h.tokens, ht]
  exact kind_of_isJoinWord hmem (h.words t ht)

theorem JoinRun.blankBetween (hmark : IsMark s)
    (h : JoinRun (normalize s (tokenize .standard sql)) front run back) :
    BlankBetween (spans (layGlued .standard s (Piece.ofTokens (normalize s (tokenize .standard sql)))))
      front.length run := by
  rintro mid t u rest rfl
  obtain ⟨front', run', back', hps, rfl, hrun, -⟩ := h.exists_pieces
  obtain ⟨mid', parts, rfl, rfl, hparts⟩ := List.map_eq_append_iff.mp hrun
  obtain ⟨p, parts, rfl, rfl, hbehind⟩ := List.map_eq_cons_iff.mp hparts
  obtain ⟨q, rest', rfl, rfl, -⟩ := List.map_eq_cons_iff.mp hbehind
  have hps : Piece.ofTokens (normalize s (tokenize .standard sql)) =
      (front' ++ mid') ++ p :: q :: (rest' ++ back') := by simpa using hps
  have hstretch := stretch_between_words hmark hps (h.words _ (by simp)) (h.words _ (by simp))
  simpa using hstretch

theorem JoinRun.breaks_or_joined (hmark : IsMark s)
    (h : JoinRun (normalize s (tokenize .standard sql)) front run back)
    (hcall : (CallTrail.start.past .standard front).inCall = false) (hjoin : run.any isJoin = true)
    {outer : List Token} {p : Token} (hfront : front = outer ++ [p]) :
    (∃ text, (spans (layGlued .standard s
        (Piece.ofTokens (normalize s (tokenize .standard sql)))))[outer.length]? = some text ∧
          BreaksBehind (Settles p) text) ∨
      JoinedPair (spans (layGlued .standard s (Piece.ofTokens (normalize s (tokenize .standard sql)))))
        outer.length p run back := by
  have hreaches := reachesJoin_of_mem h.words hjoin (back.map Token.text)
  obtain ⟨front', run', back', hps, rfl, rfl, rfl⟩ := h.exists_pieces
  obtain ⟨outer', parts, rfl, rfl, hlast⟩ := List.map_eq_append_iff.mp hfront
  obtain ⟨p', parts, rfl, rfl, hnil⟩ := List.map_eq_cons_iff.mp hlast
  obtain rfl := List.map_eq_nil_iff.mp hnil
  obtain ⟨q, rest, rfl⟩ : ∃ q rest, run' = q :: rest :=
    List.exists_cons_of_ne_nil fun hempty => by simp [hempty] at hjoin
  have hps : Piece.ofTokens (normalize s (tokenize .standard sql)) =
      outer' ++ p' :: q :: (rest ++ back') := by simpa using hps
  have hcase := breaks_in_front hmark hps (h.starts _ (by simp)) (h.words _ (by simp))
    (by simpa [Function.comp_def] using hreaches) hcall
  rw [List.length_map]
  refine hcase.imp_right fun hpair => ?_
  -- a second word of the run would stand where the closing bracket stands
  cases rest with
  | nil => exact hpair
  | cons r rest =>
    obtain ⟨e, he, hclose⟩ := hpair.closes
    obtain rfl : r.token = e := by simpa using he
    have hkind := h.kinds r.token (by simp)
    rw [kind_of_isSymbol hclose] at hkind
    cases hkind

theorem JoinRun.leavesAlone (hmark : IsMark s)
    (h : JoinRun (normalize s (tokenize .standard sql)) front run back) (hother : run.any isJoin = false) :
    LeavesAlone .standard s (normalize s (tokenize .standard sql)) front.length run := by
  intro k u hu
  have hstill : ∀ t w, Walk.ComesTo .standard s (normalize s (tokenize .standard sql)) (front.length + k)
      t w → t = u ∧ w.react .standard s t = w := by
    rintro t w ⟨⟨v, hreaches, rfl⟩, ⟨after, hafter⟩, ht, hpassed⟩
    obtain ⟨rfl, hstart⟩ :=
      not_atJoinStart h h.kinds hother hu hreaches.visible_closed hafter ht hpassed
    have hmem := List.mem_of_getElem? hu
    rw [react_joinWord (h.kinds t hmem) (h.words t hmem), hstart]
    exact ⟨rfl, rfl⟩
  refine ⟨?_, hstill⟩
  obtain ⟨front', run', back', hps, rfl, rfl, -⟩ := h.exists_pieces
  rw [List.getElem?_map] at hu
  obtain ⟨p, hp, rfl⟩ := Option.map_eq_some_iff.mp hu
  obtain ⟨hlt, hget⟩ := List.getElem?_eq_some_iff.mp hp
  have hps : Piece.ofTokens (normalize s (tokenize .standard sql)) =
      (front' ++ run'.take k) ++ p :: (run'.drop (k + 1) ++ back') := by
    rw [hps, ← hget, List.append_assoc, ← List.cons_append, ← List.drop_eq_getElem_cons hlt,
      ← List.append_assoc (run'.take k), List.take_append_drop]
  have hword := h.words _ (List.mem_map_of_mem (List.mem_of_getElem? hp))
  obtain ⟨t, w, hcomes⟩ := exists_comesTo hmark hps hword
  have hlength : (front' ++ run'.take k).length = (front'.map Piece.token).length + k := by
    simp [hlt.le]
  rw [hlength] at hcomes
  exact ⟨w, (hstill t w hcomes).1 ▸ hcomes⟩

end Clauses

end SqlLayout.Layout
