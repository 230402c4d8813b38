import SqlLayout.Proofs.Layout.Aligned
import SqlLayout.Proofs.Layout.Calls

/-!
# Compounds taken apart

The walk gets compounds such as `ORDER BY` as one token.  Where a layout shows the tokens of the walk, it
shows those of the text as well, with the compounds taken apart (`Opens`, `exists_laid_opens`): what stands
behind a compound stands behind its last token.
-/

namespace SqlLayout.Layout

/-- `Opens bs os ps`: the pieces `os` show the tokens of the blocks `bs`, and the pieces `ps` are these
with each block taken apart. -/
inductive Opens : List Block → List Piece → List Piece → Prop
  | nil : Opens [] [] []
  | cons {b : Block} {bs : List Block} {o : Piece} {os ps : List Piece} {t : Token}
      (shown : Settles b.head.token t) (text : o.token.text = t.text ++ Piece.render b.more)
      (rest : Opens bs os ps) : Opens (b :: bs) (o :: os) (⟨o.gap, t⟩ :: (b.more ++ ps))

/-! ## Compounds -/

/-- A compound of several pieces is no comment, so it is shown as it is. -/
theorem Block.Joins.eq_token_of_settles {b : Block} (h : b.Joins) (hmore : b.more ≠ []) {t : Token}
    (ht : Settles b.token t) : t = b.token :=
  ht.eq_of_kind_ne fun hkind => hmore (h.plain hkind)

theorem spans_append (front : List Piece) (a e : Piece) (back : List Piece) :
    (spans (front ++ a :: e :: back))[front.length]? = some (a.token.text ++ e.gap) :=
  getElem?_spans (by simp) (by simp)

/-- From the last piece on there is no stretch. -/
theorem getElem?_spans_last {os : List Piece} {n : Nat} (h : os.length = n + 1) : (spans os)[n]? = none := by
  obtain ⟨front, o, rfl⟩ : ∃ front o, os = front ++ [o] :=
    (List.eq_nil_or_concat' os).resolve_left fun hempty => by simp [hempty] at h
  obtain rfl : front.length = n := by simpa using h
  have hdrop := congrArg List.head? (drop_spans (front ++ [o]) front.length)
  rwa [List.head?_drop, List.drop_left] at hdrop

namespace Opens

variable {bs fb bb : List Block} {os ps : List Piece} {b c : Block}

theorem exists_opens (hjoins : ∀ b ∈ bs, b.Joins)
    (h : List.Forall₂ Settles (bs.map Block.token) (os.map Piece.token)) : ∃ ps, Opens bs os ps := by
  rw [List.forall₂_map_left_iff, List.forall₂_map_right_iff] at h
  induction h with
  | nil => exact ⟨[], .nil⟩
  | @cons b o bs os ht _ ih =>
    obtain ⟨hb, hbs⟩ := List.forall_mem_cons.mp hjoins
    obtain ⟨ps, hps⟩ := ih hbs
    by_cases hmore : b.more = []
    · have hsame : b.token = b.head.token := by simp [Block.token, hmore, Token.withText]
      rw [hsame] at ht
      exact ⟨_, .cons ht (by simp [hmore]) hps⟩
    · have htext := congrArg Token.text (hb.eq_token_of_settles hmore ht)
      exact ⟨_, .cons (.inl rfl) (htext.trans b.text_token) hps⟩

theorem length_eq (h : Opens bs os ps) : os.length = bs.length := by
  induction h with
  | nil => rfl
  | cons _ _ _ ih => simp [ih]

/-- Taking blocks apart changes nothing about the text. -/
theorem render_eq (h : Opens bs os ps) : Piece.render ps = Piece.render os := by
  induction h with
  | nil => rfl
  | cons _ text _ ih => simp [Block.render_append, ih, text]

/-- The pieces show the tokens of the blocks. -/
theorem settles (h : Opens bs os ps) :
    List.Forall₂ Settles ((bs.flatMap Block.pieces).map Piece.token) (ps.map Piece.token) := by
  induction h with
  | nil => exact .nil
  | cons shown _ _ ih =>
    rw [List.flatMap_cons, Block.pieces, List.cons_append, List.map_cons, List.map_append, List.map_cons,
      List.map_append]
    exact .cons shown (List.rel_append (List.forall₂_same.mpr fun _ _ => .inl rfl) ih)

theorem length_pieces (h : Opens bs os ps) : ps.length = (bs.flatMap Block.pieces).length := by
  simpa using h.settles.length_eq.symm

theorem allBlank (h : Opens bs os ps) (hmore : ∀ b ∈ bs, ∀ p ∈ b.more, Text.allBlank p.gap = true)
    (hos : ∀ o ∈ os, Text.allBlank o.gap = true) : ∀ p ∈ ps, Text.allBlank p.gap = true := by
  induction h with
  | nil => exact hos
  | cons _ _ _ ih =>
    obtain ⟨hb, hbs⟩ := List.forall_mem_cons.mp hmore
    obtain ⟨ho, hos⟩ := List.forall_mem_cons.mp hos
    refine List.forall_mem_cons.mpr ⟨ho, fun p hp => ?_⟩
    rcases List.mem_append.mp hp with hp | hp
    · exact hb p hp
    · exact ih hbs hos p hp

theorem gap_head? (h : Opens bs os ps) (hos : ∀ o ∈ os.head?, o.gap = []) :
    ∀ p ∈ ps.head?, p.gap = [] := by
  cases h with
  | nil => exact hos
  | cons _ _ _ => simpa using hos

/-! ## Where the pieces stand -/

theorem exists_append (h : Opens (fb ++ bb) os ps) :
    ∃ os₁ os₂ ps₁ ps₂, os = os₁ ++ os₂ ∧ ps = ps₁ ++ ps₂ ∧ Opens fb os₁ ps₁ ∧ Opens bb os₂ ps₂ := by
  induction fb generalizing os ps with
  | nil => exact ⟨[], os, [], ps, rfl, rfl, .nil, h⟩
  | cons b fb ih =>
    cases h with
    | cons shown text rest =>
      obtain ⟨os₁, os₂, ps₁, ps₂, rfl, rfl, hfront, hback⟩ := ih rest
      exact ⟨_, os₂, _, ps₂, rfl, by simp, .cons shown text hfront, hback⟩

/-- Behind the last piece of a block stands what stands behind the block.  A block on its own reads as its
piece does, and a compound is shown as it is. -/
theorem spans_last (h : Opens (fb ++ b :: c :: bb) os ps) (hjoins : b.Joins) :
    ∃ t x gap, (spans os)[fb.length]? = some (t ++ gap) ∧
      (spans ps)[(fb.flatMap Block.pieces).length + b.more.length]? = some (x ++ gap) ∧
      (b.more = [] → x = t) ∧ ∀ p ∈ b.more.getLast?, x = p.token.text ∧ t = b.token.text := by
  obtain ⟨os₁, os₂, ps₁, ps₂, rfl, rfl, hfront, hback⟩ := h.exists_append
  rw [← hfront.length_eq, ← hfront.length_pieces]
  cases hback with
  | @cons _ _ o os ps t shown text rest =>
    cases rest with
    | @cons _ _ o' os' ps' t' shown' text' rest =>
      refine ⟨o.token.text, ((b.more.getLast?.map Piece.token).getD t).text, o'.gap,
        spans_append os₁ o o' os', ?_, fun hmore => by simp [text, hmore], fun p hp => ?_⟩
      · obtain hmore | ⟨init, x, hmore⟩ := List.eq_nil_or_concat' b.more
        · simpa [hmore] using spans_append ps₁ ⟨o.gap, t⟩ ⟨o'.gap, t'⟩ (c.more ++ ps')
        · have hspan := spans_append (ps₁ ++ ⟨o.gap, t⟩ :: init) x ⟨o'.gap, t'⟩ (c.more ++ ps')
          rw [hmore]
          simpa [Nat.add_assoc] using hspan
      · rw [Option.mem_def] at hp
        have hmore : b.more ≠ [] := by
          intro hmore
          simp [hmore] at hp
        have hkind : b.head.token.kind ≠ .comment := fun hkind => hmore (hjoins.plain hkind)
        exact ⟨by simp [hp], by rw [text, shown.eq_of_kind_ne hkind, Block.text_token]⟩

/-- From a block on its own up to the next one the text is the same. -/
theorem spans_single (h : Opens (fb ++ b :: bb) os ps) (hjoins : b.Joins) (hmore : b.more = []) :
    (spans ps)[(fb.flatMap Block.pieces).length]? = (spans os)[fb.length]? := by
  cases bb with
  | nil =>
    have hos := h.length_eq
    have hps := h.length_pieces
    simp only [List.length_append, List.flatMap_append, List.flatMap_cons, List.flatMap_nil, Block.pieces,
      hmore, List.length_singleton, List.append_nil] at hos hps
    rw [getElem?_spans_last hos, getElem?_spans_last hps]
  | cons c bb =>
    obtain ⟨t, x, gap, hos, hps, hsame, -⟩ := h.spans_last hjoins
    rw [hos, ← hsame hmore, ← hps, hmore, List.length_nil, Nat.add_zero]

end Opens

/-! ## Blocks of one piece -/

section Blocks

variable {bs : List Block} {front run back : List Piece} {q : Piece}

/-- A piece that stands in no compound is a block on its own. -/
theorem exists_blocks_cons (h : bs.flatMap Block.pieces = front ++ q :: back)
    (hq : ∀ b ∈ bs, q ∈ b.pieces → b.more = []) :
    ∃ fb bb, bs = fb ++ .ofPiece q :: bb ∧ fb.flatMap Block.pieces = front ∧
      bb.flatMap Block.pieces = back := by
  induction bs generalizing front with
  | nil => simp at h
  | cons b bs ih =>
    have hbs : ∀ c ∈ bs, q ∈ c.pieces → c.more = [] := fun c hc => hq c (List.mem_cons_of_mem b hc)
    rw [List.flatMap_cons, List.append_eq_append_iff] at h
    obtain ⟨front', rfl, hrest⟩ | ⟨inside, hpieces, hrest⟩ := h
    · obtain ⟨fb, bb, rfl, rfl, rfl⟩ := ih hrest hbs
      exact ⟨b :: fb, bb, rfl, rfl, rfl⟩
    · cases inside with
      | nil =>
        have hback : bs.flatMap Block.pieces = [] ++ q :: back := hrest.symm
        obtain ⟨fb, bb, rfl, hfb, rfl⟩ := ih hback hbs
        exact ⟨b :: fb, bb, rfl, by simpa [hfb] using hpieces, rfl⟩
      | cons x inside =>
        obtain ⟨rfl, rfl⟩ := List.cons_eq_cons.mp hrest
        have hmore := hq b (by simp) (by simp [hpieces])
        obtain ⟨head, more⟩ := b
        subst hmore
        obtain ⟨rfl, rfl, rfl⟩ : front = [] ∧ q = head ∧ inside = [] := by
          simpa [Block.pieces, List.singleton_eq_append_iff] using hpieces
        exact ⟨[], bs, rfl, rfl, rfl⟩

/-- Pieces that stand in no compounds are blocks on their own. -/
theorem exists_blocks_append (h : bs.flatMap Block.pieces = run ++ back)
    (hrun : ∀ b ∈ bs, ∀ p ∈ run, p ∈ b.pieces → b.more = []) :
    ∃ bb, bs = run.map .ofPiece ++ bb ∧ bb.flatMap Block.pieces = back := by
  induction run generalizing bs with
  | nil => exact ⟨bs, rfl, h⟩
  | cons q run ih =>
    have hfirst : bs.flatMap Block.pieces = [] ++ q :: (run ++ back) := h
    obtain ⟨fb, bb, rfl, hfb, hbb⟩ :=
      exists_blocks_cons hfirst fun b hb => hrun b hb q (List.mem_cons_self ..)
    obtain rfl : fb = [] := by
      cases fb with
      | nil => rfl
      | cons b fb => simp [Block.pieces] at hfb
    obtain ⟨bb, rfl, hback⟩ := ih hbb fun b hb p hp => hrun b (by simp [hb]) p (by simp [hp])
    exact ⟨bb, rfl, hback⟩

end Blocks

/-! ## Layouts -/

/-- Where a layout shows the tokens of the walk, it shows those of the text. -/
theorem exists_laid_opens {d : Dialect} {s : Style} {sql : Text} {os : List Piece}
    (h : Located (normalize s (tokenize d sql)) os) :
    ∃ ps, Opens (glueBlocks (reduce s (Piece.ofTokens (tokenize d sql)))) os ps ∧
      Laid s (tokenize d sql) ps := by
  have hshows := h.shows
  rw [visible_normalize] at hshows
  obtain ⟨ps, hopens⟩ := Opens.exists_opens (joins_glueBlocks _) hshows
  have hsettles := hopens.settles
  rw [flatMap_pieces_glueBlocks, map_token_reduce, List.forall₂_map_left_iff] at hsettles
  refine ⟨ps, hopens, hsettles.imp fun _ _ => shows_of_settles, ?_, hopens.gap_head? h.first⟩
  refine hopens.allBlank (fun b hb p hp => ?_) h.blank
  have hmem : p ∈ reduce s (Piece.ofTokens (tokenize d sql)) := by
    rw [← flatMap_pieces_glueBlocks (reduce s (Piece.ofTokens (tokenize d sql)))]
    exact List.mem_flatMap.mpr ⟨b, hb, List.mem_cons_of_mem _ hp⟩
  rcases (spread_reduce d s sql).blank p hmem with hgap | hgap <;> rw [hgap] <;> decide

/-! ## Function calls -/

/-- A compound is a symbol or has a blank in it. -/
theorem blank_of_compound {ps : List Piece} (h : Spread ps) {b : Block} (hb : b ∈ glueBlocks ps)
    (hmore : b.more ≠ []) : b.token.kind = .symbol ∨ ' ' ∈ b.token.text := by
  obtain ⟨fb, bb, hsplit⟩ := List.append_of_mem hb
  have hps := flatMap_pieces_glueBlocks ps
  rw [hsplit, List.flatMap_append, List.flatMap_cons] at hps
  have hspread := h.suffix ⟨_, hps⟩
  cases joins_glueBlocks ps b hb with
  | single p => exact absurd rfl hmore
  | clause p q pair =>
    right
    have hgap := hspread.apart_of_isClausePair pair
    simp [Block.text_token, hgap]
  | mark p q r triple => exact .inl (kinds_of_isMarkTriple triple).1

/-- No compound is known to the standard dialect. -/
theorem classify_of_compound {s : Style} {sql : Text} {b : Block}
    (hb : b ∈ glueBlocks (reduce s (Piece.ofTokens (tokenize .standard sql)))) (hmore : b.more ≠ []) :
    b.token.kind = .symbol ∨ (Dialect.standard.classify b.token.text).isSome = false :=
  (blank_of_compound (spread_reduce .standard s sql) hb hmore).imp_right
    fun hblank => Dialect.classify_of_mem hblank (.inr (.inr rfl))

/-- A reader of the compounds knows what a reader of their tokens does. -/
theorem CallTrail.past_compound {s : Style} {sql : Text} {b : Block}
    (hb : b ∈ glueBlocks (reduce s (Piece.ofTokens (tokenize .standard sql)))) (r : CallTrail) :
    r.past .standard (b.pieces.map Piece.token) = r.next .standard b.token := by
  obtain ⟨hcalls, hnamed⟩ := CallTrail.past_pieces .standard (joins_glueBlocks _ b hb) r
  by_cases hmore : b.more = []
  · obtain ⟨p, more⟩ := b
    subst hmore
    rw [Block.token_single]
    rfl
  · have hother : namesFunction .standard b.token = false := by
      rcases classify_of_compound hb hmore with hkind | hunknown
      · exact namesFunction_of_kind (.inl hkind)
      · simp only [Option.isSome_eq_false_iff, Option.isNone_iff_eq_none] at hunknown
        simp [namesFunction, Dialect.isFunction, hunknown]
    rw [hother, Bool.false_eq_true, imp_false, Bool.not_eq_true] at hnamed
    rw [next, hother, ← hcalls, ← hnamed]

theorem CallTrail.past_compounds {s : Style} {sql : Text} {bs : List Block}
    (hbs : ∀ b ∈ bs, b ∈ glueBlocks (reduce s (Piece.ofTokens (tokenize .standard sql)))) (r : CallTrail) :
    r.past .standard ((bs.flatMap Block.pieces).map Piece.token) = r.past .standard (bs.map Block.token) := by
  induction bs generalizing r with
  | nil => rfl
  | cons b bs ih =>
    obtain ⟨hb, hbs⟩ := List.forall_mem_cons.mp hbs
    rw [List.flatMap_cons, List.map_append, past_append, past_compound hb, ih hbs, List.map_cons, past_cons]

/-- A reader of calls does not mind the case of keywords. -/
theorem CallTrail.past_recase {d : Dialect} (hd : d.Extends) {s : Style} {sql : Text} {ts : List Token}
    (hts : ∀ t ∈ ts, t ∈ tokenize d sql) (r : CallTrail) :
    r.past d (ts.map (recase s)) = r.past d ts := by
  induction ts generalizing r with
  | nil => rfl
  | cons t ts ih =>
    obtain ⟨ht, hts⟩ := List.forall_mem_cons.mp hts
    rw [List.map_cons, past_cons, past_cons, next_shows hd ht (shows_of_settles (.inl rfl)), ih hts]

end SqlLayout.Layout
