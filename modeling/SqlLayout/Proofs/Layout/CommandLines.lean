import SqlLayout.Proofs.Layout.Statements
import SqlLayout.Proofs.Layout.Normalized

/-!
# Where command lines end

A command takes the rest of its line, so behind it the layout has to put a line feed again.  The walk
breaks the line behind a command unless a function call is open.  That break does not survive in
front of a delimiter or a line comment, nor when the command stands alone in a bracket pair; in front
of any other token there is a line feed (`commandGaps_allowed`).
-/

namespace SqlLayout.Layout

/-- What a reader of the tokens remembers of the token in front. -/
inductive Trail where
  | other
  /-- An opening bracket. -/
  | bracket
  /-- A command; `bracketed` says that an opening bracket stands right in front of it. -/
  | command (bracketed : Bool)
  deriving DecidableEq, Repr

namespace Trail

/-- The trail behind a token. -/
def next (r : Trail) (t : Token) : Trail :=
  if t.kind = .command then .command (r == .bracket)
  else if t.isSymbol ['('] then .bracket
  else .other

/-- The trail behind some pieces. -/
def past (r : Trail) (ps : List Piece) : Trail := ps.foldl (fun r p => r.next p.token) r

end Trail

/-- Whether every word that is registered as a function starts with a letter. -/
def namesFunctions (d : Dialect) : Bool :=
  d.words.all fun w => w.2 != .function || w.1.head?.any Lexer.isLetter

/-- What a reader of the tokens knows of function calls. -/
structure CallReader where
  /-- For each open bracket, innermost first, whether it is a function call. -/
  calls : List (Option Bool)
  /-- Whether a bracket that comes next is a function call. -/
  ahead : Option Bool
  deriving DecidableEq, Repr

namespace CallReader

/-- The reader in front of the first token, which is judged as if a blank stood there. -/
def start (d : Dialect) : CallReader := ⟨[], some (d.isFunction [' '])⟩

/-- Whether a bracket behind `t` is a function call.  In place of a delimiter or a line comment the
layout may look at white space or at a trimmed text; neither is a function as long as functions have
names that start with a letter. -/
def judge (d : Dialect) (s : Style) (t : Token) : Option Bool :=
  if s.isDelimiter t.text || isLineComment t then
    if namesFunctions d then some false else none
  else some (d.isFunction t.text)

/-- The reader behind a token. -/
def next (d : Dialect) (s : Style) (c : CallReader) (t : Token) : CallReader where
  calls :=
    if t.isSymbol ['('] then c.ahead :: c.calls
    else if t.isSymbol [')'] then c.calls.tail
    else c.calls
  ahead := judge d s t

end CallReader

/-- What can be promised of the white space between a command and the next token. -/
inductive Stand where
  /-- A function call is open, which keeps everything on one line. -/
  | inCall
  /-- Nothing is promised. -/
  | crowded
  /-- The line ends behind the command. -/
  | free
  deriving DecidableEq, Repr

/-- Whether the white space is as promised. -/
def Stand.Allows : Stand → Text → Prop
  | .inCall, gap => '\n' ∉ gap
  | .crowded, _ => True
  | .free, gap => '\n' ∈ gap

/-- What can be promised in front of the token `t` behind a command.  The break is lost to a delimiter
or a line comment, and with the command alone in a bracket pair. -/
def CallReader.stand (s : Style) (c : CallReader) (bracketed : Bool) (t : Token) : Stand :=
  if c.calls.contains (some true) then .inCall
  else if s.isDelimiter t.text || isLineComment t || bracketed && t.isSymbol [')'] then .crowded
  else if c.calls.contains none then .crowded
  else .free

/-- What can be promised in front of the token `t`, when the token in front is a command. -/
def Trail.stand (s : Style) (c : CallReader) (r : Trail) (t : Token) : List Stand :=
  match r with
  | .command bracketed => [c.stand s bracketed t]
  | .other | .bracket => []

/-- What can be promised behind the commands, in order, as far as another token follows. -/
def commandStands (d : Dialect) (s : Style) : Trail → CallReader → List Token → List Stand
  | _, _, [] => []
  | r, c, t :: ts => r.stand s c t ++ commandStands d s (r.next t) (c.next d s t) ts

/-- The white space behind the commands, in order, as far as another token follows. -/
def commandGaps : List Piece → List Text
  | p :: q :: ps =>
    if p.token.kind = .command then q.gap :: commandGaps (q :: ps) else commandGaps (q :: ps)
  | _ => []

/-! ## White space behind commands -/

/-- The white space behind a command. -/
structure Spot where
  /-- Whether the command stands alone in a bracket pair. -/
  alone : Bool
  gap : Text
  deriving DecidableEq, Repr

/-- The white space in front of a piece, when the piece in front is a command. -/
def Trail.spot (r : Trail) (p : Piece) : List Spot :=
  match r with
  | .command bracketed => [⟨bracketed && p.token.isSymbol [')'], p.gap⟩]
  | .other | .bracket => []

/-- The white space behind the commands, read from a trail on. -/
def spots : Trail → List Piece → List Spot
  | _, [] => []
  | r, p :: ps => r.spot p ++ spots (r.next p.token) ps

/-- Line feeds behind commands are kept, except where a command stands alone in a bracket pair. -/
structure Spot.Keeps (a b : Spot) : Prop where
  alone : b.alone = a.alone
  back : '\n' ∈ b.gap → '\n' ∈ a.gap
  forth : a.alone = false → '\n' ∈ a.gap → '\n' ∈ b.gap

/-- Whether the white space behind a command is as promised, and can be relied on. -/
structure Stand.Admits (stand : Stand) (x : Spot) : Prop where
  allows : stand.Allows x.gap
  sure : stand = .free → x.alone = false

section Spots

variable {r : Trail} {a b : Spot}

@[simp] theorem Trail.past_nil (r : Trail) : r.past [] = r := rfl

theorem Trail.past_cons (r : Trail) (p : Piece) (ps : List Piece) :
    r.past (p :: ps) = (r.next p.token).past ps := rfl

theorem Trail.past_append (r : Trail) (ps qs : List Piece) :
    r.past (ps ++ qs) = (r.past ps).past qs := by
  simp [Trail.past]

theorem Trail.past_withGap (r : Trail) (b : Block) (gap : Text) :
    r.past (b.withGap gap).pieces = r.past b.pieces := rfl

theorem spots_append (r : Trail) (ps qs : List Piece) :
    spots r (ps ++ qs) = spots r ps ++ spots (r.past ps) qs := by
  induction ps generalizing r with
  | nil => rfl
  | cons p ps ih => rw [List.cons_append, spots, spots, ih, Trail.past_cons, List.append_assoc]

theorem Spot.Keeps.refl (a : Spot) : a.Keeps a := ⟨rfl, id, fun _ => id⟩

theorem Spot.Keeps.trans {c : Spot} (h : a.Keeps b) (h' : b.Keeps c) : a.Keeps c where
  alone := h'.alone.trans h.alone
  back := h.back ∘ h'.back
  forth := fun halone hgap => h'.forth (h.alone.trans halone) (h.forth halone hgap)

theorem Stand.Admits.keeps {stand : Stand} (h : stand.Admits a) (hkeeps : a.Keeps b) :
    stand.Admits b := by
  refine ⟨?_, fun hfree => hkeeps.alone.trans (h.sure hfree)⟩
  cases stand with
  | inCall => exact mt hkeeps.back h.allows
  | crowded => trivial
  | free => exact hkeeps.forth (h.sure rfl) h.allows

/-- A reader looks at commands and opening brackets. -/
theorem Trail.next_congr (r : Trail) {t t' : Token} (hkind : t'.kind = t.kind)
    (h : t'.isSymbol ['('] = t.isSymbol ['(']) : r.next t' = r.next t := by
  simp [Trail.next, hkind, h]

theorem Trail.next_of_kind_ne (r : Trail) {t : Token} (h : t.kind ≠ .symbol) (h' : t.kind ≠ .command) :
    r.next t = .other := by
  simp [Trail.next, h', isSymbol_of_kind_ne h]

theorem Trail.next_of_text_ne (r : Trail) {t : Token} (h : t.kind = .symbol) (h' : t.text ≠ ['(']) :
    r.next t = .other := by
  simp [Trail.next, h, Token.isSymbol, h']

theorem Trail.next_of_bracket (r : Trail) {t : Token} (h : t.isSymbol ['('] = true) :
    r.next t = .bracket := by
  simp [Trail.next, kind_of_isSymbol h, h]

/-- Only a command leaves the trail of a command. -/
theorem Trail.kind_of_next {t : Token} {bracketed : Bool} (h : r.next t = .command bracketed) :
    t.kind = .command ∧ bracketed = (r == .bracket) := by
  unfold Trail.next at h
  split at h
  · next hkind => exact ⟨hkind, (Trail.command.inj h).symm⟩
  · split at h <;> cases h

end Spots

/-- The spots are the gaps behind the commands. -/
theorem map_gap_spots (r : Trail) (ps : List Piece) :
    (spots r ps).map Spot.gap = (ps.head?.toList.flatMap fun p => (r.spot p).map Spot.gap) ++
      commandGaps ps := by
  induction ps generalizing r with
  | nil => rfl
  | cons p ps ih =>
    rw [spots, List.map_append, ih]
    cases ps with
    | nil => simp [commandGaps]
    | cons q ps =>
      by_cases hkind : p.token.kind = .command
      · simp [commandGaps, hkind, Trail.next, Trail.spot]
      · have hnone : (r.next p.token).spot q = [] := by
          unfold Trail.next
          rw [if_neg hkind]
          split <;> rfl
        simp [commandGaps, hkind, hnone]

theorem map_gap_spots_other (ps : List Piece) : (spots .other ps).map Spot.gap = commandGaps ps := by
  rw [map_gap_spots]
  cases ps <;> rfl

/-! ## Compounds -/

namespace Block.Joins

variable {b : Block}

/-- A compound leaves the trail of one token. -/
theorem past_pieces (h : b.Joins) (r : Trail) : r.past b.pieces = r.next b.token := by
  cases h with
  | single p =>
    rw [Block.token_single]
    rfl
  | clause p q pair =>
    obtain ⟨hp, hq⟩ := kinds_of_isClausePair pair
    rw [r.next_of_kind_ne (by simp [hp]) (by simp [hp])]
    exact Trail.next_of_kind_ne _ (by simp [hq]) (by simp [hq])
  | mark p q t triple =>
    have hclose : t.token.text ≠ ['('] := by
      rcases isMarkTriple_cases triple with ⟨-, -, ht⟩ | ⟨-, -, ht⟩ <;> simp [text_of_isSymbol ht]
    obtain ⟨hp, -, ht⟩ := kinds_of_isMarkTriple triple
    have hnext : r.next (⟨p, [q, t]⟩ : Block).token = .other := by
      simp [Trail.next, hp, isSymbol_of_isMarkTriple triple]
    rw [hnext]
    exact Trail.next_of_text_ne _ ht hclose

/-- No white space inside a compound is behind a command. -/
theorem spots_pieces (h : b.Joins) (r : Trail) : spots r b.pieces = r.spot b.head := by
  cases h with
  | single p => simp [Block.pieces, spots]
  | clause p q pair =>
    obtain ⟨hp, -⟩ := kinds_of_isClausePair pair
    rw [Block.pieces, spots, r.next_of_kind_ne (by simp [hp]) (by simp [hp])]
    simp [spots, Trail.spot]
  | mark p q t triple =>
    rcases isMarkTriple_cases triple with ⟨hp, hq, -⟩ | ⟨hp, hq, -⟩
    · simp [Block.pieces, spots, Trail.spot, r.next_of_bracket hp,
        Trail.next_of_text_ne .bracket (kind_of_isSymbol hq) (by simp [text_of_isSymbol hq])]
    · simp [Block.pieces, spots, Trail.spot,
        r.next_of_text_ne (kind_of_isSymbol hp) (by simp [text_of_isSymbol hp]),
        Trail.next_of_kind_ne .other (t := q.token) (by simp [hq]) (by simp [hq])]

/-- A compound begins with no closing bracket, or is one. -/
theorem isSymbol_close (h : b.Joins) :
    b.head.token.isSymbol [')'] = b.token.isSymbol [')'] := by
  cases h with
  | single p => rw [Block.token_single]
  | clause p q pair =>
    obtain ⟨hp, -⟩ := kinds_of_isClausePair pair
    rw [isSymbol_of_kind_ne (by simp [hp]), isSymbol_of_kind_ne (by simp [hp])]
  | mark p q t triple =>
    rw [isSymbol_of_isMarkTriple triple]
    rcases isMarkTriple_cases triple with ⟨hp, -, -⟩ | ⟨hp, -, -⟩ <;>
      simp [Token.isSymbol, text_of_isSymbol hp]

end Block.Joins

/-! ## The walk -/

section Walk

variable {d : Dialect} {s : Style} {h : Hand}

/-- What the walk carries behind a command. -/
def Trail.Leads (r : Trail) (h : Hand) : Prop :=
  ∀ bracketed, r = .command bracketed → h.lead = if h.footing.inCall then .flow else .line 0

/-- Behind a command the walk carries a break, unless a function call is open. -/
theorem leads_pass {r : Trail} {p : Piece} (rest : List Text)
    (hmarks : s.isDelimiter p.token.text = true → p.token.kind = .symbol) :
    (r.next p.token).Leads (h.pass d s rest p).hand := by
  intro bracketed hnext
  have hkind := (Trail.kind_of_next hnext).1
  have hother : s.isDelimiter p.token.text = false :=
    Bool.eq_false_iff.mpr fun hdelimiter => by simp [hmarks hdelimiter] at hkind
  have hskip : h.skips? s p.token = none := by
    unfold Hand.skips?
    split
    · rw [hother]
      rfl
    · rfl
  have hshown : h.shown p.token = p.token := h.shown_of_kind_ne (by simp [hkind])
  have hopen : isOpenComment p.token = false := by
    simp [isOpenComment, isLineComment_of_kind_ne (t := p.token) (by simp [hkind])]
  have hmove : ∃ first, h.move d s rest p.gap p.token = Move.onCommand first h.footing := by
    rw [Hand.move, hshown, moveOf, hkind]
    exact ⟨_, rfl⟩
  obtain ⟨first, hmove⟩ := hmove
  simp only [Hand.pass, hskip, Hand.visit, hmove, hshown, Hand.leadBehind, hother, hopen,
    Bool.false_eq_true, ↓reduceIte, Move.onCommand, Footing.breakAt]
  change (if h.footing.inCall then none else some 0).elim Lead.flow Lead.line =
    if h.footing.inCall then Lead.flow else Lead.line 0
  cases h.footing.inCall <;> rfl

/-- Inside a function call the line goes on behind a command. -/
theorem feed_not_mem_pass {bracketed : Bool} (hlead : (Trail.command bracketed).Leads h)
    (hcall : h.footing.inCall = true) {p : Piece} (hgap : p.gap = [] ∨ p.gap = [' '])
    (rest : List Text) : '\n' ∉ (h.pass d s rest p).gap := by
  rw [gap_pass_of_inCall hcall (by simpa [hcall] using hlead bracketed rfl)]
  rcases hgap with hgap | hgap <;> simp [hgap]

/-- Outside function calls the line ends behind a command, except in front of a delimiter or a line
comment. -/
theorem feed_mem_pass {bracketed : Bool} (hlead : (Trail.command bracketed).Leads h)
    (hcall : h.footing.inCall = false) {p : Piece} (hdelimiter : s.isDelimiter p.token.text = false)
    (hline : isLineComment p.token = false) (rest : List Text) :
    '\n' ∈ (h.pass d s rest p).gap := by
  have hline0 : h.lead = .line 0 := by simpa [hcall] using hlead bracketed rfl
  have hskip : h.skips? s p.token = none := by simp [Hand.skips?, hline0, hdelimiter]
  have hbefore : h.gapBefore s p.gap p.token = s.lineBreak 0 := by
    simp [Hand.gapBefore, hline0, breakText, hline]
  simp only [Hand.pass, hskip, Hand.visit, Hand.gapAfter, hbefore]
  split
  · exact feed_mem_lineBreak s 0
  · cases (h.move d s rest p.gap p.token).here with
    | none => exact feed_mem_lineBreak s 0
    | some level => exact feed_mem_lineBreak s level

theorem NamesFunctions.of_namesFunctions (hnames : namesFunctions d = true) : NamesFunctions d := by
  intro text hfunction
  have hmem : (Text.upper text, WordKind.function) ∈ d.words :=
    Text.mem_of_lookup (by simpa [Dialect.isFunction, Dialect.classify] using hfunction)
  have hword := List.all_eq_true.mp hnames _ hmem
  simp only [bne_self_eq_false, Bool.false_or, Option.any_eq_true] at hword
  obtain ⟨c, hc, hletter⟩ := hword
  exact exists_letter_of_upper hc hletter

/-- What a reader knows of function calls is what the walk goes by. -/
structure CallReader.Hears (d : Dialect) (c : CallReader) (h : Hand) : Prop where
  calls : List.Forall₂ (fun known b => ∀ call ∈ known, b.isCall = call) c.calls h.footing.brackets
  ahead : ∀ call ∈ c.ahead, d.isFunction h.previous = call

theorem CallReader.hears_start (d : Dialect) : (CallReader.start d).Hears d .start where
  calls := .nil
  ahead := by simp [CallReader.start, Hand.start]

/-- Where a reader judges a token, the walk finds the same in the text it takes for it. -/
theorem CallReader.isFunction_of_judge (hmark : IsMark s) {t : Token} {call : Bool}
    (hjudge : call ∈ judge d s t) {text : Text}
    (htext : text = t.text ∨ text = (settle t).text ∨
      s.isDelimiter t.text = true ∧ Text.allBlank text = true) : d.isFunction text = call := by
  unfold judge at hjudge
  split at hjudge
  · next hodd =>
    split at hjudge
    · next hnames =>
      have hnames := NamesFunctions.of_namesFunctions hnames
      obtain rfl : false = call := by simpa using hjudge
      have hplain : d.isFunction t.text = false := by
        rcases Bool.or_eq_true_iff.mp hodd with hdelimiter | hline
        · exact isFunction_delimiter hnames hmark hdelimiter
        · simp only [isLineComment, Bool.and_eq_true] at hline
          exact isFunction_of_isLineComment hnames hline.2
      rcases htext with rfl | rfl | ⟨-, hblank⟩
      · exact hplain
      · rw [isFunction_settle hnames, hplain]
      · exact isFunction_of_allBlank hnames hblank
    · simp at hjudge
  · next hplain =>
    simp only [Bool.or_eq_true, not_or, Bool.not_eq_true] at hplain
    obtain rfl : d.isFunction t.text = call := by simpa using hjudge
    rcases htext with rfl | rfl | ⟨hdelimiter, -⟩
    · rfl
    · simp [settle, hplain.2]
    · rw [hplain.1] at hdelimiter
      cases hdelimiter

theorem CallReader.Hears.pass (hmark : IsMark s) {c : CallReader} (hears : c.Hears d h)
    (rest : List Text) (p : Piece) : (c.next d s p.token).Hears d (h.pass d s rest p).hand := by
  cases hskip : h.skips? s p.token with
  | some level =>
    obtain ⟨-, hdelimiter⟩ := Hand.lead_of_skips? hskip
    obtain ⟨hopen, hclose, -⟩ := text_ne_of_isDelimiter hmark hdelimiter
    have hblank : Text.allBlank (s.lineBreak level ++ s.lineBreak level) = true := by
      rw [Text.allBlank_append, (isGap_lineBreak s level).2, Bool.and_self]
    have hcalls : (c.next d s p.token).calls = c.calls := by
      simp [CallReader.next, Token.isSymbol, hopen, hclose]
    simp only [Hand.pass, hskip, Hand.skip]
    exact ⟨hcalls ▸ hears.calls,
      fun _ hcall => CallReader.isFunction_of_judge hmark hcall (.inr (.inr ⟨hdelimiter, hblank⟩))⟩
  | none =>
    simp only [Hand.pass, hskip, Hand.visit, Hand.move]
    refine ⟨?_, fun _ hcall => CallReader.isFunction_of_judge hmark hcall ?_⟩
    · rw [brackets_moveOf, isSymbol_shown, isSymbol_shown]
      unfold CallReader.next
      dsimp only
      split
      · exact .cons hears.ahead hears.calls
      · split
        · simpa using List.forall₂_drop 1 hears.calls
        · exact hears.calls
    · unfold Hand.shown
      split <;> simp

theorem CallReader.Hears.inCall {c : CallReader} (hears : c.Hears d h)
    (hknown : c.calls.contains (some true) = true) : h.footing.inCall = true := by
  obtain ⟨hcalls, -⟩ := hears
  unfold Footing.inCall
  generalize c.calls = calls, h.footing.brackets = brackets at hcalls hknown
  induction hcalls with
  | nil => simp at hknown
  | cons hcall _ ih =>
    rw [List.contains_cons, Bool.or_eq_true] at hknown
    rw [List.any_cons, Bool.or_eq_true]
    exact hknown.imp (fun hhead => hcall true (eq_of_beq hhead).symm) ih

theorem CallReader.Hears.inCall_eq_false {c : CallReader} (hears : c.Hears d h)
    (hcall : c.calls.contains (some true) = false) (hknown : c.calls.contains none = false) :
    h.footing.inCall = false := by
  obtain ⟨hcalls, -⟩ := hears
  unfold Footing.inCall
  generalize c.calls = calls, h.footing.brackets = brackets at hcalls hcall hknown
  induction hcalls with
  | nil => rfl
  | @cons known b _ _ hhead _ ih =>
    rw [List.contains_cons, Bool.or_eq_false_iff] at hcall hknown
    rw [List.any_cons, Bool.or_eq_false_iff]
    refine ⟨?_, ih hcall.2 hknown.2⟩
    cases known with
    | none => simp at hknown
    | some call =>
      have hfalse : call = false := by simpa using hcall.1
      rw [hhead call rfl, hfalse]

/-- The promise in front of a token is kept and can be relied on. -/
theorem admits_pass {c : CallReader} {bracketed : Bool} (hlead : (Trail.command bracketed).Leads h)
    (hears : c.Hears d h) {p : Piece} (hgap : p.gap = [] ∨ p.gap = [' ']) (rest : List Text) :
    (c.stand s bracketed p.token).Admits
      ⟨bracketed && p.token.isSymbol [')'], (h.pass d s rest p).gap⟩ := by
  unfold CallReader.stand
  split
  · next hcall =>
    exact ⟨feed_not_mem_pass hlead (hears.inCall hcall) hgap rest, by simp⟩
  · next hcall =>
    split
    · exact ⟨trivial, by simp⟩
    · next hother =>
      split
      · exact ⟨trivial, by simp⟩
      · next hknown =>
        simp only [Bool.or_eq_true, not_or, Bool.not_eq_true] at hcall hother hknown
        exact ⟨feed_mem_pass hlead (hears.inCall_eq_false hcall hknown) hother.1.1 hother.1.2 rest,
          fun _ => hother.2⟩

/-- The walk leaves white space behind the commands as promised. -/
theorem admits_placeBlocks (hmark : IsMark s) {bs : List Block} {r : Trail} {c : CallReader}
    (hlead : r.Leads h) (hears : c.Hears d h) (hjoins : ∀ b ∈ bs, b.Joins)
    (hmarks : ∀ b ∈ bs, s.isDelimiter b.token.text = true → b.token.kind = .symbol)
    (hgaps : ∀ b ∈ bs, b.head.gap = [] ∨ b.head.gap = [' ']) :
    List.Forall₂ Stand.Admits (commandStands d s r c (bs.map Block.token))
      (spots r ((placeBlocks d s h bs).flatMap Block.pieces)) := by
  induction bs generalizing r c h with
  | nil => exact .nil
  | cons b bs ih =>
    have hb := hjoins b (by simp)
    have hshown := hb.shown h (h.pass d s (bs.map (·.token.text)) b.piece).gap
    have hnext : r.next (h.shown b.token) = r.next b.token :=
      r.next_congr (h.kind_shown _) (isSymbol_shown h _ _)
    rw [List.map_cons, commandStands, placeBlocks, List.flatMap_cons, spots_append,
      hshown.spots_pieces, hshown.past_pieces, token_shown h _ hb.plain, hnext]
    refine List.rel_append ?_ (ih (leads_pass (p := b.piece) _ (hmarks b (by simp)))
      (hears.pass hmark _ b.piece) (fun x hx => hjoins x (by simp [hx])) (fun x hx => hmarks x (by simp [hx]))
      fun x hx => hgaps x (by simp [hx]))
    cases r with
    | other => exact .nil
    | bracket => exact .nil
    | command bracketed =>
      have hclose : (h.shown b.head.token).isSymbol [')'] = b.token.isSymbol [')'] :=
        (isSymbol_shown h _ _).trans hb.isSymbol_close
      rw [Trail.spot, hclose]
      exact .cons (admits_pass (p := b.piece) hlead hears (hgaps b (by simp)) _) .nil

end Walk

/-! ## Bracket pairs and blanks -/

/-- A block that is one bracket or ends with a command is one token. -/
structure Block.Whole (b : Block) : Prop where
  symbol : ∀ c : Char, b.token.isSymbol [c] = true → b.more = []
  command : ∀ (r : Trail) (bracketed : Bool), r.past b.pieces = .command bracketed → b.more = []

namespace Block.Whole

variable {a b c e : Block} {r : Trail}

theorem of_joins (h : b.Joins) : b.Whole where
  symbol := fun _ => h.more_of_isSymbol
  command := by
    intro r bracketed hpast
    rw [h.past_pieces] at hpast
    have hkind : b.head.token.kind = .command := (Trail.kind_of_next hpast).1
    exact h.more_of_kind (by simp [hkind]) (by simp [hkind])

theorem token_of_isSymbol (h : b.Whole) {c : Char} (hsymbol : b.token.isSymbol [c] = true) :
    b.token = b.head.token := by
  obtain ⟨p, more⟩ := b
  obtain rfl : more = [] := h.symbol c hsymbol
  exact Block.token_ofPiece p

/-- A block that is one bracket leaves the trail of it. -/
theorem past_pieces_of_isSymbol (h : b.Whole) {c : Char} (hsymbol : b.token.isSymbol [c] = true)
    (r : Trail) : r.past b.pieces = r.next b.token := by
  rw [h.token_of_isSymbol hsymbol, Block.pieces, h.symbol c hsymbol]
  rfl

/-- Only a command leaves the trail of a command. -/
theorem kind_of_past (h : b.Whole) {bracketed : Bool} (hpast : r.past b.pieces = .command bracketed) :
    b.token.kind = .command ∧ bracketed = (r == .bracket) := by
  have hmore := h.command _ _ hpast
  rw [Block.pieces, hmore] at hpast
  exact Trail.kind_of_next (t := b.head.token) hpast

/-- A bracket pair ends with its bracket. -/
theorem enclose (hopen : a.token.isSymbol ['('] = true) (he : e.Whole)
    (hclose : e.token.isSymbol [')'] = true) : (a.enclose c e).Whole where
  symbol := by
    intro x hsymbol
    have hlength := congrArg List.length (text_of_isSymbol hsymbol)
    rw [Block.text_enclose, text_of_isSymbol hopen, text_of_isSymbol hclose] at hlength
    simp at hlength
  command := by
    intro r bracketed hpast
    have hlast : ∀ r : Trail, r.past (e.withGap []).pieces = r.next e.token :=
      he.past_pieces_of_isSymbol hclose
    rw [Block.pieces_enclose, Trail.past_append, Trail.past_append, hlast] at hpast
    have hkind := (Trail.kind_of_next hpast).1
    rw [kind_of_isSymbol hclose] at hkind
    cases hkind

end Block.Whole

theorem forall₂_keeps_refl (xs : List Spot) : List.Forall₂ Spot.Keeps xs xs :=
  List.forall₂_same.mpr fun _ _ => .refl _

/-- Other white space in front of a block. -/
theorem keeps_withGap {b : Block} {gap : Text} {r : Trail}
    (h : ∀ bracketed, r = .command bracketed →
      Spot.Keeps ⟨bracketed && b.head.token.isSymbol [')'], b.head.gap⟩
        ⟨bracketed && b.head.token.isSymbol [')'], gap⟩) :
    List.Forall₂ Spot.Keeps (spots r b.pieces) (spots r (b.withGap gap).pieces) := by
  have hcons : ∀ c : Block, spots r c.pieces = r.spot c.head ++ spots (r.next c.head.token) c.more :=
    fun _ => rfl
  rw [hcons, hcons]
  refine List.rel_append ?_ (forall₂_keeps_refl _)
  cases r with
  | other => exact .nil
  | bracket => exact .nil
  | command bracketed => exact .cons (h bracketed rfl) .nil

theorem keeps_compactFrontBlocks {a : Block} {bs : List Block} (ha : a.Joins)
    (hwhole : ∀ b ∈ bs, b.Whole) (r : Trail) :
    List.Forall₂ Spot.Keeps (spots r ((a :: bs).flatMap Block.pieces))
      (spots r ((compactFrontBlocks (a :: bs)).flatMap Block.pieces)) := by
  match bs with
  | [] | [_] => exact forall₂_keeps_refl _
  | c :: e :: bs =>
    rw [compactFrontBlocks]
    split
    · next henclosed =>
      simp only [isEnclosed, Bool.and_eq_true] at henclosed
      have hopen : r.past a.pieces = .bracket := by
        rw [ha.past_pieces, r.next_of_bracket henclosed.1.1.1]
      have hclose : e.head.token.isSymbol [')'] = true := by
        rw [← (hwhole e (by simp)).token_of_isSymbol henclosed.2]
        exact henclosed.2
      simp only [List.flatMap_cons, Block.pieces_enclose, List.append_assoc, spots_append, hopen,
        Trail.past_withGap]
      refine List.rel_append (forall₂_keeps_refl _) (List.rel_append ?_ (List.rel_append ?_ ?_))
      · -- the first gap that is dropped follows the opening bracket
        exact keeps_withGap (by simp)
      · -- the second one matters when it follows a command, which is then alone in the pair
        refine keeps_withGap fun bracketed hcommand => ?_
        have hbracketed : bracketed = true := ((hwhole c (by simp)).kind_of_past hcommand).2
        exact ⟨rfl, by simp, by simp [hbracketed, hclose]⟩
      · exact forall₂_keeps_refl _
    · exact forall₂_keeps_refl _

theorem whole_compactBlocks {bs : List Block} (hjoins : ∀ b ∈ bs, b.Joins) :
    ∀ b ∈ compactBlocks bs, b.Whole := by
  refine forall_compactBlocks (fun b hb => .of_joins (hjoins b hb)) fun a c e _ _ he henclosed => ?_
  simp only [isEnclosed, Bool.and_eq_true] at henclosed
  exact .enclose henclosed.1.1.1 he henclosed.2

theorem keeps_compactBlocks {bs : List Block} (hjoins : ∀ b ∈ bs, b.Joins) (r : Trail) :
    List.Forall₂ Spot.Keeps (spots r (bs.flatMap Block.pieces))
      (spots r ((compactBlocks bs).flatMap Block.pieces)) := by
  induction bs generalizing r with
  | nil => exact .nil
  | cons b bs ih =>
    have hrest : ∀ x ∈ bs, x.Joins := fun x hx => hjoins x (by simp [hx])
    have hfront := keeps_compactFrontBlocks (hjoins b (by simp)) (whole_compactBlocks hrest) r
    have htail : List.Forall₂ Spot.Keeps (spots r ((b :: bs).flatMap Block.pieces))
        (spots r ((b :: compactBlocks bs).flatMap Block.pieces)) := by
      rw [List.flatMap_cons, List.flatMap_cons, spots_append, spots_append]
      exact List.rel_append (forall₂_keeps_refl _) (ih hrest _)
    exact forall₂_trans htail hfront fun _ _ _ => Spot.Keeps.trans

/-- A blank behind a command is as good as nothing. -/
theorem feed_not_mem_gap? (s : Style) {p : Token} (hp : p.kind = .command) (t : Token) :
    '\n' ∉ (gap? s p t).getD [] := by
  unfold gap?
  simp only [hp, reduceCtorEq, ↓reduceIte]
  repeat' split
  all_goals decide

theorem keeps_fillAfter (s : Style) {p : Token} {bs : List Block} {r : Trail}
    (hwhole : ∀ b ∈ bs, b.Whole)
    (hcommand : ∀ bracketed, r = .command bracketed → p.kind = .command) :
    List.Forall₂ Spot.Keeps (spots r (bs.flatMap Block.pieces))
      (spots r ((fillAfter s p bs).flatMap Block.pieces)) := by
  induction bs generalizing p r with
  | nil => exact .nil
  | cons b bs ih =>
    have hb := hwhole b (by simp)
    have hrest := ih (p := b.token) (r := r.past b.pieces) (fun x hx => hwhole x (by simp [hx]))
      fun _ hpast => (hb.kind_of_past hpast).1
    rw [fillAfter, List.flatMap_cons, List.flatMap_cons, spots_append, spots_append]
    split
    · next hempty =>
      have hgap : b.head.gap = [] := by simpa using hempty
      refine List.rel_append (keeps_withGap fun bracketed hr => ?_) hrest
      have hnone := feed_not_mem_gap? s (hcommand bracketed hr) b.token
      exact ⟨rfl, fun hmem => absurd hmem hnone, by simp [hgap]⟩
    · exact List.rel_append (forall₂_keeps_refl _) hrest

theorem keeps_fillBlocks (s : Style) {bs : List Block} (hwhole : ∀ b ∈ bs, b.Whole) (r : Trail) :
    List.Forall₂ Spot.Keeps (spots r (bs.flatMap Block.pieces))
      (spots r ((fillBlocks s bs).flatMap Block.pieces)) := by
  cases bs with
  | nil => exact .nil
  | cons b bs =>
    rw [fillBlocks, List.flatMap_cons, List.flatMap_cons, spots_append, spots_append]
    exact List.rel_append (forall₂_keeps_refl _)
      (keeps_fillAfter s (fun x hx => hwhole x (by simp [hx]))
        fun _ hpast => ((hwhole b (by simp)).kind_of_past hpast).1)

/-! ## Layouts -/

theorem allows_lay (d : Dialect) {s : Style} (hmark : IsMark s) (sql : Text) :
    List.Forall₂ Stand.Allows
      (commandStands d s .other (.start d) (Token.visible (normalize s (tokenize d sql))))
      (commandGaps (lay d s (reduce s (Piece.ofTokens (tokenize d sql))))) := by
  have hgaps := blank_glueBlocks d s sql
  have hmarks := marks_glueBlocks d hmark sql
  rw [visible_normalize]
  generalize reduce s (Piece.ofTokens (tokenize d sql)) = ps at hgaps hmarks
  have hplaced := joins_placeBlocks (d := d) (s := s) (h := .start) (joins_glueBlocks ps)
  have hwalk := admits_placeBlocks (d := d) (r := .other) hmark (fun _ hr => by cases hr)
    (CallReader.hears_start d) (joins_glueBlocks ps) hmarks hgaps
  have hkeeps := forall₂_trans (keeps_compactBlocks hplaced .other)
    (keeps_fillBlocks s (whole_compactBlocks hplaced) .other) fun _ _ _ => Spot.Keeps.trans
  rw [← map_gap_spots_other, List.forall₂_map_right_iff]
  exact forall₂_trans hwalk hkeeps fun _ _ _ hadmits hkeeps => (hadmits.keeps hkeeps).allows

/-- A command is shown as it is written. -/
theorem Shows.text_of_command {s : Style} {t t' : Token} (h : Shows s t t')
    (hkind : t.kind = .command) : t'.text = t.text := by
  obtain ⟨text, htext, rfl⟩ := h
  have hline : Layout.isLineComment t = false := isLineComment_of_kind_ne (by simp [hkind])
  simpa [shownTexts, hkind, hline, Token.withText] using htext

/-- The white space behind commands depends on the text between starts of tokens. -/
theorem commandGaps_congr {s : Style} {os os' : List Piece} (h : SameSpans (ShownAlike s) os os') :
    commandGaps os = commandGaps os' := by
  induction h with
  | nil => rfl
  | single => rfl
  | cons tokens text _ ih =>
    obtain ⟨u, ht, ht'⟩ := tokens
    rw [commandGaps, commandGaps, ih, ht.kind_eq, ht'.kind_eq]
    split
    · next hkind =>
      rw [ht.text_of_command hkind, ht'.text_of_command hkind] at text
      rw [List.append_cancel_left text]
    · rfl

/-- Every text has a layout, and wherever one finds the tokens of the text in it: between a command
and the next token stands a line feed, unless that token is a delimiter or a line comment, or the
command stands alone in a bracket pair; while a function call is open, none stands there.  Nothing is
said where a reader cannot tell whether an open bracket is a call. -/
theorem commandGaps_allowed (d : Dialect) (sql : Text) :
    ∃ out, format d .default sql = some out ∧
      (∃ os, Laid .default (tokenize d sql) os ∧ out = keepFinalNewline sql (Piece.render os)) ∧
      ∀ os, Laid .default (tokenize d sql) os → out = keepFinalNewline sql (Piece.render os) →
        List.Forall₂ Stand.Allows
          (commandStands d .default .other (.start d)
            (Token.visible (normalize .default (tokenize d sql))))
          (commandGaps os) := by
  have hmark : IsMark .default := .inl rfl
  have hlaid := laid_lay d hmark sql
  refine ⟨_, format_eq d hmark sql, ⟨_, hlaid, rfl⟩, ?_⟩
  intro os hos hsame
  rw [commandGaps_congr (hos.sameSpans hlaid hsame.symm)]
  exact allows_lay d hmark sql

/-- In a function call no line ends behind a command. -/
theorem exists_commandGaps_call :
    ∃ out os,
      format ((Dialect.standard.register .function ['f']).addCommand ['x']) .default
        "f(x\n2)".toList = some out ∧
      Laid .default (tokenize ((Dialect.standard.register .function ['f']).addCommand ['x'])
        "f(x\n2)".toList) os ∧
      out = keepFinalNewline "f(x\n2)".toList (Piece.render os) ∧
      commandGaps os = [[' ']] := by
  have hunknown : Dialect.standard.classify ['f'] = none :=
    Dialect.classify_standard_eq_none (w := "F") (by decide +kernel) (by decide)
  have hdialect : (Dialect.standard.register .function ['f']).addCommand ['x'] =
      ⟨(['F'], .function) :: Dialect.standard.words, [['X']]⟩ := by
    rw [Dialect.register_of_classify (by simp [hunknown]), Dialect.commands_standard]
    rfl
  rw [hdialect]
  exact ⟨"F( x 2 )".toList,
    [⟨[], .keyword, "F".toList, 0⟩, ⟨[], .symbol, ['('], 1⟩, ⟨[' '], .command, ['x'], 2⟩,
      ⟨[' '], .value, ['2'], 4⟩, ⟨[' '], .symbol, [')'], 5⟩], by decide +kernel⟩

end SqlLayout.Layout
