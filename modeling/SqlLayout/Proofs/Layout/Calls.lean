import SqlLayout.Proofs.Dialect.Extended
import SqlLayout.Proofs.Layout.Statements

/-!
# Function calls stay on one line

A reader of the tokens keeps a stack of the open brackets and marks those that follow a word that names
a function (`CallTrail`).  The walk keeps the same stack, so wherever the reader finds a function call
open, the walk neither breaks the line nor trims a comment (`Short`), and the passes behind it put no
line feed there.  From the bracket of a call up to the one that closes it, a layout shows one blank or
nothing between two tokens (`stretch_of_call`).
-/

namespace SqlLayout.Layout

/-! ## Brackets -/

/-- How many brackets are open behind some tokens, with `n` open in front of them; none when the tokens
close one too many. -/
def openedIn : Nat → List Token → Option Nat
  | n, [] => some n
  | n, t :: ts =>
    if t.isSymbol ['('] then openedIn (n + 1) ts
    else if t.isSymbol [')'] then
      match n with
      | 0 => none
      | n + 1 => openedIn n ts
    else openedIn n ts

/-- How many of the brackets are open behind one token: as many as a stack has left of those that it had
in front. -/
theorem openedIn_cons {m n : Nat} {t : Token} {ts : List Token} (h : openedIn m (t :: ts) = some n) :
    ∃ k, (∀ j, openedIn (m + j) (t :: ts) = openedIn (k + j) ts) ∧ ∀ (α : Type) (b : α) (bs : List α),
      (if t.isSymbol ['('] then b :: bs else if t.isSymbol [')'] then bs.tail else bs).drop k =
        bs.drop m := by
  cases hopen : t.isSymbol ['('] with
  | true => exact ⟨m + 1, fun j => by simp [openedIn, hopen, Nat.add_right_comm], by simp⟩
  | false =>
    cases hclose : t.isSymbol [')'] with
    | true =>
      cases m with
      | zero => simp [openedIn, hopen, hclose] at h
      | succ m => exact ⟨m, fun j => by simp [openedIn, hopen, hclose, Nat.succ_add], by simp⟩
    | false => exact ⟨m, fun j => by simp [openedIn, hopen, hclose], by simp⟩

/-- Whether tokens are an opening bracket and others that do not close it. -/
def keepsOpen : List Token → Bool
  | [] => false
  | t :: ts => t.isSymbol ['('] && (openedIn 0 ts).isSome

/-- Whether a token is a word that the dialect classifies as a function. -/
def namesFunction (d : Dialect) (t : Token) : Bool := isWordKind t.kind && d.isFunction t.text

/-- What a reader of the tokens knows of function calls. -/
structure CallTrail where
  /-- For each open bracket, innermost first, whether it is a function call. -/
  calls : List Bool
  /-- Whether the token in front names a function. -/
  named : Bool
  deriving DecidableEq, Repr

namespace CallTrail

/-- The trail in front of the first token. -/
def start : CallTrail := ⟨[], false⟩

/-- The trail behind a token. -/
def next (d : Dialect) (r : CallTrail) (t : Token) : CallTrail :=
  ⟨callsAfter r.calls r.named t, namesFunction d t⟩

/-- The trail behind some tokens. -/
def past (d : Dialect) (r : CallTrail) (ts : List Token) : CallTrail := ts.foldl (next d) r

/-- Whether a function call is open. -/
def inCall (r : CallTrail) : Bool := r.calls.any id

variable {d : Dialect} {r : CallTrail}

@[simp] theorem past_nil : r.past d [] = r := rfl

@[simp] theorem past_cons (t : Token) (ts : List Token) :
    r.past d (t :: ts) = (r.next d t).past d ts := rfl

theorem past_append (ts us : List Token) : r.past d (ts ++ us) = (r.past d ts).past d us := by
  simp [past]

/-- Behind tokens that close no bracket of the trail, the brackets of the trail are still open. -/
theorem drop_calls_past {m n : Nat} {ts : List Token} (h : openedIn m ts = some n) :
    (r.past d ts).calls.drop n = r.calls.drop m := by
  induction ts generalizing r m with
  | nil =>
    obtain rfl : m = n := by simpa [openedIn] using h
    rfl
  | cons t ts ih =>
    obtain ⟨k, hrest, hdrop⟩ := openedIn_cons h
    rw [past_cons, ih ((hrest 0).symm.trans h)]
    exact hdrop Bool r.named r.calls

/-- A function call is open from its bracket on, as long as it is not closed. -/
theorem inCall_past_of_keepsOpen (hr : r.named = true) {ts : List Token} (h : keepsOpen ts = true) :
    (r.past d ts).inCall = true := by
  cases ts with
  | nil => cases h
  | cons t ts =>
    simp only [keepsOpen, Bool.and_eq_true] at h
    obtain ⟨n, hn⟩ := Option.isSome_iff_exists.mp h.2
    have hdrop := drop_calls_past (d := d) (r := r.next d t) hn
    have hmem : true ∈ (r.past d (t :: ts)).calls := by
      refine List.mem_of_mem_drop (i := n) ?_
      rw [past_cons, hdrop]
      simp [next, callsAfter, h.1, hr]
    exact List.any_eq_true.mpr ⟨true, hmem, rfl⟩

end CallTrail

/-! ## Tokens as they are shown -/

section Shown

variable {d : Dialect} {r : CallTrail}

theorem namesFunction_of_absorbsSpace {t : Token} (h : absorbsSpace t = true) :
    namesFunction d t = false := by
  simp [namesFunction, isWordKind_kind, h]

theorem namesFunction_of_kind {t : Token} (h : t.kind = .symbol ∨ t.kind = .comment) :
    namesFunction d t = false := by
  rcases h with h | h <;> exact namesFunction_of_absorbsSpace (by simp [absorbsSpace, h])

/-- A comment does not tell a reader of calls anything, however it is shown. -/
theorem CallTrail.next_of_comment {t : Token} (h : t.kind = .comment) :
    r.next d t = ⟨r.calls, false⟩ := by
  simp [CallTrail.next, callsAfter_of_kind_ne (x := t) (by simp [h]), namesFunction_of_kind (.inr h)]

theorem CallTrail.next_shown (h : Hand) (t : Token) : r.next d (h.shown t) = r.next d t := by
  by_cases hkind : t.kind = .comment
  · rw [next_of_comment hkind, next_of_comment ((h.kind_shown t).trans hkind)]
  · rw [h.shown_of_kind_ne hkind]

/-- Keywords name functions in any case of a style. -/
theorem namesFunction_recase (hd : d.Extends) (s : Style) {sql : Text} {t : Token}
    (ht : t ∈ tokenize d sql) : namesFunction d (recase s t) = namesFunction d t := by
  by_cases hkind : t.kind = .keyword
  · have hknown := classify_of_mem_tokenize t ht hkind
    simp only [namesFunction, kind_recase, text_recase hkind, Dialect.isFunction,
      hd.classify_apply s.keywordCase hknown]
  · rw [recase_of_kind_ne s hkind]

end Shown

/-! ## Compounds -/

section Compounds

variable {d : Dialect} {r : CallTrail} {b : Block}

/-- The second word of a clause names no function. -/
theorem isFunction_of_clause (hd : d.Extends) {p q : Token} (h : isClausePair p q = true) :
    d.isFunction q.text = false := by
  obtain ⟨w, hw, hword⟩ : ∃ w : String, w ∈ Dialect.Words.reserved ++ Dialect.Words.common ∧
      Text.upper w.toList = Text.upper q.text := by
    have hsecond : ∀ entry ∈ compoundClauses, entry.2 ∈ Dialect.Words.reserved ∧
        Text.upper entry.2.toList = entry.2.toList := by decide
    obtain ⟨entry, hentry, -, hsame⟩ := exists_clause h
    obtain ⟨hreserved, hupper⟩ := hsecond entry hentry
    exact ⟨entry.2, List.mem_append_left _ hreserved, hupper.trans hsame⟩
  have hkeyword := hd.classify_keyword hw
  rw [Dialect.classify, hword, ← Dialect.classify] at hkeyword
  simp [Dialect.isFunction, hkeyword]

/-- A compound opens and closes the brackets of its token, and names a function only if its token
does. -/
theorem CallTrail.past_pieces (hd : d.Extends) (h : b.Joins) (r : CallTrail) :
    (r.past d (b.pieces.map Piece.token)).calls = callsAfter r.calls r.named b.token ∧
      ((r.past d (b.pieces.map Piece.token)).named = true → namesFunction d b.token = true) := by
  cases h with
  | single p =>
    rw [Block.token_single]
    exact ⟨rfl, id⟩
  | clause p q pair =>
    have hfunction := isFunction_of_clause hd pair
    obtain ⟨hp, hq⟩ := kinds_of_isClausePair pair
    have hp' : p.token.kind ≠ .symbol := by simp [hp]
    have hq' : q.token.kind ≠ .symbol := by simp [hq]
    have hb : (⟨p, [q]⟩ : Block).token.kind ≠ .symbol := hp'
    simp [Block.pieces, next, callsAfter_of_kind_ne hp', callsAfter_of_kind_ne hq',
      callsAfter_of_kind_ne hb, namesFunction, hfunction]
  | mark p q t triple =>
    have hlast : namesFunction d t.token = false :=
      namesFunction_of_kind (.inl (kinds_of_isMarkTriple triple).2.2)
    refine ⟨?_, by simp [Block.pieces, next, hlast]⟩
    have hcalls : callsAfter r.calls r.named (⟨p, [q, t]⟩ : Block).token = r.calls := by
      simp [callsAfter, isSymbol_of_isMarkTriple triple]
    rw [hcalls]
    rcases isMarkTriple_cases triple with ⟨hp, hq, ht⟩ | ⟨hp, hq, ht⟩
    · simp [Block.pieces, next, callsAfter, Token.isSymbol, kind_of_isSymbol hp, text_of_isSymbol hp,
        text_of_isSymbol hq, kind_of_isSymbol ht, text_of_isSymbol ht]
    · simp [Block.pieces, next, callsAfter, Token.isSymbol, text_of_isSymbol hp, hq,
        text_of_isSymbol ht]

end Compounds

/-! ## The walk -/

section Walk

variable {d : Dialect} {s : Style} {h : Hand} {r : CallTrail}

/-- Where a reader finds function calls, the walk does. -/
structure CallTrail.Heard (d : Dialect) (r : CallTrail) (h : Hand) : Prop where
  calls : List.Forall₂ (fun call b => call = true → b.isCall = true) r.calls h.footing.brackets
  named : r.named = true → d.isFunction h.previous = true

theorem CallTrail.heard_start (d : Dialect) : CallTrail.start.Heard d .start := ⟨.nil, by simp [start]⟩

theorem CallTrail.Heard.inCall (h' : r.Heard d h) (hcall : r.inCall = true) :
    h.footing.inCall = true := by
  obtain ⟨hcalls, -⟩ := h'
  unfold CallTrail.inCall at hcall
  unfold Footing.inCall
  generalize r.calls = calls, h.footing.brackets = brackets at hcalls hcall
  induction hcalls with
  | nil => simp at hcall
  | cons hhead _ ih =>
    rw [List.any_cons, Bool.or_eq_true] at hcall ⊢
    exact hcall.imp hhead ih

/-- The walk keeps the stack of brackets that a reader keeps. -/
theorem CallTrail.Heard.pass (hd : d.Extends) (hmark : IsMark s) (hheard : r.Heard d h)
    (rest : List Text) {b : Block} (hb : b.Joins)
    (hmarks : s.isDelimiter b.token.text = true → b.token.kind = .symbol) :
    (r.past d (b.pieces.map Piece.token)).Heard d (h.pass d s rest b.piece).hand := by
  obtain ⟨hcalls, hnamed⟩ := CallTrail.past_pieces hd hb r
  cases hskip : h.skips? s b.piece.token with
  | some level =>
    obtain ⟨-, hdelimiter⟩ := Hand.lead_of_skips? hskip
    obtain ⟨hopen, hclose, -⟩ := text_ne_of_isDelimiter hmark hdelimiter
    have hkind := hmarks hdelimiter
    simp only [Hand.pass, hskip, Hand.skip]
    refine ⟨?_, fun hword => ?_⟩
    · have hsame : callsAfter r.calls r.named b.token = r.calls := by
        simp only [Block.piece_token] at hopen hclose
        simp [callsAfter, Token.isSymbol, hopen, hclose]
      rw [hcalls, hsame]
      exact hheard.calls
    · have hword := hnamed hword
      rw [namesFunction_of_kind (.inl hkind)] at hword
      cases hword
  | none =>
    simp only [Hand.pass, hskip, Hand.visit, Hand.move]
    refine ⟨?_, fun hword => ?_⟩
    · rw [brackets_moveOf, isSymbol_shown, isSymbol_shown, hcalls, Block.piece_token, callsAfter]
      split
      · exact .cons hheard.named hheard.calls
      · split
        · simpa using List.forall₂_drop 1 hheard.calls
        · exact hheard.calls
    · have hword := hnamed hword
      simp only [namesFunction, Bool.and_eq_true] at hword
      have hkind : b.piece.token.kind ≠ .comment := by
        intro hkind
        simp [isWordKind, show b.head.token.kind = .comment from hkind] at hword
      rw [h.shown_of_kind_ne hkind]
      exact hword.2

/-- Nothing stands in front of the next token while a function call is open. -/
def Hand.Flows (h : Hand) : Prop := h.footing.inCall = true → h.lead = .flow

/-- Inside a function call no break is put behind a token. -/
theorem Hand.next_move_of_inCall {rest : List Text} {g : Text} {t : Token}
    (hcall : (h.move d s rest g t).footing.inCall = true) : (h.move d s rest g t).next = none := by
  cases hnext : (h.move d s rest g t).next with
  | none => rfl
  | some level =>
    rw [Hand.move] at hnext hcall
    rw [(checks_moveOf ..).inCall hnext] at hcall
    cases hcall

/-- A comment is not trimmed inside a function call, so it is as open as it was. -/
theorem Hand.Flows.isOpenComment_shown (hflows : h.Flows) {t : Token} (hclosed : isOpenComment t = false)
    (hcall : (h.shown t).kind = .comment → h.footing.inCall = true) :
    isOpenComment (h.shown t) = false := by
  by_cases hkind : (h.shown t).kind = .comment
  · have hshown : h.shown t = t := by simp [Hand.shown, hflows (hcall hkind)]
    rw [hshown, hclosed]
  · simp [isOpenComment, isLineComment_of_kind_ne hkind]

/-- Inside a function call the walk puts nothing behind a token that leaves no comment open. -/
theorem flows_pass (hmark : IsMark s) (hflows : h.Flows) (rest : List Text) {p : Piece}
    (hclosed : isOpenComment p.token = false)
    (hmarks : s.isDelimiter p.token.text = true → p.token.kind = .symbol) :
    (h.pass d s rest p).hand.Flows := by
  intro hcall
  cases hskip : h.skips? s p.token with
  | some level =>
    obtain ⟨hlead, -⟩ := Hand.lead_of_skips? hskip
    simp only [Hand.pass, hskip, Hand.skip] at hcall
    rw [hflows hcall] at hlead
    cases hlead
  | none =>
    simp only [Hand.pass, hskip, Hand.visit] at hcall ⊢
    rw [Hand.leadBehind, Hand.isDelimiter_shown hmark]
    split
    · next hdelimiter =>
      have hkind := hmarks hdelimiter
      have hshown : h.shown p.token = p.token := h.shown_of_kind_ne (by simp [hkind])
      have hmove : h.move d s rest p.gap p.token =
          ⟨h.footing.breakAt 0, none, { h.footing with level := 0 }⟩ := by
        rw [Hand.move, hshown]
        exact moveOf_delimiter hmark _ _ hkind hdelimiter
      rw [hmove] at hcall ⊢
      have hcall' : h.footing.inCall = true := hcall
      simp [Footing.breakAt, hcall']
    · have hopen : isOpenComment (h.shown p.token) = false :=
        hflows.isOpenComment_shown hclosed fun hkind => by
          rwa [Hand.move, footing_of_comment _ _ _ hkind] at hcall
      simp [Hand.next_move_of_inCall hcall, hopen]

end Walk

/-! ## Short gaps -/

/-- `Short d r ps`: read from the trail `r` on, inside function calls the pieces have gaps of one blank
or nothing and leave no comment open. -/
inductive Short (d : Dialect) : CallTrail → List Piece → Prop
  | nil (r : CallTrail) : Short d r []
  | cons {r : CallTrail} {p : Piece} {ps : List Piece}
      (gap : r.inCall = true → p.gap = [] ∨ p.gap = [' '])
      (closed : ps ≠ [] → (r.next d p.token).inCall = true → isOpenComment p.token = false)
      (rest : Short d (r.next d p.token) ps) : Short d r (p :: ps)

namespace Short

variable {d : Dialect} {r : CallTrail} {ps qs : List Piece}

/-- Pieces in front that have short gaps and are no comments. -/
theorem append_left (hps : ∀ p ∈ ps, (p.gap = [] ∨ p.gap = [' ']) ∧ p.token.kind ≠ .comment)
    (h : Short d (r.past d (ps.map Piece.token)) qs) : Short d r (ps ++ qs) := by
  induction ps generalizing r with
  | nil => exact h
  | cons p ps ih =>
    obtain ⟨hgap, hkind⟩ := hps p (by simp)
    refine .cons (fun _ => hgap) (fun _ _ => ?_) (ih (fun x hx => hps x (by simp [hx])) h)
    simp [isOpenComment, isLineComment_of_kind_ne hkind]

/-- Other pieces behind. -/
theorem imp_append (h : Short d r (ps ++ qs)) {qs' : List Piece} (hne : qs' ≠ [] → qs ≠ [])
    (hqs : Short d (r.past d (ps.map Piece.token)) qs → Short d (r.past d (ps.map Piece.token)) qs') :
    Short d r (ps ++ qs') := by
  induction ps generalizing r with
  | nil => exact hqs h
  | cons p ps ih =>
    rw [List.cons_append] at h ⊢
    cases h with
    | cons gap closed rest =>
      refine .cons gap (fun hmore => closed ?_) (ih rest hqs)
      cases ps with
      | nil => simpa using hne (by simpa using hmore)
      | cons => simp

/-- Nothing in front of a block. -/
theorem withGap {b : Block} {gap : Text} (h : Short d r (b.pieces ++ qs))
    (hgap : r.inCall = true → gap = [] ∨ gap = [' ']) : Short d r ((b.withGap gap).pieces ++ qs) := by
  cases h with
  | cons _ closed rest => exact .cons hgap closed rest

/-- A compound in front. -/
theorem block {b : Block} (hb : b.Joins) (hgap : r.inCall = true → b.head.gap = [] ∨ b.head.gap = [' '])
    (hmore : ∀ p ∈ b.more, p.gap = [] ∨ p.gap = [' '])
    (hclosed : qs ≠ [] → (r.next d b.token).inCall = true → isOpenComment b.token = false)
    (h : Short d (r.past d (b.pieces.map Piece.token)) qs) : Short d r (b.pieces ++ qs) := by
  cases hb with
  | single p =>
    rw [Block.token_single] at hclosed
    exact .cons hgap hclosed h
  | clause p q pair =>
    obtain ⟨hp, hq⟩ := kinds_of_isClausePair pair
    have hopen : isOpenComment p.token = false := by
      simp [isOpenComment, isLineComment_of_kind_ne (t := p.token) (by simp [hp])]
    have hmore' : ∀ x ∈ [q], (x.gap = [] ∨ x.gap = [' ']) ∧ x.token.kind ≠ .comment :=
      List.forall_mem_singleton.mpr ⟨hmore q (by simp), by simp [hq]⟩
    exact .cons hgap (fun _ _ => hopen) (append_left hmore' h)
  | mark p q t triple =>
    obtain ⟨hp, hq, ht⟩ := kinds_of_isMarkTriple triple
    have hopen : isOpenComment p.token = false := by
      simp [isOpenComment, isLineComment_of_kind_ne (t := p.token) (by simp [hp])]
    have hmore' : ∀ x ∈ [q, t], (x.gap = [] ∨ x.gap = [' ']) ∧ x.token.kind ≠ .comment := by
      refine List.forall_mem_cons.mpr ⟨⟨hmore q (by simp), hq⟩, ?_⟩
      exact List.forall_mem_singleton.mpr ⟨hmore t (by simp), by simp [ht]⟩
    exact .cons hgap (fun _ _ => hopen) (append_left hmore' h)

end Short

theorem CallTrail.inCall_of_comment {d : Dialect} {r : CallTrail} {t : Token} (h : t.kind = .comment)
    (hcall : (r.next d t).inCall = true) : r.inCall = true := by
  rwa [next_of_comment h] at hcall

/-- Inside function calls the walk leaves short gaps and trims no comment. -/
theorem short_placeBlocks {d : Dialect} {s : Style} {h : Hand} {r : CallTrail} {bs : List Block}
    (hd : d.Extends) (hmark : IsMark s) (hheard : r.Heard d h) (hflows : bs ≠ [] → h.Flows)
    (hneat : Neat s (bs.map Block.piece)) (hjoins : ∀ b ∈ bs, b.Joins)
    (hgaps : ∀ b ∈ bs, ∀ p ∈ b.pieces, p.gap = [] ∨ p.gap = [' ']) :
    Short d r ((placeBlocks d s h bs).flatMap Block.pieces) := by
  induction bs generalizing h r with
  | nil => exact .nil r
  | cons b bs ih =>
    have hb := hjoins b (by simp)
    have hmarks := hneat.marks b.piece (by simp)
    have hflows := hflows (by simp)
    have hclosed : bs ≠ [] → isOpenComment b.token = false := fun hbs =>
      Neat.isOpenComment_eq_false (p := b.piece) hneat (by simpa using hbs)
    have hsame : r.past d (((⟨⟨(h.pass d s (bs.map (·.token.text)) b.piece).gap,
        h.shown b.head.token⟩, b.more⟩ : Block).pieces).map Piece.token) =
          r.past d (b.pieces.map Piece.token) := by
      simp [Block.pieces, CallTrail.next_shown]
    rw [placeBlocks, List.flatMap_cons]
    refine .block (hb.shown h _) (fun hcall => ?_) (fun p hp => hgaps b (by simp) p ?_)
      (fun hmore hcall => ?_) ?_
    · have hcall' := hheard.inCall hcall
      dsimp only
      rw [gap_pass_of_inCall hcall' (hflows hcall')]
      exact hgaps b (by simp) b.head (by simp [Block.pieces])
    · exact List.mem_cons_of_mem _ hp
    · have hbs : bs ≠ [] := by
        rintro rfl
        simp [placeBlocks] at hmore
      rw [token_shown h _ hb.plain] at hcall ⊢
      -- the reader of a comment is inside the call already in front of it
      exact hflows.isOpenComment_shown (hclosed hbs) fun hkind =>
        hheard.inCall (CallTrail.inCall_of_comment hkind hcall)
    · rw [hsame]
      exact ih (hheard.pass hd hmark _ hb hmarks)
        (fun hbs => flows_pass (p := b.piece) hmark hflows _ (hclosed hbs) hmarks) hneat.tail
        (fun x hx => hjoins x (by simp [hx])) fun x hx => hgaps x (by simp [hx])

/-! ## Bracket pairs and blanks -/

section Passes

variable {d : Dialect} {r : CallTrail}

/-- Joining a bracket pair takes white space away. -/
theorem short_compactFrontBlocks {bs : List Block} (h : Short d r (bs.flatMap Block.pieces)) :
    Short d r ((compactFrontBlocks bs).flatMap Block.pieces) := by
  match bs with
  | [] | [_] | [_, _] => exact h
  | a :: c :: e :: bs =>
    rw [compactFrontBlocks]
    split
    · rw [List.flatMap_cons, Block.pieces_enclose, List.append_assoc, List.append_assoc]
      simp only [List.flatMap_cons] at h
      refine h.imp_append (by simp [Block.pieces]) fun hc => ?_
      refine (hc.withGap fun _ => .inl rfl).imp_append (by simp [Block.pieces]) fun he => ?_
      exact he.withGap fun _ => .inl rfl
    · exact h

theorem short_compactBlocks {bs : List Block} (h : Short d r (bs.flatMap Block.pieces)) :
    Short d r ((compactBlocks bs).flatMap Block.pieces) := by
  induction bs generalizing r with
  | nil => exact h
  | cons b bs ih =>
    rw [compactBlocks]
    refine short_compactFrontBlocks ?_
    rw [List.flatMap_cons] at h ⊢
    refine h.imp_append (fun hne => ?_) ih
    cases bs with
    | nil => exact hne
    | cons => simp [Block.pieces]

theorem plain_compactBlocks {bs : List Block} (h : ∀ b ∈ bs, b.Plain) : ∀ b ∈ compactBlocks bs, b.Plain := by
  refine forall_compactBlocks h fun a c e _ _ _ henclosed hkind => ?_
  simp only [isEnclosed, Bool.and_eq_true] at henclosed
  have hsymbol : a.token.kind = .symbol := kind_of_isSymbol henclosed.1.1.1
  exact absurd (hsymbol.symm.trans hkind) (by decide)

/-- A blank goes behind a token that leaves no comment open. -/
theorem eq_blank_of_gap? {s : Style} {p t : Token} {g : Text} (hp : isOpenComment p = false)
    (h : gap? s p t = some g) : g = [' '] := by
  unfold gap? at h
  repeat' split at h
  all_goals simp only [Option.some.injEq, reduceCtorEq] at h
  · next hopen =>
    rw [isOpenComment, hopen] at hp
    cases hp
  · exact h.symm

/-- A block that something follows inside a function call leaves no comment open. -/
theorem Short.closed_block {b : Block} {qs : List Piece} (hb : b.Plain) (h : Short d r (b.pieces ++ qs))
    (hqs : qs ≠ []) (hcall : (r.past d (b.pieces.map Piece.token)).inCall = true) :
    isOpenComment b.token = false := by
  by_cases hkind : b.head.token.kind = .comment
  · obtain ⟨p, more⟩ := b
    obtain rfl : more = [] := hb hkind
    rw [Block.token_single]
    cases h with
    | cons _ closed _ => exact closed hqs hcall
  · simp [isOpenComment, isLineComment_of_kind_ne (t := b.token) hkind]

theorem flatMap_fillAfter_ne_nil {s : Style} {p : Token} {bs : List Block}
    (h : (fillAfter s p bs).flatMap Block.pieces ≠ []) : bs.flatMap Block.pieces ≠ [] := by
  cases bs with
  | nil => exact h
  | cons => simp [Block.pieces]

theorem short_fillAfter (s : Style) {p : Token} {bs : List Block} (hplain : ∀ b ∈ bs, b.Plain)
    (hp : bs ≠ [] → r.inCall = true → isOpenComment p = false)
    (h : Short d r (bs.flatMap Block.pieces)) :
    Short d r ((fillAfter s p bs).flatMap Block.pieces) := by
  induction bs generalizing r p with
  | nil => exact h
  | cons b bs ih =>
    rw [List.flatMap_cons] at h
    have hclosed : bs ≠ [] → (r.past d (b.pieces.map Piece.token)).inCall = true →
        isOpenComment b.token = false := by
      intro hbs
      refine h.closed_block (hplain b (by simp)) ?_
      obtain ⟨c, cs, rfl⟩ := List.exists_cons_of_ne_nil hbs
      simp [Block.pieces]
    have hrest := h.imp_append flatMap_fillAfter_ne_nil
      (ih (fun x hx => hplain x (by simp [hx])) hclosed)
    rw [fillAfter, List.flatMap_cons]
    split
    · refine hrest.withGap fun hcall => ?_
      cases hfill : gap? s p b.token with
      | none => exact .inl rfl
      | some g => exact .inr (eq_blank_of_gap? (hp (by simp) hcall) hfill)
    · exact hrest

theorem short_fillBlocks (s : Style) {bs : List Block} (hplain : ∀ b ∈ bs, b.Plain)
    (h : Short d r (bs.flatMap Block.pieces)) : Short d r ((fillBlocks s bs).flatMap Block.pieces) := by
  cases bs with
  | nil => exact h
  | cons b bs =>
    rw [List.flatMap_cons] at h
    rw [fillBlocks, List.flatMap_cons]
    refine h.imp_append flatMap_fillAfter_ne_nil
      (short_fillAfter s (fun x hx => hplain x (by simp [hx])) fun hbs => ?_)
    refine h.closed_block (hplain b (by simp)) ?_
    obtain ⟨c, cs, rfl⟩ := List.exists_cons_of_ne_nil hbs
    simp [Block.pieces]

end Passes

/-! ## Layouts -/

theorem short_lay {d : Dialect} (hd : d.Extends) {s : Style} (hmark : IsMark s) (sql : Text) :
    Short d .start (lay d s (reduce s (Piece.ofTokens (tokenize d sql)))) := by
  have hjoins := joins_glueBlocks (reduce s (Piece.ofTokens (tokenize d sql)))
  have hgaps : ∀ b ∈ glueBlocks (reduce s (Piece.ofTokens (tokenize d sql))), ∀ p ∈ b.pieces,
      p.gap = [] ∨ p.gap = [' '] := by
    intro b hb p hp
    refine (spread_reduce d s sql).blank p ?_
    rw [← flatMap_pieces_glueBlocks (reduce s (Piece.ofTokens (tokenize d sql)))]
    exact List.mem_flatMap.mpr ⟨b, hb, hp⟩
  have hplaced := short_placeBlocks hd hmark (CallTrail.heard_start d) (fun _ _ => rfl)
    (neat_glueBlocks d hmark sql) hjoins hgaps
  exact short_fillBlocks s (plain_compactBlocks fun b hb => (joins_placeBlocks hjoins b hb).plain)
    (short_compactBlocks hplaced)

/-- What a layout shows of a token that leaves no comment open is the token in the case of the style. -/
theorem Shows.text_of_closed {s : Style} {t t' : Token} (h : Shows s t t')
    (hclosed : isOpenComment t' = false) : t'.text = (recase s t).text := by
  obtain ⟨text, htext, rfl⟩ := h
  rw [shownTexts] at htext
  by_cases hkeyword : t.kind = .keyword
  · rw [text_recase hkeyword]
    simpa [hkeyword, Token.withText] using htext
  · rw [recase_of_kind_ne s hkeyword]
    by_cases hline : Layout.isLineComment t = true
    · rcases (by simpa [hkeyword, hline] using htext : text = t.text ∨ text = Text.trimEnd t.text)
        with rfl | rfl
      · rfl
      · -- a trimmed line comment does not end its line
        have htrimmed : isOpenComment (t.withText (Text.trimEnd t.text)) = true := by
          have hsettle : t.withText (Text.trimEnd t.text) = settle t := by simp [settle, hline]
          rw [hsettle, isOpenComment, isLineComment_settle, hline, ← hsettle]
          simp [Token.withText, endsWith_trimEnd]
        rw [htrimmed] at hclosed
        cases hclosed
    · simpa [hkeyword, hline, Token.withText] using htext

theorem CallTrail.next_shows {d : Dialect} (hd : d.Extends) {s : Style} {sql : Text} {t t' : Token}
    (ht : t ∈ tokenize d sql) (h : Shows s t t') (r : CallTrail) : r.next d t' = r.next d t := by
  have hnamed : namesFunction d t' = namesFunction d t := by
    by_cases hkind : t.kind = .comment
    · rw [namesFunction_of_kind (.inr (h.kind_eq.trans hkind)), namesFunction_of_kind (.inr hkind)]
    · have hclosed : isOpenComment t' = false := by
        simp [isOpenComment, isLineComment_of_kind_ne (t := t') (by simpa [h.kind_eq] using hkind)]
      rw [← namesFunction_recase hd s ht]
      simp [namesFunction, h.kind_eq, kind_recase, h.text_of_closed hclosed]
  simp only [CallTrail.next, callsAfter, h.isSymbol, hnamed]

/-- From a token inside a function call to the next one stand the token, as the style writes it, and one
blank or nothing. -/
theorem Short.stretch {d : Dialect} {s : Style} {r : CallTrail} {us : List Token} {os : List Piece}
    (h : Short d r os) (hshows : List.Forall₂ (Shows s) us (os.map Piece.token))
    (hnext : ∀ u ∈ us, ∀ t, Shows s u t → ∀ r : CallTrail, r.next d t = r.next d u)
    {front back : List Token} {u v : Token} (hus : us = front ++ u :: v :: back)
    (hcall : (r.past d (front ++ [u])).inCall = true) :
    ∃ text, (spans os)[front.length]? = some text ∧
      (text = (recase s u).text ∨ text = (recase s u).text ++ [' ']) := by
  induction front generalizing r us os with
  | nil =>
    subst hus
    obtain ⟨t, ts, ht, hts, hmap⟩ := List.forall₂_cons_left_iff.mp hshows
    obtain ⟨x, xs, hx, hxs, rfl⟩ := List.forall₂_cons_left_iff.mp hts
    obtain ⟨p, os, rfl, rfl, hrest⟩ := List.map_eq_cons_iff.mp hmap
    obtain ⟨q, os, rfl, rfl, rfl⟩ := List.map_eq_cons_iff.mp hrest
    have hcall' : (r.next d p.token).inCall = true := by
      rw [hnext u (by simp) _ ht]
      exact hcall
    cases h with
    | cons _ closed rest =>
      cases rest with
      | cons gap _ _ =>
        refine ⟨p.token.text ++ q.gap, rfl, ?_⟩
        rw [ht.text_of_closed (closed (by simp) hcall')]
        rcases gap hcall' with hgap | hgap <;> simp [hgap]
  | cons w front ih =>
    subst hus
    obtain ⟨t, ts, ht, hts, hmap⟩ := List.forall₂_cons_left_iff.mp hshows
    obtain ⟨p, os, rfl, rfl, rfl⟩ := List.map_eq_cons_iff.mp hmap
    cases h with
    | cons _ _ rest =>
      rw [hnext w (by simp) _ ht] at rest
      obtain ⟨text, htext, hshape⟩ := ih rest hts (fun x hx => hnext x (List.mem_cons_of_mem w hx)) rfl hcall
      refine ⟨text, ?_, hshape⟩
      cases os with
      | nil => simp [spans] at htext
      | cons q os => simpa [spans] using htext

/-- Every text has a layout, and wherever one finds the tokens of the text in it: let `f` be a word that
names a function and `mid ++ [u]` an opening bracket right behind it and further tokens that do not close
it.  Then the layout goes on behind `u` with one blank or nothing, up to the start of the next token. -/
theorem stretch_of_call (d : Dialect) (hd : d.Extends) (s : Style) (hs : s.delimiter = [';'])
    (sql : Text) :
    ∃ out, format d s sql = some out ∧
      (∃ os, Laid s (tokenize d sql) os ∧ out = keepFinalNewline sql (Piece.render os)) ∧
      ∀ os, Laid s (tokenize d sql) os → out = keepFinalNewline sql (Piece.render os) →
        ∀ front f mid u v back,
          Token.visible (tokenize d sql) = front ++ f :: (mid ++ u :: v :: back) →
          namesFunction d f = true → keepsOpen (mid ++ [u]) = true →
          ∃ text, (spans os)[(front ++ f :: mid).length]? = some text ∧
            (text = (recase s u).text ∨ text = (recase s u).text ++ [' ']) := by
  have hmark : IsMark s := .inl hs
  have hlaid := laid_lay d hmark sql
  refine ⟨_, format_eq d hmark sql, ⟨_, hlaid, rfl⟩, ?_⟩
  intro os hos hsame front f mid u v back hvisible hf hopen
  rw [hos.spans_eq_of_keepFinalNewline hlaid hsame.symm]
  have hcall : (CallTrail.start.past d (front ++ f :: (mid ++ [u]))).inCall = true := by
    rw [CallTrail.past_append, CallTrail.past_cons]
    exact CallTrail.inCall_past_of_keepsOpen hf hopen
  have hus : Token.visible (tokenize d sql) = (front ++ f :: mid) ++ u :: v :: back := by simp [hvisible]
  exact (short_lay hd hmark sql).stretch hlaid.shows
    (fun w hw t ht r => CallTrail.next_shows hd (List.mem_filter.mp hw).1 ht r) hus (by simpa using hcall)

/-- In a call the line goes on behind the line feed that a comment ends with. -/
theorem stretch_of_call_comment :
    ∃ out os, (Dialect.standard.addWords .function [['f']]).Extends ∧
      Style.default.delimiter = [';'] ∧
      format (Dialect.standard.addWords .function [['f']]) .default "f(1, -- c\n(2);3".toList = some out ∧
      Laid .default (tokenize (Dialect.standard.addWords .function [['f']]) "f(1, -- c\n(2);3".toList)
        os ∧
      out = keepFinalNewline "f(1, -- c\n(2);3".toList (Piece.render os) ∧
      ∃ text, (spans os)[4]? = some text ∧ (text = "-- c\n".toList ∨ text = "-- c\n ".toList) := by
  have hunknown : Dialect.standard.classify ['f'] = none :=
    Dialect.classify_standard_eq_none (w := "F") (by decide +kernel) (by decide)
  have hdialect : Dialect.standard.addWords .function [['f']] =
      ⟨(['F'], .function) :: Dialect.standard.words, []⟩ := by
    have hupper : Text.upper ['f'] = ['F'] := by decide
    rw [Dialect.addWords, List.foldl_cons, List.foldl_nil,
      Dialect.register_of_classify (by simp [hunknown]), Dialect.commands_standard, hupper]
  have hextends : (Dialect.standard.addWords .function [['f']]).Extends :=
    .addWords .standard .function [['f']] (by decide)
  obtain ⟨out, hout, ⟨os, hlaid, hsame⟩, hstretch⟩ :=
    stretch_of_call _ hextends .default rfl "f(1, -- c\n(2);3".toList
  refine ⟨out, os, hextends, rfl, hout, hlaid, hsame, ?_⟩
  exact hstretch os hlaid hsame [] ⟨.keyword, ['f'], 0⟩
    [⟨.symbol, ['('], 1⟩, ⟨.value, ['1'], 2⟩, ⟨.symbol, [','], 3⟩] ⟨.comment, "-- c\n".toList, 5⟩
    ⟨.symbol, ['('], 10⟩ [⟨.value, ['2'], 11⟩, ⟨.symbol, [')'], 12⟩, ⟨.symbol, [';'], 13⟩,
      ⟨.value, ['3'], 14⟩] (by rw [hdialect]; decide +kernel) (by rw [hdialect]; decide +kernel)
    (by decide)

end SqlLayout.Layout
