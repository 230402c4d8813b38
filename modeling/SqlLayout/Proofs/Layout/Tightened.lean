import SqlLayout.Proofs.Layout.Placement
import SqlLayout.Proofs.Layout.Nesting

/-!
# Joined bracket pairs

Bracket pairs are joined from the end of a list on.  Mostly that takes white space away only inside a
bracket pair around one token, which may be such a pair itself (`Nest`).  But the token between two
brackets can be a bracket too, of another pair (`isCrowd`): then the pair that is joined is none, and a
closing bracket loses the white space in front of it.  When no brackets crowd, each closing bracket keeps
its line or closes a pair without white space in it (`Tightened.cases_close`); when some do, one loses
its line (`hasTucked_of_crowded`).
-/

namespace SqlLayout.Layout

/-! ## Nests -/

/-- `Nest ts`: the tokens are one token that is no bracket, in any number of bracket pairs. -/
inductive Nest : List Token → Prop
  | single (t : Token) (hopen : t.isSymbol ['('] = false) (hclose : t.isSymbol [')'] = false) : Nest [t]
  | pair {a e : Token} {inside : List Token} (hopen : a.isSymbol ['('] = true)
      (hclose : e.isSymbol [')'] = true) (nest : Nest inside) : Nest (a :: (inside ++ [e]))

namespace Nest

variable {ts us : List Token}

theorem ne_nil (h : Nest ts) : ts ≠ [] := by
  cases h <;> simp

theorem isSymbol_open_of_close {t : Token} (h : t.isSymbol [')'] = true) : t.isSymbol ['('] = false := by
  simp [isSymbol_of_isSymbol h]

/-- A nest closes the brackets that it opens. -/
theorem balanced (h : Nest ts) : openedIn 0 ts = some 0 := by
  induction h with
  | single t hopen hclose => simp [openedIn, hopen, hclose]
  | pair hopen hclose nest ih =>
    have hinside := openedIn_add ih 1
    simp [openedIn, hopen, openedIn_append, hinside, isSymbol_open_of_close hclose, hclose]

/-- A closing bracket in a nest closes a nest. -/
theorem exists_of_close (h : Nest ts) {front back : List Token} {e : Token} (hts : ts = front ++ e :: back)
    (he : e.isSymbol [')'] = true) :
    ∃ outer a inside, front = outer ++ a :: inside ∧ a.isSymbol ['('] = true ∧ Nest inside := by
  induction h generalizing front back with
  | single t hopen hclose =>
    have hmem : e ∈ [t] := hts ▸ by simp
    rw [List.mem_singleton.mp hmem, hclose] at he
    cases he
  | @pair a c inside hopen hclose nest ih =>
    cases front with
    | nil =>
      obtain ⟨rfl, -⟩ := List.cons.inj hts
      rw [isSymbol_open_of_close he] at hopen
      cases hopen
    | cons b front =>
      obtain ⟨rfl, hrest⟩ := List.cons.inj hts
      rcases List.eq_nil_or_concat back with rfl | ⟨back, x, rfl⟩
      · obtain ⟨rfl, -⟩ := List.append_inj' hrest rfl
        exact ⟨[], a, inside, rfl, hopen, nest⟩
      · have hlast : inside ++ [c] = (front ++ e :: back) ++ [x] := by simpa using hrest
        obtain ⟨hinside, -⟩ := List.append_inj' hlast rfl
        obtain ⟨outer, b, inner, rfl, hb, hinner⟩ := ih hinside
        exact ⟨a :: outer, b, inner, rfl, hb, hinner⟩

/-- Whether tokens are a nest is a matter of their brackets. -/
theorem of_forall₂ (hsame : List.Forall₂ (fun t u => ∀ text, u.isSymbol text = t.isSymbol text) ts us)
    (h : Nest us) : Nest ts := by
  induction h generalizing ts with
  | single u hopen hclose =>
    obtain ⟨t, rest, ht, hrest, rfl⟩ := List.forall₂_cons_right_iff.mp hsame
    obtain rfl := List.forall₂_nil_right_iff.mp hrest
    exact .single t ((ht _).symm.trans hopen) ((ht _).symm.trans hclose)
  | @pair a e inside hopen hclose nest ih =>
    obtain ⟨b, rest, hb, hrest, rfl⟩ := List.forall₂_cons_right_iff.mp hsame
    have htake := List.forall₂_take_append _ _ _ hrest
    have hdrop := List.forall₂_drop_append _ _ _ hrest
    obtain ⟨c, none, hc, hnone, hrest'⟩ := List.forall₂_cons_right_iff.mp hdrop
    obtain rfl := List.forall₂_nil_right_iff.mp hnone
    rw [← List.take_append_drop inside.length rest, hrest']
    exact .pair ((hb _).symm.trans hopen) ((hc _).symm.trans hclose) (ih htake)

end Nest

/-! ## Blocks of joined pairs -/

/-- Whether a token is a bracket. -/
def isBracket (t : Token) : Bool := t.isSymbol ['('] || t.isSymbol [')']

theorem isEnclosed_ofPiece (p q r : Piece) :
    isEnclosed (.ofPiece p) (.ofPiece q) (.ofPiece r) =
      (p.token.isSymbol ['('] && !q.gap.isEmpty && !r.gap.isEmpty && r.token.isSymbol [')']) := by
  simp only [isEnclosed, Block.token_ofPiece]
  rfl

/-- Whether three pieces are joined though the token between the brackets is a bracket itself. -/
def isCrowd (p q r : Piece) : Bool :=
  isBracket q.token && isEnclosed (.ofPiece p) (.ofPiece q) (.ofPiece r)

/-- Whether brackets crowd somewhere in a list. -/
def crowded : List Piece → Bool
  | p :: q :: r :: ps => isCrowd p q r || crowded (q :: r :: ps)
  | _ => false

/-- `b.IsPair inner`: the block is a nest in brackets, joined from its head and the pieces `inner`. -/
structure Block.IsPair (b : Block) (inner : List Piece) : Prop where
  opens : b.head.token.isSymbol ['('] = true
  tokens : b.more.map Piece.token = inner.map Piece.token
  nest : Nest (b.pieces.map Piece.token)
  settled : ∀ t ∈ b.pieces.map Piece.token, settle t = t
  tight : ∀ x ∈ b.more, x.gap = []

/-- `Bundles qs bs`: the blocks are the pieces, one by one or joined to nests in brackets. -/
inductive Bundles : List Piece → List Block → Prop
  | nil : Bundles [] []
  | single (p : Piece) {ps : List Piece} {bs : List Block} (rest : Bundles ps bs) :
      Bundles (p :: ps) (.ofPiece p :: bs)
  | pair {b : Block} {inner ps : List Piece} {bs : List Block} (isPair : b.IsPair inner)
      (rest : Bundles ps bs) : Bundles (b.head :: (inner ++ ps)) (b :: bs)

theorem settle_of_isSymbol {t : Token} {text : Text} (h : t.isSymbol text = true) : settle t = t :=
  settle_of_kind_ne (by simp [kind_of_isSymbol h])

/-- A nest between brackets is a pair. -/
theorem Block.isPair_enclose {p r : Piece} {c : Block} {inner : List Piece}
    (hp : p.token.isSymbol ['('] = true) (hr : r.token.isSymbol [')'] = true)
    (htokens : c.more.map Piece.token = inner.map Piece.token) (hnest : Nest (c.pieces.map Piece.token))
    (hsettled : ∀ t ∈ c.pieces.map Piece.token, settle t = t) (htight : ∀ x ∈ c.more, x.gap = []) :
    ((ofPiece p).enclose c (ofPiece r)).IsPair (c.head :: (inner ++ [r])) := by
  have hpieces : ((ofPiece p).enclose c (ofPiece r)).pieces.map Piece.token =
      p.token :: (c.pieces.map Piece.token ++ [r.token]) := by
    simp [enclose, pieces, withGap, ofPiece]
  refine ⟨hp, ?_, ?_, ?_, ?_⟩
  · simp [enclose, pieces, withGap, ofPiece, htokens]
  · rw [hpieces]
    exact .pair hp hr hnest
  · rw [hpieces]
    refine List.forall_mem_cons.mpr ⟨settle_of_isSymbol hp, List.forall_mem_append.mpr ⟨hsettled, ?_⟩⟩
    exact List.forall_mem_singleton.mpr (settle_of_isSymbol hr)
  · simp only [enclose, pieces, withGap, ofPiece, List.nil_append, List.cons_append]
    refine List.forall_mem_cons.mpr ⟨rfl, List.forall_mem_append.mpr ⟨htight, ?_⟩⟩
    exact List.forall_mem_singleton.mpr rfl

/-- A joined pair is no closing bracket. -/
theorem Block.IsPair.isSymbol_close {b : Block} {inner : List Piece} (h : b.IsPair inner) :
    b.token.isSymbol [')'] = false := by
  simp [Token.isSymbol, Block.text_token, text_of_isSymbol h.opens]

/-- Joining the pair at the front of pieces that do not crowd. -/
theorem Bundles.compactFront {p : Piece} {qs : List Piece} {bs : List Block} (h : Bundles qs bs)
    (hfree : crowded (p :: qs) = false)
    (hsettled : ∀ q ∈ qs.head?, p.token.isSymbol ['('] = true → q.gap ≠ [] → settle q.token = q.token) :
    Bundles (p :: qs) (compactFrontBlocks (.ofPiece p :: bs)) := by
  match bs with
  | [] | [_] => exact .single p h
  | c :: e :: bs =>
    rw [compactFrontBlocks]
    split
    · next henclosed =>
      have hjoin := henclosed
      simp only [isEnclosed, Bool.and_eq_true, Block.token_ofPiece] at hjoin
      obtain ⟨⟨⟨hp, hc⟩, he⟩, hclose⟩ := hjoin
      cases h with
      | @single q _ _ rest =>
        cases rest with
        | @single r rs _ rest =>
          have hq : isBracket q.token = false := by
            simp only [crowded, isCrowd, henclosed, Bool.and_true, Bool.or_eq_false_iff] at hfree
            exact hfree.1
          simp only [isBracket, Bool.or_eq_false_iff] at hq
          have hsettled' : settle q.token = q.token := hsettled q rfl hp (by simpa [Block.ofPiece] using hc)
          rw [Block.token_ofPiece] at hclose
          have hpair : ((Block.ofPiece p).enclose (.ofPiece q) (.ofPiece r)).IsPair [q, r] :=
            Block.isPair_enclose hp hclose rfl (.single q.token hq.1 hq.2)
              (by simpa [Block.pieces, Block.ofPiece] using hsettled') (by simp [Block.ofPiece])
          exact .pair hpair rest
        | pair isPair rest =>
          rw [isPair.isSymbol_close] at hclose
          cases hclose
      | @pair _ inner _ _ isPair rest =>
        cases rest with
        | @single r rs _ rest =>
          rw [Block.token_ofPiece] at hclose
          have hpair := Block.isPair_enclose hp hclose isPair.tokens isPair.nest isPair.settled isPair.tight
          have hbundles := Bundles.pair hpair rest
          rwa [List.cons_append, List.append_assoc] at hbundles
        | pair isPair' rest =>
          rw [isPair'.isSymbol_close] at hclose
          cases hclose
    · exact .single p h

/-- Joining bracket pairs in pieces that do not crowd. -/
theorem bundles_compactBlocks {qs : List Piece} (hfree : crowded qs = false)
    (hsettled : qs.IsChain fun p q => p.token.isSymbol ['('] = true → q.gap ≠ [] →
      settle q.token = q.token) : Bundles qs (compactBlocks (qs.map .ofPiece)) := by
  induction qs with
  | nil => exact .nil
  | cons p qs ih =>
    have hrest : crowded qs = false := by
      match qs with
      | [] | [_] => rfl
      | q :: r :: qs =>
        simp only [crowded, Bool.or_eq_false_iff] at hfree
        exact hfree.2
    rw [List.isChain_cons] at hsettled
    exact (ih hrest hsettled.2).compactFront hfree hsettled.1

/-! ## Pieces of joined pairs -/

/-- `Tightened qs os`: the pieces `os` are the pieces `qs` with the gaps inside some nests taken away and
some gaps put where there are none. -/
inductive Tightened : List Piece → List Piece → Prop
  | nil : Tightened [] []
  | keep {q o : Piece} {qs os : List Piece} (token : o.token = q.token) (gap : q.gap ≠ [] → o.gap = q.gap)
      (rest : Tightened qs os) : Tightened (q :: qs) (o :: os)
  | pair {o : Piece} {b : Block} {inner qs os : List Piece} (isPair : b.IsPair inner)
      (token : o.token = b.head.token) (gap : b.head.gap ≠ [] → o.gap = b.head.gap)
      (rest : Tightened qs os) : Tightened (b.head :: (inner ++ qs)) (o :: (b.more ++ os))

theorem Bundles.tightened_fillAfter {qs : List Piece} {bs : List Block} (h : Bundles qs bs) (s : Style)
    (p : Token) : Tightened qs ((fillAfter s p bs).flatMap Block.pieces) := by
  induction h generalizing p with
  | nil => exact .nil
  | single q rest ih =>
    rw [fillAfter, List.flatMap_cons]
    split
    · next hgap =>
      have hgap : q.gap = [] := by simpa [Block.ofPiece] using hgap
      exact .keep (o := ⟨_, _⟩) rfl (absurd hgap) (ih _)
    · exact .keep rfl (fun _ => rfl) (ih _)
  | @pair b inner qs bs isPair rest ih =>
    rw [fillAfter, List.flatMap_cons]
    split
    · next hgap =>
      have hgap : b.head.gap = [] := by simpa using hgap
      exact .pair (o := ⟨_, _⟩) isPair rfl (absurd hgap) (ih _)
    · exact .pair isPair rfl (fun _ => rfl) (ih _)

theorem Bundles.tightened {qs : List Piece} {bs : List Block} (h : Bundles qs bs) (s : Style) :
    Tightened qs ((fillBlocks s bs).flatMap Block.pieces) := by
  cases h with
  | nil => exact .nil
  | single q rest => exact .keep rfl (fun _ => rfl) (rest.tightened_fillAfter s _)
  | pair isPair rest => exact .pair isPair rfl (fun _ => rfl) (rest.tightened_fillAfter s _)

/-! ## Stretches of joined pairs -/

theorem drop_spans (os : List Piece) (n : Nat) : (spans os).drop n = spans (os.drop n) := by
  induction n generalizing os with
  | zero => rfl
  | succ n ih =>
    match os with
    | [] => simp [spans]
    | [o] => simp [spans]
    | o :: o' :: os => simpa [spans] using ih (o' :: os)

/-- Pieces without white space between them read as their tokens. -/
theorem take_spans_of_tight {a e : Piece} {inside rest : List Piece}
    (htight : ∀ x ∈ inside ++ [e], x.gap = []) :
    (spans (a :: (inside ++ e :: rest))).take (inside.length + 1) =
      (a :: inside).map fun x => x.token.text := by
  induction inside generalizing a with
  | nil => simp [spans, htight e (by simp)]
  | cons x inside ih =>
    rw [List.cons_append] at htight
    have hrest := ih (a := x) fun y hy => htight y (List.mem_cons_of_mem x hy)
    rw [List.cons_append, spans, List.length_cons, List.take_succ_cons, hrest, htight x (by simp)]
    simp

/-- The pieces of a joined pair read as its tokens, from any of them up to another. -/
theorem take_spans_of_map_token {o a e : Piece} {more outer inside back : List Piece}
    (htokens : (o :: more).map Piece.token = (outer ++ a :: (inside ++ e :: back)).map Piece.token)
    (htight : ∀ x ∈ more, x.gap = []) (rest : List Piece) :
    (spans ((o :: (more ++ rest)).drop outer.length)).take (inside.length + 1) =
      (a :: inside).map fun x => x.token.text := by
  rw [List.map_append] at htokens
  obtain ⟨outer', parts, hsplit, houter, hparts⟩ := List.map_eq_append_iff.mp htokens
  obtain ⟨a', parts, rfl, ha, hparts⟩ := List.map_eq_cons_iff.mp hparts
  rw [List.map_append] at hparts
  obtain ⟨inside', parts, rfl, hinside, hparts⟩ := List.map_eq_append_iff.mp hparts
  obtain ⟨e', back', rfl, -, -⟩ := List.map_eq_cons_iff.mp hparts
  have htight' : ∀ x ∈ inside' ++ [e'], x.gap = [] := by
    intro x hx
    have hmem : x ∈ inside' ++ e' :: back' := by
      rw [List.append_cons]
      exact List.mem_append_left _ hx
    refine htight x ?_
    cases outer' with
    | nil => exact (List.cons.inj hsplit).2 ▸ hmem
    | cons y outer' =>
      rw [List.cons_append, List.cons.injEq] at hsplit
      exact hsplit.2 ▸ List.mem_append_right _ (List.mem_cons_of_mem _ hmem)
  have hlength : outer.length = outer'.length := by simpa using congrArg List.length houter.symm
  have hlength' : inside.length = inside'.length := by simpa using congrArg List.length hinside.symm
  have hdrop : (o :: (more ++ rest)).drop outer.length = a' :: (inside' ++ e' :: (back' ++ rest)) := by
    rw [← List.cons_append, hsplit, hlength]
    simp
  have htexts := congrArg (List.map Token.text) hinside
  simp only [List.map_map, Function.comp_def] at htexts
  rw [hdrop, hlength', take_spans_of_tight htight', List.map_cons, List.map_cons, ha, htexts]

/-- The stretch from one piece up to the next. -/
theorem getElem?_spans {os : List Piece} {a e : Piece} {n : Nat} (ha : os[n]? = some a)
    (he : os[n + 1]? = some e) : (spans os)[n]? = some (a.token.text ++ e.gap) := by
  have hdrop : os.drop n = a :: e :: os.drop (n + 2) := by
    rw [List.drop_eq_getElem?_toList_append, List.drop_eq_getElem?_toList_append, ha, he]
    rfl
  have hspans := drop_spans os n
  rw [hdrop, spans] at hspans
  have hhead := congrArg List.head? hspans
  rwa [List.head?_drop] at hhead

/-- `Nests os outer a inside`: behind `outer` stands the bracket `a` with the nest `inside` in it, and `os`
has them without white space up to the closing bracket. -/
structure Nests (os outer : List Piece) (a : Piece) (inside : List Piece) : Prop where
  opens : a.token.isSymbol ['('] = true
  nest : Nest (inside.map Piece.token)
  settled : ∀ x ∈ a :: inside, settle x.token = x.token
  tight : (spans (os.drop outer.length)).take (inside.length + 1) =
    (a :: inside).map fun x => x.token.text

theorem Nests.of_drop {os os' outer outer' inside : List Piece} {a : Piece} (h : Nests os outer a inside)
    (hdrop : os'.drop outer'.length = os.drop outer.length) : Nests os' outer' a inside :=
  ⟨h.opens, h.nest, h.settled, by rw [hdrop]; exact h.tight⟩

/-- A closing bracket in a joined pair closes a nest. -/
theorem Block.IsPair.nests {b : Block} {o e : Piece} {inner front back : List Piece} (h : b.IsPair inner)
    (htoken : o.token = b.head.token) (hinner : inner = front ++ e :: back)
    (he : e.token.isSymbol [')'] = true) (os : List Piece) :
    ∃ outer a inside, b.head :: front = outer ++ a :: inside ∧
      Nests (o :: (b.more ++ os)) outer a inside := by
  have htokens : b.pieces.map Piece.token = (b.head :: inner).map Piece.token := by
    simp [pieces, h.tokens]
  have hclose : b.pieces.map Piece.token =
      (b.head :: front).map Piece.token ++ e.token :: back.map Piece.token := by simp [htokens, hinner]
  obtain ⟨ts, t, us, hfront, ht, hus⟩ := h.nest.exists_of_close hclose he
  obtain ⟨outer, rest, hsplit, rfl, hrest⟩ := List.map_eq_append_iff.mp hfront
  obtain ⟨a, inside, rfl, rfl, rfl⟩ := List.map_eq_cons_iff.mp hrest
  have hparts : b.head :: inner = outer ++ a :: (inside ++ e :: back) := by
    rw [hinner, ← List.cons_append, hsplit]
    simp
  refine ⟨outer, a, inside, hsplit, ht, hus, fun x hx => h.settled x.token ?_, ?_⟩
  · rw [htokens, hparts, ← List.cons_append]
    exact List.mem_map_of_mem (List.mem_append_right _ (List.mem_append_left _ hx))
  · have hmap : (o :: b.more).map Piece.token =
        (outer ++ a :: (inside ++ e :: back)).map Piece.token := by
      rw [← hparts, List.map_cons, List.map_cons, htoken, h.tokens]
    exact take_spans_of_map_token hmap h.tight os

/-- A closing bracket keeps the white space in front of it or closes a nest. -/
theorem Tightened.cases_close {qs os front back : List Piece} {e : Piece} (h : Tightened qs os)
    (hqs : qs = front ++ e :: back) (he : e.token.isSymbol [')'] = true) (hgap : e.gap ≠ []) :
    (∃ front' e' back', os = front' ++ e' :: back' ∧ front'.length = front.length ∧ e'.gap = e.gap) ∨
      ∃ outer a inside, front = outer ++ a :: inside ∧ Nests os outer a inside := by
  induction h generalizing front with
  | nil => simp at hqs
  | @keep q o qs os token gap rest ih =>
    cases front with
    | nil =>
      obtain ⟨rfl, -⟩ := List.cons.inj hqs
      exact .inl ⟨[], o, os, rfl, rfl, gap hgap⟩
    | cons p front =>
      rw [List.cons_append, List.cons.injEq] at hqs
      obtain ⟨rfl, hrest⟩ := hqs
      rcases ih hrest with ⟨front', e', back', rfl, hlength, hkept⟩ | ⟨outer, a, inside, rfl, hnests⟩
      · exact .inl ⟨o :: front', e', back', rfl, by simp [hlength], hkept⟩
      · exact .inr ⟨q :: outer, a, inside, rfl, hnests.of_drop rfl⟩
  | @pair o b inner qs os isPair token gap rest ih =>
    cases front with
    | nil =>
      obtain ⟨rfl, -⟩ := List.cons.inj hqs
      exact .inl ⟨[], o, _, rfl, rfl, gap hgap⟩
    | cons p front =>
      rw [List.cons_append, List.cons.injEq] at hqs
      obtain ⟨rfl, hrest⟩ := hqs
      have hlength : b.more.length = inner.length := by simpa using congrArg List.length isPair.tokens
      rcases List.append_eq_append_iff.mp hrest with ⟨mid, rfl, hmid⟩ | ⟨mid, hinner, hmid⟩
      · rcases ih hmid with ⟨front', e', back', rfl, hlength', hkept⟩ | ⟨outer, a, inside, rfl, hnests⟩
        · exact .inl ⟨o :: (b.more ++ front'), e', back', by simp, by simp [hlength, hlength'], hkept⟩
        · refine .inr ⟨b.head :: (inner ++ outer), a, inside, by simp, hnests.of_drop ?_⟩
          simp [← hlength, List.drop_append]
      · cases mid with
        | nil =>
          rw [List.append_nil] at hinner
          subst hinner
          have hnext : qs = [] ++ e :: back := hmid.symm
          rcases ih hnext with ⟨front', e', back', rfl, hlength', hkept⟩ | hnone
          · exact .inl ⟨o :: (b.more ++ front'), e', back', by simp, by simpa [hlength] using hlength', hkept⟩
          · obtain ⟨outer, a, inside, hnil, -⟩ := hnone
            simp at hnil
        | cons x mid =>
          obtain ⟨rfl, -⟩ := List.cons.inj hmid
          exact .inr (isPair.nests token hinner he os)

/-! ## Crowds -/

/-- For each piece of a block, whether it stands behind another one of the block. -/
def Block.tucks (b : Block) : List Bool := false :: b.more.map fun _ => true

theorem Block.tucks_enclose (a c e : Block) :
    (a.enclose c e).tucks =
      false :: List.replicate (a.more.length + (c.tucks.length + e.tucks.length)) true := by
  simp only [tucks, enclose, pieces, withGap, List.map_append, List.map_cons, List.map_const',
    List.cons_append, ← List.replicate_succ, List.length_cons, List.length_replicate,
    List.replicate_append_replicate]
  rw [Nat.add_right_comm c.more.length]

/-- What stands behind another piece of its block does so when pairs further in front are joined. -/
theorem getElem?_tucks_compactFrontBlocks (p : Piece) {bs : List Block} {k : Nat}
    (h : (bs.flatMap Block.tucks)[k]? = some true) :
    ((compactFrontBlocks (.ofPiece p :: bs)).flatMap Block.tucks)[k + 1]? = some true := by
  match bs with
  | [] | [_] => exact h
  | c :: e :: bs =>
    rw [compactFrontBlocks]
    split
    · simp only [List.flatMap_cons, Block.tucks_enclose, List.cons_append, List.getElem?_cons_succ]
      simp only [List.flatMap_cons, ← List.append_assoc] at h
      rw [List.getElem?_append] at h ⊢
      simp only [Block.ofPiece, List.length_nil, Nat.zero_add, List.length_replicate]
      rw [List.length_append] at h
      split
      · next hlt => simp [hlt]
      · next hge => rwa [if_neg hge] at h
    · exact h

/-- Behind another piece of its block a piece has no white space in front of it. -/
theorem exists_gap_of_tucks {bs : List Block} (htight : ∀ b ∈ bs, ∀ x ∈ b.more, x.gap = []) {k : Nat}
    (h : (bs.flatMap Block.tucks)[k]? = some true) :
    ∃ o, (bs.flatMap Block.pieces)[k]? = some o ∧ o.gap = [] := by
  induction bs generalizing k with
  | nil => simp at h
  | cons b bs ih =>
    have hlength : b.tucks.length = b.pieces.length := by simp [Block.tucks, Block.pieces]
    rw [List.flatMap_cons, List.getElem?_append] at h ⊢
    rw [hlength] at h
    split
    · next hlt =>
      rw [if_pos hlt] at h
      cases k with
      | zero => simp [Block.tucks] at h
      | succ k =>
        have hk : k < b.more.length := by simpa [Block.pieces] using hlt
        refine ⟨b.more[k], by simp [Block.pieces, hk], htight b (by simp) _ (List.getElem_mem hk)⟩
    · next hge =>
      rw [if_neg hge] at h
      exact ih (fun x hx => htight x (by simp [hx])) h

theorem tucks_fillAfter (s : Style) (p : Token) (bs : List Block) :
    (fillAfter s p bs).flatMap Block.tucks = bs.flatMap Block.tucks := by
  induction bs generalizing p with
  | nil => rfl
  | cons b bs ih =>
    rw [fillAfter, List.flatMap_cons, List.flatMap_cons, ih]
    split <;> rfl

theorem tucks_fillBlocks (s : Style) (bs : List Block) :
    (fillBlocks s bs).flatMap Block.tucks = bs.flatMap Block.tucks := by
  cases bs with
  | nil => rfl
  | cons b bs => rw [fillBlocks, List.flatMap_cons, List.flatMap_cons, tucks_fillAfter]

/-- Inside the blocks nothing is filled in. -/
theorem tight_fillAfter (s : Style) (p : Token) {bs : List Block}
    (htight : ∀ b ∈ bs, ∀ x ∈ b.more, x.gap = []) : ∀ b ∈ fillAfter s p bs, ∀ x ∈ b.more, x.gap = [] := by
  induction bs generalizing p with
  | nil => exact htight
  | cons b bs ih =>
    have hb := htight b (by simp)
    rw [fillAfter]
    refine List.forall_mem_cons.mpr ⟨?_, ih _ fun x hx => htight x (by simp [hx])⟩
    split <;> exact hb

theorem tight_fillBlocks (s : Style) {bs : List Block} (htight : ∀ b ∈ bs, ∀ x ∈ b.more, x.gap = []) :
    ∀ b ∈ fillBlocks s bs, ∀ x ∈ b.more, x.gap = [] := by
  cases bs with
  | nil => exact htight
  | cons b bs =>
    exact List.forall_mem_cons.mpr
      ⟨htight b (by simp), tight_fillAfter s _ fun x hx => htight x (by simp [hx])⟩

theorem tight_compactBlocks (qs : List Piece) :
    ∀ b ∈ compactBlocks (qs.map .ofPiece), ∀ x ∈ b.more, x.gap = [] := by
  refine forall_compactBlocks (P := fun b => ∀ x ∈ b.more, x.gap = []) ?_ fun a c e ha hc he _ => ?_
  · simp [Block.ofPiece]
  · simp only [Block.enclose, Block.pieces, Block.withGap, List.forall_mem_append, List.forall_mem_cons]
    exact ⟨ha, ⟨trivial, hc⟩, trivial, he⟩

theorem compactFrontBlocks_of_not_open {p : Piece} (hp : p.token.isSymbol ['('] = false) (bs : List Block) :
    compactFrontBlocks (.ofPiece p :: bs) = .ofPiece p :: bs := by
  match bs with
  | [] | [_] => rfl
  | c :: e :: bs => simp [compactFrontBlocks, isEnclosed, hp]

/-- The first block stays or is joined to the two behind it. -/
theorem compactFrontBlocks_cases (a c : Block) (bs : List Block) :
    compactFrontBlocks (a :: c :: bs) = a :: c :: bs ∨
      ∃ e es, compactFrontBlocks (a :: c :: bs) = a.enclose c e :: es := by
  cases bs with
  | nil => exact .inl rfl
  | cons e es =>
    rw [compactFrontBlocks]
    split
    · exact .inr ⟨e, es, rfl⟩
    · exact .inl rfl

/-- `HasTucked qs`: somewhere in the pieces stands a bracket pair with nothing in it whose closing bracket
has white space in front of it and loses it. -/
def HasTucked (qs : List Piece) : Prop :=
  ∃ front a e back, qs = front ++ a :: e :: back ∧ a.token.isSymbol ['('] = true ∧
    e.token.isSymbol [')'] = true ∧ e.gap ≠ [] ∧
    ((compactBlocks (qs.map .ofPiece)).flatMap Block.tucks)[front.length + 1]? = some true

theorem hasTucked_of_isCrowd {p q r : Piece} (h : isCrowd p q r = true) (rest : List Piece) :
    HasTucked (p :: q :: r :: rest) := by
  simp only [isCrowd, isBracket, Bool.and_eq_true, Bool.or_eq_true] at h
  obtain ⟨hq, henclosed⟩ := h
  have hjoin := henclosed
  simp only [isEnclosed_ofPiece, Bool.and_eq_true] at hjoin
  obtain ⟨⟨⟨hp, hqgap⟩, hrgap⟩, hr⟩ := hjoin
  have hqgap : q.gap ≠ [] := by simpa using hqgap
  have hrgap : r.gap ≠ [] := by simpa using hrgap
  have hkeeps := compactFrontBlocks_of_not_open (Nest.isSymbol_open_of_close hr)
    (compactBlocks (rest.map .ofPiece))
  rcases hq with hq | hq
  · -- the inner pair is joined to what follows, or else the outer bracket takes it apart
    refine ⟨[p], q, r, rest, rfl, hq, hr, hrgap, ?_⟩
    simp only [List.map_cons, compactBlocks, hkeeps]
    rcases compactFrontBlocks_cases (.ofPiece q) (.ofPiece r) (compactBlocks (rest.map .ofPiece)) with
      hinner | ⟨e, es, hinner⟩
    · rw [hinner, compactFrontBlocks, if_pos henclosed]
      rfl
    · rw [hinner]
      exact getElem?_tucks_compactFrontBlocks p rfl
  · refine ⟨[], p, q, r :: rest, rfl, hp, hq, hqgap, ?_⟩
    simp only [List.map_cons, compactBlocks, hkeeps]
    rw [compactFrontBlocks_of_not_open (Nest.isSymbol_open_of_close hq), compactFrontBlocks,
      if_pos henclosed]
    rfl

theorem HasTucked.cons {qs : List Piece} (h : HasTucked qs) (p : Piece) : HasTucked (p :: qs) := by
  obtain ⟨front, a, e, back, hqs, ha, he, hgap, htucked⟩ := h
  exact ⟨p :: front, a, e, back, by rw [hqs]; rfl, ha, he, hgap,
    getElem?_tucks_compactFrontBlocks p htucked⟩

/-- Where brackets crowd, a bracket pair with nothing in it is broken up: its closing bracket is joined to
what stands in front. -/
theorem hasTucked_of_crowded {qs : List Piece} (h : crowded qs = true) : HasTucked qs := by
  induction qs with
  | nil => cases h
  | cons p qs ih =>
    rcases qs with _ | ⟨q, _ | ⟨r, rest⟩⟩
    · cases h
    · cases h
    · rw [crowded, Bool.or_eq_true] at h
      rcases h with h | h
      · exact hasTucked_of_isCrowd h rest
      · exact (ih h).cons p

end SqlLayout.Layout
