import SqlLayout.Proofs.Layout.Move
import SqlLayout.Proofs.Layout.Overrun

/-!
# The layout by positions

The passes can also be carried out on one list with an index that moves along it, where every access to
a position, a range or a place between two positions may fail.  They make the same layout
(`formatByPosition_eq`), so the only access that fails is the visit to a token behind the last one.
-/

namespace SqlLayout.Layout

/-! ## Accesses that may fail -/

section Accesses

variable {α : Type}

/-- The list with `a` at position `i`. -/
def replaceAt? (i : Nat) (a : α) (l : List α) : Option (List α) :=
  if i < l.length then some (l.set i a) else none

/-- The list with `a` in front of position `i`, or at its end. -/
def insertAt? (i : Nat) (a : α) (l : List α) : Option (List α) :=
  if i ≤ l.length then some (l.take i ++ a :: l.drop i) else none

/-- The elements from position `i` to in front of position `j`. -/
def slice? (i j : Nat) (l : List α) : Option (List α) :=
  if i ≤ j ∧ j ≤ l.length then some ((l.take j).drop i) else none

/-- The list without the elements from position `i` to in front of position `j`. -/
def drain? (i j : Nat) (l : List α) : Option (List α) :=
  if i ≤ j ∧ j ≤ l.length then some (l.take i ++ l.drop j) else none

theorem replaceAt?_append (front back : List α) (a b : α) :
    replaceAt? front.length b (front ++ a :: back) = some (front ++ b :: back) := by
  simp [replaceAt?]

theorem insertAt?_append (front back : List α) (a : α) :
    insertAt? front.length a (front ++ back) = some (front ++ a :: back) := by
  simp [insertAt?]

theorem slice?_append (front mid back : List α) :
    slice? front.length (front.length + mid.length) (front ++ (mid ++ back)) = some mid := by
  simp [slice?, List.take_append]

theorem drain?_append (front mid back : List α) :
    drain? front.length (front.length + mid.length) (front ++ (mid ++ back)) = some (front ++ back) := by
  simp [drain?, List.drop_append]

theorem replaceAt?_behind (front back : List α) (p a b : α) :
    replaceAt? (front.length + 1) b (front ++ p :: a :: back) = some (front ++ p :: b :: back) := by
  simpa using replaceAt?_append (front ++ [p]) back a b

theorem insertAt?_behind (front back : List α) (p a : α) :
    insertAt? (front.length + 1) a (front ++ p :: back) = some (front ++ p :: a :: back) := by
  simpa using insertAt?_append (front ++ [p]) back a

end Accesses

/-! ## Breaks -/

/-- Puts a break of a level in front of the token at position `i`.  The number says how many tokens the
walk moves on by then. -/
def breakAt? (s : Style) (level : Int) (i : Nat) (ts : List Token) : Option (List Token × Nat) :=
  if ts.length ≤ i then some (ts, 0)
  else do
    let t ← ts[i]?
    let line := if i = 0 then s.lineBreak level else breakText (s.lineBreak level) t
    let t := if i = 0 then t else settle t
    let ts ← replaceAt? i t ts
    if t.isSpace then
      let ts ← replaceAt? i (t.withText line) ts
      some (ts, 0)
    else if s.isDelimiter t.text then
      if i + 1 < ts.length then
        let ts ← insertAt? (i + 1) (Token.space (line ++ line) t.offset) ts
        some (ts, 1)
      else some (ts, 1)
    else if i = 0 then some (ts, 0)
    else
      let p ← ts[i - 1]?
      if p.isSpace then
        let ts ← replaceAt? (i - 1) (p.withText line) ts
        some (ts, 0)
      else
        let ts ← insertAt? i (Token.space line t.offset) ts
        some (ts, 1)

section Breaks

variable {s : Style} {level : Int}

theorem breakAt?_of_le {i : Nat} {ts : List Token} (h : ts.length ≤ i) :
    breakAt? s level i ts = some (ts, 0) := by
  rw [breakAt?, if_pos h]

/-- A break in front of the first token. -/
theorem breakAt?_zero (t : Token) (ts : List Token) :
    breakAt? s level 0 (t :: ts) = some
      (if t.isSpace then (t.withText (s.lineBreak level) :: ts, 0)
      else if s.isDelimiter t.text then (t :: afterDelimiter (s.lineBreak level) t.offset ts, 1)
      else (t :: ts, 0)) := by
  have hset (b : Token) : replaceAt? 0 b (t :: ts) = some (b :: ts) := replaceAt?_append [] ts t b
  have hput (a : Token) : insertAt? 1 a (t :: ts) = some (t :: a :: ts) := insertAt?_append [t] ts a
  have hlength : ¬ (t :: ts).length ≤ 0 := by simp
  rw [breakAt?, if_neg hlength]
  simp only [List.getElem?_cons_zero, Option.bind_eq_bind, Option.bind_some, ↓reduceIte, hset, Nat.zero_add]
  cases hspace : t.isSpace with
  | true => rfl
  | false =>
    cases hdelimiter : s.isDelimiter t.text with
    | false => rfl
    | true =>
      cases ts with
      | nil => rfl
      | cons a as => simp [hput, afterDelimiter]

/-- A break between two tokens. -/
theorem breakAt?_between (s : Style) (level : Int) (front : List Token) (p t : Token) (ts : List Token) :
    breakAt? s level (front.length + 1) (front ++ p :: t :: ts) = some
      (if (settle t).isSpace then
        (front ++ p :: (settle t).withText (breakText (s.lineBreak level) t) :: ts, 0)
      else if s.isDelimiter (settle t).text then
        (front ++ p :: settle t :: afterDelimiter (breakText (s.lineBreak level) t) (settle t).offset ts, 1)
      else if p.isSpace then
        (front ++ p.withText (breakText (s.lineBreak level) t) :: settle t :: ts, 0)
      else
        (front ++ p :: Token.space (breakText (s.lineBreak level) t) (settle t).offset :: settle t :: ts,
          1)) := by
  have hlength : ¬ (front ++ p :: t :: ts).length ≤ front.length + 1 := by simp
  have hat : (front ++ p :: t :: ts)[front.length + 1]? = some t := by simp
  have hbefore : (front ++ p :: settle t :: ts)[front.length]? = some p := by simp
  rw [breakAt?, if_neg hlength, hat]
  simp only [Option.bind_eq_bind, Option.bind_some, replaceAt?_behind, Nat.succ_ne_zero, ↓reduceIte,
    Nat.add_sub_cancel, hbefore]
  cases hspace : (settle t).isSpace with
  | true => rfl
  | false =>
    cases hdelimiter : s.isDelimiter (settle t).text with
    | true =>
      cases ts with
      | nil => simp [afterDelimiter]
      | cons a as =>
        have hmore : front.length + 1 + 1 < (front ++ p :: settle t :: a :: as).length := by
          simp only [List.length_append, List.length_cons]
          omega
        have hput (b : Token) : insertAt? (front.length + 1 + 1) b (front ++ p :: settle t :: a :: as) =
            some (front ++ p :: settle t :: b :: a :: as) := by
          simpa using insertAt?_behind (front ++ [p]) (a :: as) (settle t) b
        simp only [Bool.false_eq_true, ↓reduceIte, hmore, hput, Option.bind_some, afterDelimiter,
          List.isEmpty_cons]
    | false =>
      cases hp : p.isSpace with
      | true => simp [replaceAt?_append]
      | false => simp [insertAt?_behind]

/-- A break touches only positions that are there, wherever it is put. -/
theorem isSome_breakAt? (s : Style) (level : Int) (i : Nat) (ts : List Token) :
    (breakAt? s level i ts).isSome = true := by
  rcases Nat.lt_or_ge i ts.length with hindex | hindex
  · cases i with
    | zero =>
      obtain ⟨t, rest, rfl⟩ := List.exists_cons_of_length_pos hindex
      simp [breakAt?_zero]
    | succ i =>
      have hsplit : ts = ts.take i ++ ts[i] :: ts[i + 1] :: ts.drop (i + 2) := by
        rw [List.getElem_cons_drop, List.getElem_cons_drop, List.take_append_drop]
      have hlength : (ts.take i).length = i := by
        rw [List.length_take]
        omega
      have hbetween := breakAt?_between s level (ts.take i) ts[i] ts[i + 1] (ts.drop (i + 2))
      rw [← hsplit, hlength] at hbetween
      rw [hbetween]
      rfl
  · rw [breakAt?_of_le hindex]
    rfl

end Breaks

/-! ## The walk -/

/-- The walk with its tokens in one list and the position of the current one. -/
structure Seat where
  tokens : List Token
  index : Nat
  footing : Footing
  /-- The text of the token visited before. -/
  previous : Text
  deriving DecidableEq, Repr

/-- A walk by the position of its cursor. -/
def Walk.seat (w : Walk) : Seat := ⟨w.cursor.tokens, w.cursor.before.length, w.footing, w.previous⟩

namespace Seat

/-- In front of the first token. -/
def start (ts : List Token) : Seat := ⟨ts, 0, ⟨[], 0, false⟩, [' ']⟩

/-- A break in front of the current token, or none. -/
def breakHere? (s : Style) (here : Option Int) (p : Seat) : Option Seat :=
  match here with
  | none => some p
  | some level => do
    let (tokens, inserted) ← breakAt? s level p.index p.tokens
    some { p with tokens := tokens, index := p.index + inserted }

/-- A break behind the current token, or none. -/
def breakBehind? (s : Style) (next : Option Int) (p : Seat) : Option Seat :=
  match next with
  | none => some p
  | some level => do
    let (tokens, inserted) ← breakAt? s level (p.index + 1) p.tokens
    some { p with tokens := tokens, index := p.index + inserted }

/-- Whether the current token directly follows a line comment that lost its line feed. -/
def followsOpenLineComment? (s : Style) (p : Seat) : Option Bool :=
  if p.index = 0 then some false
  else do
    let q ← p.tokens[p.index - 1]?
    let t ← p.tokens[p.index]?
    some (isLineComment q && !Text.endsWith q.text '\n' && !t.isSpace && !s.isDelimiter t.text)

/-- Whether the current token opens a join clause. -/
def atJoinStart? (p : Seat) : Option Bool := do
  let t ← p.tokens[p.index]?
  let front ← slice? 0 p.index p.tokens
  let back ← slice? p.index p.tokens.length p.tokens
  some (Walk.isJoinWord t.text && !((Walk.wordTexts front.reverse).head?.any Walk.isJoinWord) &&
    Walk.reachesJoin (Walk.wordTexts back))

/-- Whether a comment stands right in front of the current token. -/
def afterComment? (p : Seat) : Option Bool :=
  if p.index = 0 then some false
  else do
    let q ← p.tokens[p.index - 1]?
    some (q.kind == .comment)

/-- Ends the line of a line comment that lost its line feed. -/
def closeLineComment? (s : Style) (p : Seat) : Option Seat := do
  if ← p.followsOpenLineComment? s then p.breakHere? s (p.footing.breakAt p.footing.level) else some p

/-- Visits the current token, once the line comment before it is closed: makes the move at the token. -/
def visit? (d : Dialect) (s : Style) (p : Seat) : Option Seat := do
  let p ← p.closeLineComment? s
  let t ← p.tokens[p.index]?
  let joins ← p.atJoinStart?
  let commented ← p.afterComment?
  let m := moveOf s ⟨d.isFunction p.previous, joins, p.index == 0, commented⟩ t p.footing
  let p ← p.breakHere? s m.here
  let p ← p.breakBehind? s m.next
  some { p with index := p.index + 1, footing := m.footing, previous := t.text }

end Seat

section Seats

variable {d : Dialect} {s : Style}

theorem breakHere?_seat (here : Option Int) (w : Walk) :
    w.seat.breakHere? s here = some { w with cursor := w.cursor.breakHere? s here : Walk }.seat := by
  cases here with
  | none => rfl
  | some level =>
    obtain ⟨⟨before, after⟩, brackets, outer, inRange, previous⟩ := w
    cases after with
    | nil =>
      simp [Seat.breakHere?, Walk.seat, Cursor.tokens, breakAt?_of_le, Cursor.breakHere?,
        Cursor.breakHere, Walk.footing]
    | cons t ts =>
      cases before with
      | nil =>
        simp only [Seat.breakHere?, Walk.seat, Cursor.tokens, List.reverse_nil, List.nil_append,
          List.length_nil, breakAt?_zero, Cursor.breakHere?, Cursor.breakHere]
        cases t.isSpace <;> cases s.isDelimiter t.text <;> simp [Walk.footing]
      | cons p ps =>
        have hbetween := breakAt?_between s level ps.reverse p t ts
        rw [List.length_reverse] at hbetween
        simp only [Seat.breakHere?, Walk.seat, Cursor.tokens, List.reverse_cons, List.append_assoc,
          List.singleton_append, List.length_cons, hbetween, Cursor.breakHere?, Cursor.breakHere]
        cases (settle t).isSpace <;> cases s.isDelimiter (settle t).text <;> cases p.isSpace <;>
          simp [Walk.footing]

theorem breakBehind?_seat (next : Option Int) (w : Walk) :
    w.seat.breakBehind? s next = some { w with cursor := w.cursor.breakBehind? s next : Walk }.seat := by
  cases next with
  | none => rfl
  | some level =>
    obtain ⟨⟨before, after⟩, brackets, outer, inRange, previous⟩ := w
    rcases after with _ | ⟨p, _ | ⟨t, ts⟩⟩
    · simp [Seat.breakBehind?, Walk.seat, Cursor.tokens, breakAt?_of_le, Cursor.breakBehind?,
        Cursor.breakNext, Walk.footing]
    · simp [Seat.breakBehind?, Walk.seat, Cursor.tokens, breakAt?_of_le, Cursor.breakBehind?,
        Cursor.breakNext, Walk.footing]
    · have hbetween := breakAt?_between s level before.reverse p t ts
      rw [List.length_reverse] at hbetween
      simp only [Seat.breakBehind?, Walk.seat, Cursor.tokens, hbetween, Cursor.breakBehind?,
        Cursor.breakNext]
      cases (settle t).isSpace <;> cases s.isDelimiter (settle t).text <;> cases p.isSpace <;>
        simp [Walk.footing]

/-- The token that the walk is at. -/
theorem getElem?_seat {w : Walk} {t : Token} {ts : List Token} (hafter : w.cursor.after = t :: ts) :
    w.seat.tokens[w.seat.index]? = some t := by
  simp [Walk.seat, Cursor.tokens, hafter]

/-- The token in front of it. -/
theorem getElem?_seat_pred {w : Walk} {p : Token} {ps : List Token} (hbefore : w.cursor.before = p :: ps) :
    w.seat.index ≠ 0 ∧ w.seat.tokens[w.seat.index - 1]? = some p := by
  simp [Walk.seat, Cursor.tokens, hbefore]

theorem followsOpenLineComment?_seat (w : Walk) (hafter : w.cursor.after ≠ []) :
    w.seat.followsOpenLineComment? s = some (Walk.followsOpenLineComment s w.cursor) := by
  obtain ⟨t, ts, hafter⟩ := List.exists_cons_of_ne_nil hafter
  cases hbefore : w.cursor.before with
  | nil => simp [Seat.followsOpenLineComment?, Walk.seat, Walk.followsOpenLineComment, hbefore]
  | cons p ps =>
    obtain ⟨hindex, hp⟩ := getElem?_seat_pred hbefore
    simp [Seat.followsOpenLineComment?, hindex, hp, getElem?_seat hafter, Walk.followsOpenLineComment,
      hbefore, hafter]

theorem atJoinStart?_seat (w : Walk) (hafter : w.cursor.after ≠ []) :
    w.seat.atJoinStart? = some (Walk.atJoinStart w.cursor) := by
  obtain ⟨t, ts, hafter⟩ := List.exists_cons_of_ne_nil hafter
  have hfront : slice? 0 w.seat.index w.seat.tokens = some w.cursor.before.reverse := by
    simpa [Walk.seat, Cursor.tokens] using slice?_append [] w.cursor.before.reverse w.cursor.after
  have hback : slice? w.seat.index w.seat.tokens.length w.seat.tokens = some w.cursor.after := by
    simpa [Walk.seat, Cursor.tokens] using slice?_append w.cursor.before.reverse w.cursor.after []
  simp [Seat.atJoinStart?, getElem?_seat hafter, hfront, hback, Walk.atJoinStart, hafter]

theorem afterComment?_seat (w : Walk) :
    w.seat.afterComment? = some (w.cursor.before.head?.any (·.kind == .comment)) := by
  cases hbefore : w.cursor.before with
  | nil => simp [Seat.afterComment?, Walk.seat, hbefore]
  | cons p ps =>
    obtain ⟨hindex, hp⟩ := getElem?_seat_pred hbefore
    simp [Seat.afterComment?, hindex, hp]

theorem closeLineComment?_seat (w : Walk) (hafter : w.cursor.after ≠ []) :
    w.seat.closeLineComment? s = some (w.closeLineComment s).seat := by
  simp only [Seat.closeLineComment?, followsOpenLineComment?_seat w hafter, Option.bind_eq_bind,
    Option.bind_some, Walk.closeLineComment]
  split
  · rw [Walk.breakHere_eq, breakHere?_seat]
    rfl
  · rfl

/-- The position where the cursor of the walk is, or any behind the last token when it is at the end. -/
structure Seat.IsAt (p : Seat) (w : Walk) : Prop where
  tokens : p.tokens = w.cursor.tokens
  index : p.index = w.cursor.before.length ∨ w.cursor.after = [] ∧ p.tokens.length ≤ p.index
  footing : p.footing = w.footing
  previous : p.previous = w.previous

theorem Seat.IsAt.eq_seat {p : Seat} {w : Walk} (h : p.IsAt w) (hafter : w.cursor.after ≠ []) :
    p = w.seat := by
  obtain ⟨tokens, index, footing, previous⟩ := p
  obtain ⟨rfl, hindex, rfl, rfl⟩ := h
  obtain rfl := hindex.resolve_right fun hdone => hafter hdone.1
  rfl

theorem Seat.IsAt.remaining {p : Seat} {w : Walk} (h : p.IsAt w) :
    p.tokens.length - p.index = w.remaining := by
  rcases h.index with hindex | ⟨hdone, hindex⟩
  · rw [h.tokens, hindex]
    simp [Cursor.tokens, Walk.remaining]
  · simp [Walk.remaining, hdone, hindex]

/-- The position is one of the list while the walk has a token to visit. -/
theorem Seat.IsAt.index_lt_iff {p : Seat} {w : Walk} (h : p.IsAt w) :
    p.index < p.tokens.length ↔ w.cursor.after ≠ [] := by
  rw [← Nat.sub_pos_iff_lt, h.remaining, Walk.remaining, List.length_pos_iff]

/-- Behind the current token. -/
theorem isAt_leave (w : Walk) (text : Text) :
    Seat.IsAt ⟨w.seat.tokens, w.seat.index + 1, w.footing, text⟩ (w.leave text) := by
  obtain ⟨⟨before, after⟩, brackets, level, inRange, previous⟩ := w
  cases after with
  | nil => exact ⟨rfl, .inr ⟨rfl, by simp [Walk.seat, Cursor.tokens]⟩, rfl, rfl⟩
  | cons t ts =>
    exact ⟨by simp [Walk.seat, Walk.leave, Cursor.tokens, Cursor.advance],
      .inl (by simp [Walk.seat, Walk.leave, Cursor.advance]), rfl, rfl⟩

/-- A visit by positions is the visit of the walk. -/
theorem visit?_seat (w : Walk) (hafter : w.cursor.after ≠ []) :
    (w.visit d s = none ∧ w.seat.visit? d s = none) ∨
      ∃ w' p', w.visit d s = some w' ∧ w.seat.visit? d s = some p' ∧ p'.IsAt w' := by
  simp only [Seat.visit?, Option.bind_eq_bind, closeLineComment?_seat w hafter, Option.bind_some, Walk.visit]
  generalize w.closeLineComment s = v
  cases hv : v.cursor.after with
  | nil =>
    have hnone : v.seat.tokens[v.seat.index]? = none := by simp [Walk.seat, Cursor.tokens, hv]
    rw [hnone]
    exact .inl ⟨rfl, rfl⟩
  | cons t ts =>
    have hne : v.cursor.after ≠ [] := by simp [hv]
    have hfirst : (v.seat.index == 0) = v.cursor.before.isEmpty := by
      cases hbefore : v.cursor.before <;> simp [Walk.seat, hbefore]
    have haround : (⟨d.isFunction v.seat.previous, Walk.atJoinStart v.cursor, v.cursor.before.isEmpty,
        v.cursor.before.head?.any (·.kind == .comment)⟩ : Surroundings) = v.surroundings d := rfl
    simp only [getElem?_seat hv, Option.bind_some, atJoinStart?_seat v hne, afterComment?_seat, hfirst,
      haround, breakHere?_seat, breakBehind?_seat]
    refine .inr ⟨_, _, rfl, rfl, ?_⟩
    rw [Walk.react_eq]
    exact isAt_leave (v.follow s (moveOf s (v.surroundings d) t v.footing)) t.text

/-- Every position on a list is that of a walk. -/
theorem exists_isAt (p : Seat) : ∃ w : Walk, p.IsAt w := by
  refine ⟨⟨⟨(p.tokens.take p.index).reverse, p.tokens.drop p.index⟩, p.footing.brackets, p.footing.level,
    p.footing.inRange, p.previous⟩, by simp [Cursor.tokens], ?_, rfl, rfl⟩
  rcases Nat.le_total p.index p.tokens.length with hindex | hindex
  · exact .inl (by simp [hindex])
  · exact .inr ⟨by simpa using hindex, hindex⟩

/-- Whether a join clause opens can be told at every position of the list. -/
theorem atJoinStart?_eq_none_iff (p : Seat) : p.atJoinStart? = none ↔ p.tokens.length ≤ p.index := by
  rcases Nat.lt_or_ge p.index p.tokens.length with hindex | hindex
  · obtain ⟨w, hw⟩ := exists_isAt p
    have hafter := hw.index_lt_iff.mp hindex
    have hseat := hw.eq_seat hafter
    subst hseat
    simp [atJoinStart?_seat w hafter, Nat.not_le_of_lt hindex]
  · simp [Seat.atJoinStart?, hindex]

/-- A visit leaves fewer tokens to visit. -/
theorem Seat.remaining_lt_of_visit? {p p' : Seat} (hindex : p.index < p.tokens.length)
    (hvisit : p.visit? d s = some p') :
    p'.tokens.length - p'.index < p.tokens.length - p.index := by
  obtain ⟨w, hw⟩ := exists_isAt p
  have hafter := hw.index_lt_iff.mp hindex
  rw [hw.eq_seat hafter] at hvisit
  rcases visit?_seat (d := d) (s := s) w hafter with ⟨-, hnone⟩ | ⟨w', q, hw', hq, hat⟩
  · rw [hnone] at hvisit
    cases hvisit
  · obtain rfl : q = p' := Option.some.inj (hq.symm.trans hvisit)
    rw [hat.remaining, hw.remaining]
    exact Walk.remaining_lt_of_visit hw'

/-- Visits every token and returns the tokens with their breaks. -/
def Seat.run? (d : Dialect) (s : Style) (p : Seat) : Option (List Token) :=
  if p.tokens.length ≤ p.index then some p.tokens
  else
    match _visited : p.visit? d s with
    | none => none
    | some p' => p'.run? d s
termination_by p.tokens.length - p.index
decreasing_by exact remaining_lt_of_visit? (Nat.lt_of_not_le ‹_›) ‹_›

theorem Seat.run?_of_lt {p : Seat} (hindex : p.index < p.tokens.length) :
    p.run? d s = (p.visit? d s).bind fun p' => p'.run? d s := by
  rw [run?, if_neg (Nat.not_le_of_lt hindex)]
  split
  · next hnone => rw [hnone, Option.bind_none]
  · next hsome => rw [hsome, Option.bind_some]

/-- A run by positions is the run of the walk. -/
theorem run?_eq {p : Seat} {w : Walk} (h : p.IsAt w) : p.run? d s = w.run d s := by
  fun_induction Walk.run d s w generalizing p with
  | case1 w hdone =>
    have hend : ¬ p.index < p.tokens.length := fun hindex => h.index_lt_iff.mp hindex (by simpa using hdone)
    rw [Seat.run?, if_pos (Nat.le_of_not_lt hend), h.tokens]
  | case2 w hmore hvisit =>
    have hafter : w.cursor.after ≠ [] := by simpa using hmore
    rw [Seat.run?_of_lt (h.index_lt_iff.mpr hafter), h.eq_seat hafter]
    rcases visit?_seat (d := d) (s := s) w hafter with ⟨-, hnone⟩ | ⟨w', q, hw', -, -⟩
    · rw [hnone, Option.bind_none]
    · rw [hvisit] at hw'
      cases hw'
  | case3 w hmore w' hvisit ih =>
    have hafter : w.cursor.after ≠ [] := by simpa using hmore
    rw [Seat.run?_of_lt (h.index_lt_iff.mpr hafter), h.eq_seat hafter]
    rcases visit?_seat (d := d) (s := s) w hafter with ⟨hnone, -⟩ | ⟨v, q, hv, hq, hat⟩
    · rw [hvisit] at hnone
      cases hnone
    · obtain rfl : w' = v := Option.some.inj (hvisit.symm.trans hv)
      rw [hq, Option.bind_some]
      exact ih hat

end Seats

/-! ## The other passes -/

/-- Drops the white space at both ends. -/
def trimEdges? (ts : List Token) : Option (List Token) := do
  let ts ← if ts.head?.any Token.isSpace then drain? 0 1 ts else some ts
  some (dropTrailingSpace ts)

theorem trimEdges?_eq (ts : List Token) : trimEdges? ts = some (trimEdges ts) := by
  cases ts with
  | nil => rfl
  | cons t ts =>
    have hdrop : drain? 0 1 (t :: ts) = some ts := drain?_append [] [t] ts
    cases hspace : t.isSpace <;> simp [trimEdges?, trimEdges, dropLeadingSpace, hspace, hdrop]

/-- The token that three neighbours form together; none when there are not so many. -/
def glueAt? (i : Nat) (ts : List Token) : Option Token :=
  match slice? i (i + 3) ts with
  | some [a, b, c] => glue? a b c
  | _ => none

/-- Joins compounds from position `i` on. -/
def glueFrom? (i : Nat) (ts : List Token) : Option (List Token) :=
  if i < ts.length then
    match glueAt? i ts with
    | some t => do
      let out ← glueFrom? (i + 3) ts
      some (t :: out)
    | none => do
      let t ← ts[i]?
      let out ← glueFrom? (i + 1) ts
      some (t :: out)
  else some []
termination_by ts.length - i

theorem glueFrom?_length (ts : List Token) : glueFrom? ts.length ts = some [] := by
  rw [glueFrom?, if_neg (Nat.lt_irrefl _)]

/-- Where no neighbours are joined, the token stays. -/
theorem glueFrom?_of_none {front back : List Token} {a : Token}
    (h : glueAt? front.length (front ++ a :: back) = none) :
    glueFrom? front.length (front ++ a :: back) =
      (glueFrom? (front ++ [a]).length (front ++ [a] ++ back)).map (a :: ·) := by
  have hlength : front.length < (front ++ a :: back).length := by simp
  have hat : (front ++ a :: back)[front.length]? = some a := by simp
  have hrest : glueFrom? (front ++ [a]).length (front ++ [a] ++ back) =
      glueFrom? (front.length + 1) (front ++ a :: back) := by simp
  rw [hrest, glueFrom?, if_pos hlength, h, hat, Option.map_eq_bind]
  rfl

theorem glueAt?_append (front : List Token) (a b c : Token) (ts : List Token) :
    glueAt? front.length (front ++ a :: b :: c :: ts) = glue? a b c := by
  have hslice : slice? front.length (front.length + 3) (front ++ a :: b :: c :: ts) = some [a, b, c] :=
    slice?_append front [a, b, c] ts
  rw [glueAt?, hslice]

theorem glueAt?_of_lt {i : Nat} {ts : List Token} (h : ts.length < i + 3) : glueAt? i ts = none := by
  have hslice : slice? i (i + 3) ts = none := by
    rw [slice?, if_neg]
    omega
  rw [glueAt?, hslice]

theorem glueFrom?_eq (front back : List Token) :
    glueFrom? front.length (front ++ back) = some (glueCompounds back) := by
  fun_induction glueCompounds back generalizing front with
  | case1 a b c ts t hglue ih =>
    have hat : glueAt? front.length (front ++ a :: b :: c :: ts) = some t :=
      (glueAt?_append front a b c ts).trans hglue
    have hrest := ih (front ++ [a, b, c])
    have hlength : front.length < (front ++ a :: b :: c :: ts).length := by simp
    simp only [List.length_append, List.length_cons, List.length_nil, List.append_assoc, List.cons_append,
      List.nil_append, Nat.zero_add, Nat.reduceAdd] at hrest
    rw [glueFrom?, if_pos hlength, hat]
    simp [hrest]
  | case2 a b c ts hglue ih =>
    have hat : glueAt? front.length (front ++ a :: b :: c :: ts) = none :=
      (glueAt?_append front a b c ts).trans hglue
    rw [glueFrom?_of_none hat, ih, Option.map_some]
  | case3 ts hshort =>
    rcases ts with _ | ⟨a, _ | ⟨b, _ | ⟨c, ts⟩⟩⟩
    · rw [List.append_nil, glueFrom?_length]
    · rw [glueFrom?_of_none (glueAt?_of_lt (by simp)), List.append_nil, glueFrom?_length, Option.map_some]
    · have hsecond : glueAt? (front ++ [a]).length (front ++ [a] ++ b :: []) = none :=
        glueAt?_of_lt (by simp)
      rw [glueFrom?_of_none (glueAt?_of_lt (by simp)), glueFrom?_of_none hsecond, List.append_nil,
        glueFrom?_length, Option.map_some, Option.map_some]
    · exact absurd rfl (hshort a b c ts)

/-- Joins bracket pairs around one token: those whose bracket stands in front of position `n`, from the
last of them on. -/
def compactBelow? : Nat → List Token → Option (List Token)
  | 0, ts => some ts
  | n + 1, ts =>
    if ts.length ≤ n + 4 then compactBelow? n ts
    else do
      match ← slice? n (n + 5) ts with
      | [a, b, c, d, e] =>
        if isSingleValue a b d e then
          let ts ← replaceAt? n (a.withText ('(' :: c.text ++ [')'])) ts
          let ts ← drain? (n + 1) (n + 5) ts
          compactBelow? n ts
        else compactBelow? n ts
      | _ => none

theorem compactFront_of_length_le {ts : List Token} (h : ts.length ≤ 4) : compactFront ts = ts := by
  rcases ts with _ | ⟨a, _ | ⟨b, _ | ⟨c, _ | ⟨d, _ | ⟨e, ts⟩⟩⟩⟩⟩
  · rfl
  · rfl
  · rfl
  · rfl
  · rfl
  · simp only [List.length_cons] at h
    omega

theorem compactBelow?_eq (front back : List Token) :
    compactBelow? front.length (front ++ back) =
      some (front.foldr (fun t rest => compactFront (t :: rest)) back) := by
  induction front using List.reverseRecOn generalizing back with
  | nil => rfl
  | append_singleton front a ih =>
    rw [List.length_append, List.length_singleton, List.append_assoc, List.singleton_append,
      List.foldr_append, List.foldr_cons, List.foldr_nil, ← ih, compactBelow?]
    split
    · next hshort =>
      rw [compactFront_of_length_le]
      simp only [List.length_append, List.length_cons] at hshort ⊢
      omega
    · next hlong =>
      rcases back with _ | ⟨b, _ | ⟨c, _ | ⟨d, _ | ⟨e, rest⟩⟩⟩⟩
      · exact absurd (by simp) hlong
      · exact absurd (by simp) hlong
      · exact absurd (by simp) hlong
      · exact absurd (by simp) hlong
      · have hwindow : slice? front.length (front.length + 5) (front ++ a :: b :: c :: d :: e :: rest) =
            some [a, b, c, d, e] := slice?_append front [a, b, c, d, e] rest
        rw [hwindow]
        simp only [Option.bind_eq_bind, Option.bind_some, compactFront]
        split
        · generalize a.withText ('(' :: c.text ++ [')']) = t
          have hdrain : drain? (front.length + 1) (front.length + 5)
              (front ++ t :: b :: c :: d :: e :: rest) = some (front ++ t :: rest) := by
            simpa using drain?_append (front ++ [t]) [b, c, d, e] rest
          simp only [replaceAt?_append, Option.bind_some, hdrain]
        · rfl

theorem compact_of_length_le {ts : List Token} (h : ts.length ≤ 4) : compact ts = ts := by
  induction ts with
  | nil => rfl
  | cons t ts ih =>
    have hcompact : compact (t :: ts) = compactFront (t :: compact ts) := rfl
    rw [hcompact, ih (Nat.le_of_succ_le h), compactFront_of_length_le h]

/-- Only pairs that begin five tokens before the end or earlier can be joined. -/
theorem compactBelow?_eq_compact (ts : List Token) :
    compactBelow? (ts.length - 4) ts = some (compact ts) := by
  have hfront : (ts.take (ts.length - 4)).length = ts.length - 4 := by simp
  have hback : compact (ts.drop (ts.length - 4)) = ts.drop (ts.length - 4) :=
    compact_of_length_le (by rw [List.length_drop]; omega)
  have hbelow := compactBelow?_eq (ts.take (ts.length - 4)) (ts.drop (ts.length - 4))
  rw [hfront, List.take_append_drop, ← hback] at hbelow
  rw [hbelow, compact, ← List.foldr_append, List.take_append_drop]
  rfl

/-! ## The layout -/

/-- The text laid out by positions. -/
def formatByPosition (d : Dialect) (s : Style) (sql : Text) : Option Text := do
  let ts ← trimEdges? (tokenize d sql)
  let ts ← glueFrom? 0 (collapse (applyKeywordCase s ts))
  let ts ← (Seat.start ts).run? d s
  let ts ← compactBelow? (ts.length - 4) ts
  some (keepFinalNewline sql (Token.concat (insertGaps s ts)))

theorem formatByPosition_eq (d : Dialect) (s : Style) (sql : Text) :
    formatByPosition d s sql = format d s sql := by
  have hglue : glueFrom? 0 (collapse (applyKeywordCase s (trimEdges (tokenize d sql)))) =
      some (normalize s (tokenize d sql)) := glueFrom?_eq [] _
  have hrun : (Seat.start (normalize s (tokenize d sql))).run? d s =
      breakLines d s (normalize s (tokenize d sql)) :=
    run?_eq ⟨rfl, .inl rfl, rfl, rfl⟩
  simp only [formatByPosition, trimEdges?_eq, hglue, hrun, Option.bind_eq_bind, Option.bind_some, format,
    arrange]
  cases breakLines d s (normalize s (tokenize d sql)) with
  | none => rfl
  | some ts => simp [compactBelow?_eq_compact]

/-- The layout by positions is the layout, under every dialect and style.  An access fails exactly when
the scan over the tokens says that the walk runs past the end.  Breaks, looking for a join clause and
joining bracket pairs touch only positions that are there. -/
theorem formatByPosition_eq_none_iff (d : Dialect) (s : Style) (sql : Text) :
    formatByPosition d s sql = format d s sql ∧
      (formatByPosition d s sql = none ↔
        overruns d s .start (Token.visible (normalize s (tokenize d sql))) = true) ∧
      (∀ level i ts, (breakAt? s level i ts).isSome = true) ∧
      (∀ p : Seat, p.atJoinStart? = none ↔ p.tokens.length ≤ p.index) ∧
      ∀ ts : List Token, (compactBelow? (ts.length - 4) ts).isSome = true := by
  refine ⟨formatByPosition_eq d s sql, ?_, isSome_breakAt? s, atJoinStart?_eq_none_iff, fun ts => ?_⟩
  · rw [formatByPosition_eq]
    exact format_eq_none_iff d s sql
  · rw [compactBelow?_eq_compact]
    rfl

/-- Behind a comma a line comment loses its line feed; the comment behind it is closed off and is the
delimiter then. -/
theorem not_formatByPosition_hyphens :
    ∃ s, Style.make .upper .blank 4 "--x".toList = .ok s ∧
      formatByPosition .standard s "1, -- a\n--x\n".toList = none := by
  refine ⟨_, rfl, ?_⟩
  rw [formatByPosition_eq, format_eq_none_iff]
  decide +kernel

end SqlLayout.Layout
