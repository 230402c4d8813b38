import SqlLayout.Proofs.Layout.TwinCursor

/-!
# Two walks side by side

Two walks over twins that are akin stand at the same place, on the same footing, after every visit
(`Abreast.visit`), so they end with twins or both have no result (`Abreast.run`).

The one thing a walk remembers of a token is its text, which a bracket that comes next looks up as a
function.  White space is looked up as well where it stands in front of a bracket, and there only a
break that went behind a delimiter does (`CallsAlike`).
-/

namespace SqlLayout.Layout

/-! ## White space in front of brackets -/

/-- Nowhere does a symbol follow white space. -/
def Tight (zs : List Twin) : Prop :=
  zs.IsChain fun z n => z.left.isSpace = true → n.left.kind ≠ .symbol

/-- White space that a symbol follows stands at the front only, and there it is a function in both
runs or in none. -/
def CallsAlike (d : Dialect) : List Twin → Prop
  | [] => True
  | z :: zs => Tight zs ∧ (z.left.isSpace = true → (∃ n ∈ zs.head?, n.left.kind = .symbol) →
      d.isFunction z.right.text = d.isFunction z.left.text)

/-- The white space behind a delimiter is a function in both styles or in none. -/
def EmptyLinesAlike (d : Dialect) (s s' : Style) : Prop :=
  ∀ level, d.isFunction (s'.lineBreak level ++ s'.lineBreak level) =
    d.isFunction (s.lineBreak level ++ s.lineBreak level)

theorem EmptyLinesAlike.twice {d : Dialect} {s s' : Style} (h : EmptyLinesAlike d s s') (level : Int)
    (t : Token) : d.isFunction ((Gap.twice (breakGap level t)).write s') =
      d.isFunction ((Gap.twice (breakGap level t)).write s) := by
  unfold breakGap
  split
  · rfl
  · exact h level

theorem Tight.replace {z z' : Twin} {zs : List Twin} (h : Tight (z :: zs))
    (hspace : z'.left.isSpace = z.left.isSpace) : Tight (z' :: zs) := by
  unfold Tight at *
  rw [List.isChain_cons] at h ⊢
  rw [hspace]
  exact h

theorem Tight.callsAlike {zs : List Twin} (h : Tight zs) (d : Dialect) : CallsAlike d zs := by
  cases zs with
  | nil => trivial
  | cons z zs =>
    refine ⟨h.tail, fun hspace hsymbol => ?_⟩
    obtain ⟨n, hn, hkind⟩ := hsymbol
    exact absurd hkind ((List.isChain_cons.mp h).1 n hn hspace)

namespace TwinCursor

variable {d : Dialect} {s s' : Style}

theorem callsAlike_afterDelimiter {g : Gap}
    (hg : d.isFunction ((Gap.twice g).write s') = d.isFunction ((Gap.twice g).write s)) (z : Twin)
    {zs : List Twin} (h : Tight zs) : CallsAlike d (afterDelimiter s s' g z zs) := by
  cases zs with
  | nil => trivial
  | cons n ns => exact ⟨h, fun _ _ => hg⟩

/-- A break in front of a twin leaves the cursor at it or behind it. -/
theorem callsAlike_breakHere (hlines : EmptyLinesAlike d s s') (level : Int) (c : TwinCursor)
    (h : CallsAlike d c.after) (hvisible : ∀ z ∈ c.after.head?, z.left.isSpace = false) :
    CallsAlike d (c.breakHere s s' level).after := by
  obtain ⟨before, after⟩ := c
  cases after with
  | nil => cases before <;> trivial
  | cons z zs =>
    have hz : z.left.isSpace = false := hvisible z (by simp)
    have hsettle : z.settle.left.isSpace = false := (isSpace_settle z.left).trans hz
    have hplain : ∀ n : Twin, n.left.isSpace = false → CallsAlike d (n :: zs) :=
      fun n hn => ⟨h.1, fun hspace => by simp [hn] at hspace⟩
    cases before with
    | nil =>
      simp only [breakHere, hz]
      split
      · cases ‹false = true›
      · split
        · exact callsAlike_afterDelimiter (hlines level) z h.1
        · exact h
    | cons p ps =>
      simp only [breakHere, hsettle]
      split
      · cases ‹false = true›
      · split
        · exact callsAlike_afterDelimiter (hlines.twice level z.left) z.settle h.1
        · split <;> exact hplain z.settle hsettle

/-- A break in front of a twin leaves no symbol at the cursor unless one was there. -/
theorem kind_head?_breakHere (level : Int) (c : TwinCursor)
    (h : ∀ z ∈ c.after.head?, z.left.kind ≠ .symbol) :
    ∀ z ∈ (c.breakHere s s' level).after.head?, z.left.kind ≠ .symbol := by
  obtain ⟨before, after⟩ := c
  cases after with
  | nil => cases before <;> simp [breakHere]
  | cons z zs =>
    have hz : z.left.kind ≠ .symbol := h z (by simp)
    have hsettle : z.settle.left.kind ≠ .symbol := (kind_settle z.left).trans_ne hz
    have hafter : ∀ (g : Gap) (z : Twin), ∀ n ∈ (afterDelimiter s s' g z zs).head?,
        n.left.kind ≠ .symbol := by
      intro g z n hn
      cases zs with
      | nil => simp [afterDelimiter] at hn
      | cons m ms =>
        obtain rfl : z.newGap s s' (.twice g) = n := by simpa [afterDelimiter] using hn
        simp [Twin.newGap, Token.space]
    have hplain : ∀ n : Twin, n.left.kind ≠ .symbol →
        ∀ m ∈ (n :: zs).head?, m.left.kind ≠ .symbol := by simp
    cases before with
    | nil =>
      simp only [breakHere]
      split
      · exact hplain _ hz
      · split
        · exact hafter _ z
        · exact h
    | cons p ps =>
      simp only [breakHere]
      split
      · exact hplain _ hsettle
      · split
        · exact hafter _ z.settle
        · split <;> exact hplain _ hsettle

theorem callsAlike_advance {c : TwinCursor} (h : CallsAlike d c.after) :
    CallsAlike d c.advance.after := by
  obtain ⟨before, after⟩ := c
  cases after with
  | nil => trivial
  | cons z zs => exact h.1.callsAlike d

theorem callsAlike_advance_breakNext (hlines : EmptyLinesAlike d s s') (level : Int) (c : TwinCursor)
    (h : CallsAlike d c.after) : CallsAlike d (c.breakNext s s' level).advance.after := by
  obtain ⟨before, after⟩ := c
  match after with
  | [] | [cur] => exact callsAlike_advance h
  | cur :: z :: zs =>
    have htight : Tight (z :: zs) := h.1
    have hsettle : Tight (z.settle :: zs) := htight.replace (isSpace_settle z.left)
    simp only [breakNext]
    split
    · have hgap : Tight (z.settle.withGap s s' (breakGap level z.left) :: zs) := hsettle.replace rfl
      exact hgap.callsAlike d
    · split
      · exact callsAlike_afterDelimiter (hlines.twice level z.left) z.settle htight.tail
      · split <;> exact hsettle.callsAlike d

theorem callsAlike_breakHere? (hlines : EmptyLinesAlike d s s') (here : Option Int) (c : TwinCursor)
    (h : CallsAlike d c.after)
    (hvisible : here.isSome = true → ∀ z ∈ c.after.head?, z.left.isSpace = false) :
    CallsAlike d (c.breakHere? s s' here).after := by
  cases here with
  | none => exact h
  | some level => exact callsAlike_breakHere hlines level c h (hvisible rfl)

theorem callsAlike_advance_follow (hlines : EmptyLinesAlike d s s') (m : Move) (c : TwinCursor)
    (h : CallsAlike d c.after)
    (hvisible : m.here.isSome = true → ∀ z ∈ c.after.head?, z.left.isSpace = false) :
    CallsAlike d (c.follow s s' m).advance.after := by
  have hhere := callsAlike_breakHere? hlines m.here c h hvisible
  rw [follow]
  cases m.next with
  | none => exact callsAlike_advance hhere
  | some level => exact callsAlike_advance_breakNext hlines level _ hhere

end TwinCursor

/-! ## Moves -/

section Moves

variable {s s' : Style} {z : Twin}

theorem isDelimiter_upper_eq (h : Akin s s' z) (hs : s'.delimiter = s.delimiter) :
    s'.isDelimiter (Text.upper z.right.text) = s.isDelimiter (Text.upper z.left.text) := by
  rw [isDelimiter_congr hs]
  refine h.read_of_blank (f := fun x => s.isDelimiter (Text.upper x)) (fun x => ?_) fun x hx => ?_
  · rw [Text.upper_asciiLower]
  · rw [upper_of_allBlank hx, isDelimiter_of_blank s hx]

theorem Move.onSymbol_congr (hs : s'.delimiter = s.delimiter) (call : Bool) (word : Text)
    (f : Footing) :
    Move.onSymbol s' call word f = Move.onSymbol s call word f := by
  have hseparator : Move.onSeparator s' word f = Move.onSeparator s word f := by
    rw [onSeparator, onSeparator, isDelimiter_congr hs]
  rw [onSymbol, onSymbol, hseparator]

theorem Move.onWord_akin (h : Akin s s' z) (hs : s'.delimiter = s.delimiter) (f : Footing) :
    Move.onWord s' (Text.upper z.right.text) f = Move.onWord s (Text.upper z.left.text) f := by
  rw [onWord, onWord, isDelimiter_upper_eq h hs]

/-- What two walks see around akin tokens on the same footing makes one move. -/
theorem moveOf_akin (h : Akin s s' z) (hs : s'.delimiter = s.delimiter) {around around' : Surroundings}
    (hcall : z.left.kind = .symbol → around'.call = around.call) (hjoins : around'.joins = around.joins)
    (hfirst : around'.first = around.first) (hcomment : around'.afterComment = around.afterComment)
    (f : Footing) : moveOf s' around' z.right f = moveOf s around z.left f := by
  have hvisible : ∀ kind, z.left.kind = kind → kind ≠ .space → z.left.isSpace = false := by
    rintro kind rfl hkind
    simpa [Token.isSpace] using hkind
  unfold moveOf
  rw [h.kind, hjoins, hfirst, hcomment]
  cases hkind : z.left.kind with
  | symbol =>
    dsimp only
    rw [hcall hkind, h.upper (hvisible _ hkind (by decide)), Move.onSymbol_congr hs]
  | keyword =>
    dsimp only
    rw [h.upper (hvisible _ hkind (by decide))]
  | comment =>
    have hword := hvisible _ hkind (by decide)
    dsimp only
    rw [Move.onComment, Move.onComment, h.read_word hword Dialect.isLineComment_asciiLower,
      h.read_word hword Dialect.isBlockComment_asciiLower]
  | command => rfl
  | name =>
    dsimp only
    rw [Move.onName, Move.onName, Move.onWord_akin h hs]
  | space | value | unknown => exact Move.onWord_akin h hs f

/-- White space does not move the walk. -/
theorem moveOf_isSpace (h : Akin s s' z) (hz : z.left.isSpace = true) (around : Surroundings)
    (f : Footing) : moveOf s around z.left f = .stay f := by
  obtain ⟨g, hleft, -⟩ := h.gap hz
  have hblank := g.allBlank_write s
  have hkind : z.left.kind = .space := by simpa [Token.isSpace] using hz
  rw [moveOf, hkind, hleft]
  dsimp only
  rw [Move.onWord, upper_of_allBlank hblank, isDelimiter_of_blank s hblank]
  rfl

end Moves

/-! ## What the walks see -/

section Surroundings

variable {s s' : Style}

theorem asciiLower_wordTexts {zs : List Twin} (h : ∀ z ∈ zs, Akin s s' z) :
    (Walk.wordTexts (zs.map Twin.right)).map Text.asciiLower =
      (Walk.wordTexts (zs.map Twin.left)).map Text.asciiLower := by
  unfold Walk.wordTexts
  induction zs with
  | nil => rfl
  | cons z zs ih =>
    obtain ⟨hz, hzs⟩ := List.forall_mem_cons.mp h
    have hrest := ih hzs
    cases hspace : z.left.isSpace with
    | true => simpa [List.filter_cons, hz.isSpace, hspace] using hrest
    | false => simpa [List.filter_cons, hz.isSpace, hspace, hz.word hspace] using hrest

theorem reachesJoin_asciiLower (texts : List Text) :
    Walk.reachesJoin (texts.map Text.asciiLower) = Walk.reachesJoin texts := by
  induction texts with
  | nil => rfl
  | cons text texts ih =>
    have hjoin : Walk.isJoinWord (Text.asciiLower text) = Walk.isJoinWord text := by
      simp [Walk.isJoinWord, Text.sameAsciiCase]
    simp only [List.map_cons, Walk.reachesJoin, hjoin, ih, Text.sameAsciiCase,
      Text.asciiLower_asciiLower]

theorem any_isJoinWord_asciiLower (texts : List Text) :
    (texts.map Text.asciiLower).head?.any Walk.isJoinWord = texts.head?.any Walk.isJoinWord := by
  cases texts with
  | nil => rfl
  | cons text texts => simp [Walk.isJoinWord, Text.sameAsciiCase]

theorem atJoinStart_eq {c : TwinCursor} (h : c.AllAkin s s') :
    Walk.atJoinStart c.right = Walk.atJoinStart c.left := by
  have hhead : (c.right.after.head?.any fun t => Walk.isJoinWord t.text) =
      c.left.after.head?.any fun t => Walk.isJoinWord t.text := by
    obtain ⟨before, after⟩ := c
    cases after with
    | nil => rfl
    | cons z zs => exact (h.2 z (by simp)).isJoinWord
  have hbefore : (Walk.wordTexts c.right.before).head?.any Walk.isJoinWord =
      (Walk.wordTexts c.left.before).head?.any Walk.isJoinWord := by
    rw [← any_isJoinWord_asciiLower, ← any_isJoinWord_asciiLower (Walk.wordTexts c.left.before)]
    exact congrArg (fun texts => texts.head?.any Walk.isJoinWord) (asciiLower_wordTexts h.1)
  have hafter : Walk.reachesJoin (Walk.wordTexts c.right.after) =
      Walk.reachesJoin (Walk.wordTexts c.left.after) := by
    rw [← reachesJoin_asciiLower, ← reachesJoin_asciiLower (Walk.wordTexts c.left.after)]
    exact congrArg Walk.reachesJoin (asciiLower_wordTexts h.2)
  rw [Walk.atJoinStart, Walk.atJoinStart, hhead, hbefore, hafter]

theorem followsOpenLineComment_twin (hs : s'.delimiter = s.delimiter) {c : TwinCursor}
    (h : c.AllAkin s s') :
    Walk.followsOpenLineComment s' c.right = Walk.followsOpenLineComment s c.left := by
  obtain ⟨before, after⟩ := c
  cases before with
  | nil => rfl
  | cons p ps =>
    cases after with
    | nil => rfl
    | cons z zs =>
      have hp : Akin s s' p := h.1 p (by simp)
      have hz : Akin s s' z := h.2 z (by simp)
      simp only [Walk.followsOpenLineComment, TwinCursor.right, TwinCursor.left, List.map_cons,
        hp.isLineComment, hp.endsWith, hz.isSpace, hz.isDelimiter hs]

end Surroundings

/-! ## The walks -/

/-- Two walks at the place `c` on the same footing. -/
structure Abreast (d : Dialect) (s s' : Style) (w w' : Walk) (c : TwinCursor) : Prop where
  sides : c.Sides s s' w.cursor w'.cursor
  footing : w'.footing = w.footing
  calls : CallsAlike d c.after
  previous : (∀ z ∈ c.after.head?, z.left.kind ≠ .symbol) ∨
    d.isFunction w'.previous = d.isFunction w.previous

namespace Abreast

variable {d : Dialect} {s s' : Style} {w w' : Walk} {c : TwinCursor}

theorem closeLineComment (h : Abreast d s s' w w' c) (hs : s'.delimiter = s.delimiter)
    (hlines : EmptyLinesAlike d s s') : ∃ c',
      Abreast d s s' (w.closeLineComment s) (w'.closeLineComment s') c' ∧
        TwinEdits s s' c.twins c'.twins := by
  have hopen : Walk.followsOpenLineComment s' w'.cursor = Walk.followsOpenLineComment s w.cursor := by
    rw [h.sides.left, h.sides.right]
    exact followsOpenLineComment_twin hs h.sides.akin
  have hlevel : w'.level = w.level := congrArg Footing.level h.footing
  unfold Walk.closeLineComment
  rw [hopen]
  split
  · next hfollows =>
    rw [Walk.breakHere_eq, Walk.breakHere_eq, h.footing, hlevel]
    refine ⟨c.follow s s' ⟨w.footing.breakAt w.level, none, w.footing⟩, ?_, c.edits_follow _⟩
    refine ⟨h.sides.follow hs _, rfl, ?_, ?_⟩
    · refine TwinCursor.callsAlike_breakHere? hlines _ c h.calls fun _ z hz => ?_
      rw [h.sides.left] at hfollows
      obtain ⟨before, after⟩ := c
      cases before with
      | nil => cases hfollows
      | cons p ps =>
        cases after with
        | nil => simp at hz
        | cons n ns =>
          obtain rfl : n = z := by simpa using hz
          simp only [Walk.followsOpenLineComment, TwinCursor.left, List.map_cons, Bool.and_eq_true,
            Bool.not_eq_true'] at hfollows
          exact hfollows.1.2
    · refine h.previous.imp_left fun hkind => ?_
      show ∀ z ∈ (c.breakHere? s s' (w.footing.breakAt w.level)).after.head?, z.left.kind ≠ .symbol
      cases w.footing.breakAt w.level with
      | none => exact hkind
      | some level => exact TwinCursor.kind_head?_breakHere level c hkind
  · exact ⟨c, h, .refl _⟩

theorem surroundings (h : Abreast d s s' w w' c) :
    (w'.surroundings d).joins = (w.surroundings d).joins ∧
      (w'.surroundings d).first = (w.surroundings d).first ∧
      (w'.surroundings d).afterComment = (w.surroundings d).afterComment := by
  simp only [Walk.surroundings, h.sides.left, h.sides.right]
  refine ⟨atJoinStart_eq h.sides.akin, ?_, ?_⟩
  · simp [TwinCursor.left, TwinCursor.right]
  · have hakin := h.sides.akin.1
    rw [TwinCursor.left, TwinCursor.right]
    cases hbefore : c.before with
    | nil => rfl
    | cons p ps => simp [(hakin p (by simp [hbefore])).kind]

/-- Both walks react alike to their current tokens and move on. -/
theorem react (h : Abreast d s s' w w' c) (hs : s'.delimiter = s.delimiter)
    (hlines : EmptyLinesAlike d s s') {z : Twin} {zs : List Twin} (hafter : c.after = z :: zs) : ∃ c',
      Abreast d s s' ((w.react d s z.left).leave z.left.text)
        ((w'.react d s' z.right).leave z.right.text) c' ∧
        TwinEdits s s' c.twins c'.twins := by
  have hz : Akin s s' z := h.sides.akin.2 z (by simp [hafter])
  obtain ⟨hjoins, hfirst, hcomment⟩ := h.surroundings
  have hcall : z.left.kind = .symbol → (w'.surroundings d).call = (w.surroundings d).call := by
    intro hkind
    rcases h.previous with hother | hsame
    · exact absurd hkind (hother z (by simp [hafter]))
    · exact hsame
  have hmove : moveOf s' (w'.surroundings d) z.right w'.footing =
      moveOf s (w.surroundings d) z.left w.footing := by
    rw [h.footing]
    exact moveOf_akin hz hs hcall hjoins hfirst hcomment w.footing
  rw [Walk.react_eq, Walk.react_eq, hmove]
  have hspace : z.left.isSpace = true → moveOf s (w.surroundings d) z.left w.footing = .stay w.footing :=
    fun hspace => moveOf_isSpace hz hspace _ _
  generalize moveOf s (w.surroundings d) z.left w.footing = m at hspace
  refine ⟨(c.follow s s' m).advance, ⟨(h.sides.follow hs m).advance, rfl, ?_, ?_⟩, ?_⟩
  · refine TwinCursor.callsAlike_advance_follow hlines m c h.calls fun hhere n hn => ?_
    obtain rfl : z = n := by simpa [hafter] using hn
    refine Bool.eq_false_iff.mpr fun hblank => ?_
    rw [hspace hblank] at hhere
    cases hhere
  · cases hblank : z.left.isSpace with
    | false => exact .inr (hz.isFunction hblank d)
    | true =>
      have hstay : (c.follow s s' m).advance.after = zs := by
        rw [hspace hblank]
        simp [TwinCursor.follow, TwinCursor.breakHere?, TwinCursor.breakBehind?, Move.stay,
          TwinCursor.advance, hafter]
      rw [hstay]
      have hcalls := h.calls
      rw [hafter] at hcalls
      by_cases hsymbol : ∃ n ∈ zs.head?, n.left.kind = .symbol
      · exact .inr (hcalls.2 hblank hsymbol)
      · exact .inl fun n hn hkind => hsymbol ⟨n, hn, hkind⟩
  · rw [TwinCursor.twins_advance]
    exact c.edits_follow m

/-- After a visit both walks are abreast again, or both have no result. -/
theorem visit (h : Abreast d s s' w w' c) (hs : s'.delimiter = s.delimiter)
    (hlines : EmptyLinesAlike d s s') : (w.visit d s = none ∧ w'.visit d s' = none) ∨
      ∃ v v' c', w.visit d s = some v ∧ w'.visit d s' = some v' ∧ Abreast d s s' v v' c' ∧
        TwinEdits s s' c.twins c'.twins := by
  obtain ⟨c₁, hclosed, hedits⟩ := h.closeLineComment hs hlines
  unfold Walk.visit
  dsimp only
  rw [hclosed.sides.left, hclosed.sides.right]
  cases hafter : c₁.after with
  | nil => exact .inl (by simp [TwinCursor.left, TwinCursor.right, hafter])
  | cons z zs =>
    obtain ⟨c₂, habreast, hedits'⟩ := hclosed.react hs hlines hafter
    refine .inr ⟨_, _, c₂, ?_, ?_, habreast, hedits.trans hedits'⟩
    · simp [TwinCursor.left, hafter]
    · simp [TwinCursor.right, hafter]

theorem after_ne_nil (h : Abreast d s s' w w' c) (hafter : w.cursor.after ≠ []) :
    w'.cursor.after ≠ [] := by
  rw [h.sides.left] at hafter
  rw [h.sides.right]
  simpa [TwinCursor.left, TwinCursor.right] using hafter

theorem run_of_visit_none {d : Dialect} {s : Style} {w : Walk} (hvisit : w.visit d s = none)
    (hafter : w.cursor.after ≠ []) : w.run d s = none := by
  rw [Walk.run]
  have hmore : w.cursor.after.isEmpty = false := by simpa using hafter
  simp only [hmore, Bool.false_eq_true, ↓reduceIte]
  split
  · rfl
  · next w'' hsome =>
    rw [hvisit] at hsome
    cases hsome

/-- Two walks that start abreast end with the two sides of one list, or both have no result. -/
theorem run (h : Abreast d s s' w w' c) (hs : s'.delimiter = s.delimiter)
    (hlines : EmptyLinesAlike d s s') : ∃ r : Option (List Twin),
      w.run d s = r.map (List.map Twin.left) ∧ w'.run d s' = r.map (List.map Twin.right) ∧
        ∀ zs ∈ r, TwinEdits s s' c.twins zs ∧ ∀ z ∈ zs, Akin s s' z := by
  fun_induction Walk.run d s w generalizing w' c with
  | case1 w hdone =>
    have hafter : c.after = [] := by simpa [h.sides.left, TwinCursor.left] using hdone
    refine ⟨some c.twins, ?_, ?_, ?_⟩
    · simp [h.sides.left, Cursor.tokens, TwinCursor.left, TwinCursor.twins]
    · unfold Walk.run
      simp [h.sides.right, Cursor.tokens, TwinCursor.right, TwinCursor.twins, hafter]
    · rintro zs hzs
      obtain rfl := Option.mem_some_iff.mp hzs
      refine ⟨.refl _, fun z hz => ?_⟩
      rw [TwinCursor.twins, List.mem_append, List.mem_reverse] at hz
      exact hz.elim (h.sides.akin.1 z) (h.sides.akin.2 z)
  | case2 w hmore hvisit =>
    have hmore' : w'.cursor.after ≠ [] := h.after_ne_nil (by simpa using hmore)
    rcases h.visit hs hlines with ⟨-, hnone⟩ | ⟨v, v', c', hv, -⟩
    · exact ⟨none, rfl, run_of_visit_none hnone hmore', by simp⟩
    · rw [hvisit] at hv
      cases hv
  | case3 w hmore v hvisit ih =>
    have hmore' : w'.cursor.after ≠ [] := h.after_ne_nil (by simpa using hmore)
    rcases h.visit hs hlines with ⟨hnone, -⟩ | ⟨u, u', c', hu, hu', habreast, hedits⟩
    · rw [hvisit] at hnone
      cases hnone
    · rw [hvisit] at hu
      cases hu
      obtain ⟨r, hleft, hright, hr⟩ := ih habreast
      refine ⟨r, hleft, (run_of_visit hu' hmore').trans hright, fun zs hzs => ?_⟩
      exact ⟨hedits.trans (hr zs hzs).1, (hr zs hzs).2⟩

end Abreast

end SqlLayout.Layout
