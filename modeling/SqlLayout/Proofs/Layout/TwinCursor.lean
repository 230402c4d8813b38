import SqlLayout.Proofs.Layout.Twin
import SqlLayout.Proofs.Layout.Walked

/-!
# A cursor in two token lists

A twin cursor stands at one place of two token lists.  A break at it breaks both lists at that place
(`Sides.follow`), with one gap written in either style, and is a change of the twins
(`edits_follow`).
-/

namespace SqlLayout.Layout

/-! ## Cursors -/

/-- A place in two token lists. -/
structure TwinCursor where
  /-- The twins passed, nearest first. -/
  before : List Twin
  /-- The current twin and those behind it. -/
  after : List Twin

namespace TwinCursor

/-- The place in the first list. -/
def left (c : TwinCursor) : Cursor := ⟨c.before.map Twin.left, c.after.map Twin.left⟩

/-- The place in the second list. -/
def right (c : TwinCursor) : Cursor := ⟨c.before.map Twin.right, c.after.map Twin.right⟩

/-- All twins, in order. -/
def twins (c : TwinCursor) : List Twin := c.before.reverse ++ c.after

/-- All twins are akin. -/
def AllAkin (s s' : Style) (c : TwinCursor) : Prop :=
  (∀ z ∈ c.before, Akin s s' z) ∧ ∀ z ∈ c.after, Akin s s' z

/-- Moves past the current twin. -/
def advance (c : TwinCursor) : TwinCursor :=
  match c.after with
  | [] => c
  | z :: zs => ⟨z :: c.before, zs⟩

/-- The twins behind a delimiter that a break was asked for. -/
def afterDelimiter (s s' : Style) (g : Gap) (z : Twin) (zs : List Twin) : List Twin :=
  if zs.isEmpty then [] else z.newGap s s' (.twice g) :: zs

/-- Puts a break in front of the current twin, as the first list has it. -/
def breakHere (s s' : Style) (level : Int) (c : TwinCursor) : TwinCursor :=
  match c.before, c.after with
  | _, [] => c
  | [], z :: zs =>
    if z.left.isSpace then ⟨[], z.withGap s s' (.line level) :: zs⟩
    else if s.isDelimiter z.left.text then ⟨[z], afterDelimiter s s' (.line level) z zs⟩
    else c
  | p :: ps, z :: zs =>
    let g := breakGap level z.left
    let z := z.settle
    if z.left.isSpace then ⟨p :: ps, z.withGap s s' g :: zs⟩
    else if s.isDelimiter z.left.text then ⟨z :: p :: ps, afterDelimiter s s' g z zs⟩
    else if p.left.isSpace then ⟨p.withGap s s' g :: ps, z :: zs⟩
    else ⟨z.newGap s s' g :: p :: ps, z :: zs⟩

/-- Puts a break in front of the next twin, as the first list has it. -/
def breakNext (s s' : Style) (level : Int) (c : TwinCursor) : TwinCursor :=
  match c.after with
  | cur :: z :: zs =>
    let g := breakGap level z.left
    let z := z.settle
    if z.left.isSpace then ⟨c.before, cur :: z.withGap s s' g :: zs⟩
    else if s.isDelimiter z.left.text then ⟨cur :: c.before, z :: afterDelimiter s s' g z zs⟩
    else if cur.left.isSpace then ⟨c.before, cur.withGap s s' g :: z :: zs⟩
    else ⟨cur :: c.before, z.newGap s s' g :: z :: zs⟩
  | _ => c

variable {s s' : Style}

theorem map_afterDelimiter (g : Gap) (z : Twin) (zs : List Twin) :
    (afterDelimiter s s' g z zs).map Twin.left =
        Layout.afterDelimiter (g.write s) z.left.offset (zs.map Twin.left) ∧
      (afterDelimiter s s' g z zs).map Twin.right =
        Layout.afterDelimiter (g.write s') z.right.offset (zs.map Twin.right) := by
  cases zs <;> exact ⟨rfl, rfl⟩

theorem left_breakHere (level : Int) (c : TwinCursor) :
    (c.breakHere s s' level).left = c.left.breakHere s (s.lineBreak level) := by
  obtain ⟨before, after⟩ := c
  cases after with
  | nil => cases before <;> rfl
  | cons z zs =>
    cases before with
    | nil =>
      simp only [breakHere, left, Cursor.breakHere, List.map_cons, List.map_nil]
      split
      · rfl
      · split
        · simp [map_afterDelimiter, Gap.write]
        · rfl
    | cons p ps =>
      simp only [breakHere, left, Cursor.breakHere, List.map_cons, breakText_lineBreak]
      rw [show Layout.settle z.left = z.settle.left from rfl]
      split
      · rfl
      · split
        · simp [map_afterDelimiter]
        · split <;> rfl

theorem left_breakNext (level : Int) (c : TwinCursor) :
    (c.breakNext s s' level).left = c.left.breakNext s (s.lineBreak level) := by
  obtain ⟨before, after⟩ := c
  match after with
  | [] | [cur] => rfl
  | cur :: z :: zs =>
    simp only [breakNext, left, Cursor.breakNext, List.map_cons, breakText_lineBreak]
    rw [show Layout.settle z.left = z.settle.left from rfl]
    split
    · rfl
    · split
      · simp [map_afterDelimiter]
      · split <;> rfl

theorem breakGap_eq {z : Twin} (h : Akin s s' z) (level : Int) :
    breakGap level z.right = breakGap level z.left := by
  rw [breakGap, breakGap, h.isLineComment]

/-- The second list breaks where the first does. -/
theorem right_breakHere (hs : s'.delimiter = s.delimiter) (level : Int) (c : TwinCursor)
    (hakin : c.AllAkin s s') :
    (c.breakHere s s' level).right = c.right.breakHere s' (s'.lineBreak level) := by
  obtain ⟨before, after⟩ := c
  cases after with
  | nil => cases before <;> rfl
  | cons z zs =>
    have hz : Akin s s' z := hakin.2 z (by simp)
    cases before with
    | nil =>
      simp only [breakHere, right, Cursor.breakHere, List.map_cons, List.map_nil, hz.isSpace,
        hz.isDelimiter hs]
      split
      · rfl
      · split
        · simp [map_afterDelimiter, Gap.write]
        · rfl
    | cons p ps =>
      have hp : Akin s s' p := hakin.1 p (by simp)
      simp only [breakHere, right, Cursor.breakHere, List.map_cons, breakText_lineBreak]
      rw [breakGap_eq hz, show Layout.settle z.right = z.settle.right from rfl, hz.settle.isSpace,
        hz.settle.isDelimiter hs, hp.isSpace]
      split
      · rfl
      · split
        · simp [map_afterDelimiter]
        · split <;> rfl

theorem right_breakNext (hs : s'.delimiter = s.delimiter) (level : Int) (c : TwinCursor)
    (hakin : c.AllAkin s s') :
    (c.breakNext s s' level).right = c.right.breakNext s' (s'.lineBreak level) := by
  obtain ⟨before, after⟩ := c
  match after with
  | [] | [cur] => rfl
  | cur :: z :: zs =>
    have hz : Akin s s' z := hakin.2 z (by simp)
    have hcur : Akin s s' cur := hakin.2 cur (by simp)
    simp only [breakNext, right, Cursor.breakNext, List.map_cons, breakText_lineBreak]
    rw [breakGap_eq hz, show Layout.settle z.right = z.settle.right from rfl, hz.settle.isSpace,
      hz.settle.isDelimiter hs, hcur.isSpace]
    split
    · rfl
    · split
      · simp [map_afterDelimiter]
      · split <;> rfl

/-! ## What breaks do to twins -/

theorem edits_afterDelimiter (g : Gap) (z : Twin) (zs : List Twin) :
    TwinEdits s s' zs (afterDelimiter s s' g z zs) := by
  cases zs with
  | nil => exact .refl _
  | cons n ns => exact .single (.insert [] (n :: ns) z (.twice g))

theorem edits_breakHere (level : Int) (c : TwinCursor) :
    TwinEdits s s' c.twins (c.breakHere s s' level).twins := by
  obtain ⟨before, after⟩ := c
  cases after with
  | nil => cases before <;> exact .refl _
  | cons z zs =>
    cases before with
    | nil =>
      simp only [breakHere, twins]
      split
      · next hspace => exact .single (.retext [] zs z _ hspace)
      · split
        · exact (edits_afterDelimiter _ z zs).cons z
        · exact .refl _
    | cons p ps =>
      have hsettle : TwinEdits s s' ((p :: ps).reverse ++ z :: zs)
          ((p :: ps).reverse ++ z.settle :: zs) := .single (.settle _ _ _)
      refine hsettle.trans ?_
      simp only [breakHere, twins]
      split
      · next hspace => exact .single (.retext _ zs _ _ hspace)
      · split
        · have hbehind : TwinEdits s s' zs (afterDelimiter s s' (breakGap level z.left) z.settle zs) :=
            edits_afterDelimiter _ _ _
          simpa using (hbehind.cons z.settle).append_left (p :: ps).reverse
        · split
          · next hspace =>
            simpa using TwinEdits.single (.retext ps.reverse (z.settle :: zs) p _ hspace)
          · simpa using TwinEdits.single (.insert (p :: ps).reverse (z.settle :: zs) z.settle _)

theorem edits_breakNext (level : Int) (c : TwinCursor) :
    TwinEdits s s' c.twins (c.breakNext s s' level).twins := by
  obtain ⟨before, after⟩ := c
  match after with
  | [] | [cur] => exact .refl _
  | cur :: z :: zs =>
    have hsettle : TwinEdits s s' (before.reverse ++ cur :: z :: zs)
        (before.reverse ++ cur :: z.settle :: zs) := by
      simpa using TwinEdits.single (TwinEdit.settle (before.reverse ++ [cur]) zs z)
    refine hsettle.trans ?_
    simp only [breakNext, twins]
    split
    · next hspace =>
      simpa using TwinEdits.single (TwinEdit.retext (before.reverse ++ [cur]) zs _ _ hspace)
    · split
      · have hbehind : TwinEdits s s' zs (afterDelimiter s s' (breakGap level z.left) z.settle zs) :=
          edits_afterDelimiter _ _ _
        simpa using ((hbehind.cons z.settle).cons cur).append_left before.reverse
      · split
        · next hspace => exact .single (.retext _ (z.settle :: zs) cur _ hspace)
        · simpa using
            TwinEdits.single (TwinEdit.insert (before.reverse ++ [cur]) (z.settle :: zs) z.settle _)

theorem akin_afterDelimiter {z : Twin} {zs : List Twin} (g : Gap) (h : ∀ n ∈ zs, Akin s s' n) :
    ∀ n ∈ afterDelimiter s s' g z zs, Akin s s' n := by
  cases zs with
  | nil => simp [afterDelimiter]
  | cons n ns => exact List.forall_mem_cons.mpr ⟨.newGap s s' _ z, h⟩

theorem AllAkin.breakHere {c : TwinCursor} (h : c.AllAkin s s') (level : Int) :
    (c.breakHere s s' level).AllAkin s s' := by
  obtain ⟨before, after⟩ := c
  cases after with
  | nil => cases before <;> exact h
  | cons z zs =>
    obtain ⟨hz, hzs⟩ := List.forall_mem_cons.mp h.2
    cases before with
    | nil =>
      simp only [TwinCursor.breakHere]
      split
      · next hspace => exact ⟨h.1, List.forall_mem_cons.mpr ⟨hz.withGap hspace _, hzs⟩⟩
      · split
        · exact ⟨List.forall_mem_singleton.mpr hz, akin_afterDelimiter _ hzs⟩
        · exact h
    | cons p ps =>
      obtain ⟨hp, hps⟩ := List.forall_mem_cons.mp h.1
      have hafter : ∀ n ∈ z.settle :: zs, Akin s s' n := List.forall_mem_cons.mpr ⟨hz.settle, hzs⟩
      simp only [TwinCursor.breakHere]
      split
      · next hspace => exact ⟨h.1, List.forall_mem_cons.mpr ⟨hz.settle.withGap hspace _, hzs⟩⟩
      · split
        · exact ⟨List.forall_mem_cons.mpr ⟨hz.settle, h.1⟩, akin_afterDelimiter _ hzs⟩
        · split
          · next hspace => exact ⟨List.forall_mem_cons.mpr ⟨hp.withGap hspace _, hps⟩, hafter⟩
          · exact ⟨List.forall_mem_cons.mpr ⟨.newGap s s' _ _, h.1⟩, hafter⟩

theorem AllAkin.breakNext {c : TwinCursor} (h : c.AllAkin s s') (level : Int) :
    (c.breakNext s s' level).AllAkin s s' := by
  obtain ⟨before, after⟩ := c
  match after with
  | [] | [cur] => exact h
  | cur :: z :: zs =>
    obtain ⟨hcur, hafter⟩ := List.forall_mem_cons.mp h.2
    obtain ⟨hz, hzs⟩ := List.forall_mem_cons.mp hafter
    have hbefore : ∀ n ∈ cur :: before, Akin s s' n := List.forall_mem_cons.mpr ⟨hcur, h.1⟩
    have hsettled : ∀ n ∈ z.settle :: zs, Akin s s' n := List.forall_mem_cons.mpr ⟨hz.settle, hzs⟩
    simp only [TwinCursor.breakNext]
    split
    · next hspace =>
      have hgap : ∀ n ∈ z.settle.withGap s s' (breakGap level z.left) :: zs, Akin s s' n :=
        List.forall_mem_cons.mpr ⟨hz.settle.withGap hspace _, hzs⟩
      exact ⟨h.1, List.forall_mem_cons.mpr ⟨hcur, hgap⟩⟩
    · split
      · exact ⟨hbefore, List.forall_mem_cons.mpr ⟨hz.settle, akin_afterDelimiter _ hzs⟩⟩
      · split
        · next hspace => exact ⟨h.1, List.forall_mem_cons.mpr ⟨hcur.withGap hspace _, hsettled⟩⟩
        · exact ⟨hbefore, List.forall_mem_cons.mpr ⟨.newGap s s' _ _, hsettled⟩⟩

/-! ## Both breaks of a move -/

/-- A break in front of the current twin, or none. -/
def breakHere? (s s' : Style) (here : Option Int) (c : TwinCursor) : TwinCursor :=
  match here with
  | none => c
  | some level => c.breakHere s s' level

/-- A break behind the current twin, or none. -/
def breakBehind? (s s' : Style) (next : Option Int) (c : TwinCursor) : TwinCursor :=
  match next with
  | none => c
  | some level => c.breakNext s s' level

/-- The cursor behind both breaks of a move. -/
def follow (s s' : Style) (m : Move) (c : TwinCursor) : TwinCursor :=
  (c.breakHere? s s' m.here).breakBehind? s s' m.next

/-- Two cursors are the sides of a twin cursor. -/
structure Sides (s s' : Style) (c : TwinCursor) (left right : Cursor) : Prop where
  left : left = c.left
  right : right = c.right
  akin : c.AllAkin s s'

theorem Sides.follow {c : TwinCursor} {left right : Cursor} (h : c.Sides s s' left right)
    (hs : s'.delimiter = s.delimiter) (m : Move) :
    (c.follow s s' m).Sides s s' ((left.breakHere? s m.here).breakBehind? s m.next)
      ((right.breakHere? s' m.here).breakBehind? s' m.next) := by
  obtain ⟨rfl, rfl, hakin⟩ := h
  have hhere : (c.breakHere? s s' m.here).Sides s s' (c.left.breakHere? s m.here)
      (c.right.breakHere? s' m.here) := by
    cases m.here with
    | none => exact ⟨rfl, rfl, hakin⟩
    | some level => exact ⟨(left_breakHere level c).symm, (right_breakHere hs level c hakin).symm,
        hakin.breakHere level⟩
  obtain ⟨hleft, hright, hakin⟩ := hhere
  rw [hleft, hright, TwinCursor.follow]
  cases m.next with
  | none => exact ⟨rfl, rfl, hakin⟩
  | some level => exact ⟨(left_breakNext level _).symm, (right_breakNext hs level _ hakin).symm,
      hakin.breakNext level⟩

theorem Sides.advance {c : TwinCursor} {left right : Cursor} (h : c.Sides s s' left right) :
    c.advance.Sides s s' left.advance right.advance := by
  obtain ⟨rfl, rfl, hakin⟩ := h
  obtain ⟨before, after⟩ := c
  cases after with
  | nil => exact ⟨rfl, rfl, hakin⟩
  | cons z zs =>
    obtain ⟨hz, hzs⟩ := List.forall_mem_cons.mp hakin.2
    exact ⟨rfl, rfl, List.forall_mem_cons.mpr ⟨hz, hakin.1⟩, hzs⟩

theorem twins_advance (c : TwinCursor) : c.advance.twins = c.twins := by
  obtain ⟨before, after⟩ := c
  cases after <;> simp [advance, twins]

theorem edits_follow (m : Move) (c : TwinCursor) :
    TwinEdits s s' c.twins (c.follow s s' m).twins := by
  have hhere : TwinEdits s s' c.twins (c.breakHere? s s' m.here).twins := by
    cases m.here with
    | none => exact .refl _
    | some level => exact edits_breakHere level c
  refine hhere.trans ?_
  rw [follow]
  cases m.next with
  | none => exact .refl _
  | some level => exact edits_breakNext level _

end TwinCursor

end SqlLayout.Layout
