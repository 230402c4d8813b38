import SqlLayout.Proofs.Layout.Course

/-!
# What the walk comes to

From visit to visit the walk leaves the visible tokens in place (`Walk.Reaches.visible`).  Closing the line
of a comment in front of a token leaves as many of them behind (`passed_closeLineComment`), and so does a
visit to white space (`passed_leave_space`).
-/

namespace SqlLayout.Layout

/-- What a walk comes to, from visit to visit. -/
def Walk.Reaches (d : Dialect) (s : Style) : Walk → Walk → Prop :=
  Relation.ReflTransGen fun w w' => w.visit d s = some w'

/-- The walk over `ts` comes to `t` with `n` visible tokens behind it and is then `w`, the line of a comment
in front being closed. -/
structure Walk.ComesTo (d : Dialect) (s : Style) (ts : List Token) (n : Nat) (t : Token) (w : Walk) :
    Prop where
  reached : ∃ v, (Walk.start ts).Reaches d s v ∧ v.closeLineComment s = w
  current : ∃ after, w.cursor.after = t :: after
  visible : t.isSpace = false
  passed : w.passed = n

section Reached

variable {d : Dialect} {s : Style} {w w' v : Walk} {t : Token} {n : Nat}

/-- The visits leave the tokens that are not white space in place. -/
theorem Walk.Reaches.visible (h : w.Reaches d s w') :
    List.Forall₂ Settles (Token.visible w.cursor.tokens) (Token.visible w'.cursor.tokens) := by
  induction h with
  | refl => exact forall₂_settles_refl _
  | tail _ hvisit ih => exact forall₂_settles_trans ih (Walk.edits_visit hvisit).visible

theorem Walk.Reaches.visible_closed (h : w.Reaches d s w') :
    List.Forall₂ Settles (Token.visible w.cursor.tokens)
      (Token.visible (w'.closeLineComment s).cursor.tokens) := by
  have hedits : Edits s w'.cursor.tokens (w'.closeLineComment s).cursor.tokens := Walk.edits_closeLineComment
  exact forall₂_settles_trans h.visible hedits.visible

/-- A walk that comes to have more than `n` tokens behind it gets there by a visit. -/
theorem Walk.exists_reaches_of_behind? (h : w.passed ≤ n) (hbehind : w.behind? d s (n + 1) = some v) :
    ∃ w', w.Reaches d s w' ∧ w'.passed ≤ n ∧ w'.visit d s = some v := by
  fun_induction Walk.behind? d s (n + 1) w with
  | case1 w hpassed => omega
  | case2 => cases hbehind
  | case3 w hpassed w' hvisit ih =>
    by_cases hle : w'.passed ≤ n
    · obtain ⟨w'', hreaches, hlast⟩ := ih hle hbehind
      exact ⟨w'', hreaches.head hvisit, hlast⟩
    · rw [behind?_of_le (by omega)] at hbehind
      exact ⟨w, .refl, h, by rw [hvisit, hbehind]⟩

/-- A break in front of a token leaves it the current one, with as many visible tokens behind. -/
theorem exists_breakHere (hmark : IsMark s) (line : Text) (before after : List Token)
    (hspace : t.isSpace = false) (hother : s.isDelimiter t.text = false) :
    ∃ before' t', (⟨before, t :: after⟩ : Cursor).breakHere s line = ⟨before', t' :: after⟩ ∧
      Settles t t' ∧ (Token.visible before').length = (Token.visible before).length := by
  cases before with
  | nil => exact ⟨[], t, by simp [Cursor.breakHere, hspace, hother], .inl rfl, rfl⟩
  | cons p ps =>
    have hother' := (isDelimiter_settle hmark t).trans hother
    cases hp : p.isSpace with
    | true =>
      have hp' : (p.withText (breakText line t)).isSpace = true := hp
      refine ⟨p.withText (breakText line t) :: ps, settle t,
        by simp [Cursor.breakHere, isSpace_settle, hspace, hother', hp], .inr rfl, ?_⟩
      rw [visible_cons_space hp, visible_cons_space hp']
    | false =>
      refine ⟨Token.space (breakText line t) (settle t).offset :: p :: ps, settle t,
        by simp [Cursor.breakHere, isSpace_settle, hspace, hother', hp], .inr rfl, ?_⟩
      rw [visible_cons_space (t := Token.space _ _) rfl]

theorem passed_closeLineComment (hmark : IsMark s) (w : Walk) :
    (w.closeLineComment s).passed = w.passed := by
  unfold Walk.closeLineComment
  split
  · next hfollows =>
    unfold Walk.followsOpenLineComment at hfollows
    split at hfollows
    · next p before t after hbefore hafter =>
      simp only [Bool.and_eq_true, Bool.not_eq_true'] at hfollows
      unfold Walk.breakHere
      split
      · rfl
      · obtain ⟨before', t', hbreak, -, hlength⟩ := exists_breakHere hmark (s.lineBreak w.level)
          w.cursor.before after hfollows.1.2 hfollows.2
        rw [← hafter] at hbreak
        rw [Walk.passed, Walk.passed, ← hlength, hbreak]
    · cases hfollows
  · rfl

/-- A visit to white space that does not read as the delimiter passes no visible token. -/
theorem passed_leave_space (hmark : IsMark s) {after : List Token} (hafter : w.cursor.after = t :: after)
    (hspace : t.isSpace = true) (hother : s.isDelimiter t.text = false) :
    ((w.react d s t).leave t.text).passed = w.passed := by
  have hkind : t.kind = .space := by simpa [Token.isSpace] using hspace
  have hreact : w.react d s t = w := by
    simp [Walk.react, hkind, Walk.onWord, isDelimiter_upper hmark, hother]
  rw [hreact]
  simp [Walk.leave, Walk.passed, Cursor.advance, hafter, visible_cons_space hspace]

end Reached

end SqlLayout.Layout
