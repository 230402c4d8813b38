import SqlLayout.Proofs.Layout.Piece
import SqlLayout.Proofs.Layout.Walked

/-!
# The course of the walk

A walk is observed by the tokens that it has passed: `behind?` is the walk when it first has a given
number of visible tokens behind it.  What a visit leads to is the same walk further on (`Leads`), with
the same end and the same states from there on.
-/

namespace SqlLayout.Layout

namespace Walk

/-- How many visible tokens are behind the cursor. -/
def passed (w : Walk) : Nat := (Token.visible w.cursor.before).length

/-- The walk when it first has `n` visible tokens behind it; none when it does not get so far. -/
def behind? (d : Dialect) (s : Style) (n : Nat) (w : Walk) : Option Walk :=
  if n ≤ w.passed then some w
  else
    match _visited : w.visit d s with
    | none => none
    | some w' => behind? d s n w'
termination_by w.remaining
decreasing_by exact remaining_lt_of_visit ‹_›

variable {d : Dialect} {s : Style} {n m : Nat} {w w' w'' : Walk}

theorem behind?_of_le (h : n ≤ w.passed) : w.behind? d s n = some w := by
  rw [behind?, if_pos h]

theorem behind?_of_visit (h : w.passed < n) (hvisit : w.visit d s = some w') :
    w.behind? d s n = w'.behind? d s n := by
  rw [behind?, if_neg (Nat.not_le.mpr h)]
  split
  · next hnone =>
    rw [hvisit] at hnone
    cases hnone
  · next hsome =>
    rw [hvisit] at hsome
    cases hsome
    rfl

/-- The walk `w` goes on as `w'`, and on the way it never has more than `n` visible tokens behind it. -/
structure Leads (d : Dialect) (s : Style) (n : Nat) (w w' : Walk) : Prop where
  run : w.run d s = w'.run d s
  behind : ∀ m, n < m → w.behind? d s m = w'.behind? d s m

namespace Leads

theorem refl (n : Nat) (w : Walk) : Leads d s n w w := ⟨rfl, fun _ _ => rfl⟩

theorem trans (h : Leads d s n w w') (h' : Leads d s m w' w'') (hle : n ≤ m) : Leads d s m w w'' :=
  ⟨h.run.trans h'.run, fun k hk => (h.behind k (Nat.lt_of_le_of_lt hle hk)).trans (h'.behind k hk)⟩

theorem of_visit (hvisit : w.visit d s = some w') (h : w.passed ≤ n) : Leads d s n w w' :=
  ⟨run_of_visit hvisit (after_ne_nil_of_visit hvisit),
    fun _ hm => behind?_of_visit (Nat.lt_of_le_of_lt h hm) hvisit⟩

end Leads

end Walk

end SqlLayout.Layout
