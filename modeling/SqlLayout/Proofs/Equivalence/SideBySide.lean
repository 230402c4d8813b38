import SqlLayout.Error
import SqlLayout.Proofs.Equivalence
import SqlLayout.Proofs.Text.Blank
import SqlLayout.Proofs.Text.Quoted

/-!
# The check side by side

The check can read the two texts one significant character at a time, dropping white space and lower-casing
as it goes (`Reader.compare_eq`).  What it finds is the first place at which the significant characters
differ (`check_eq_some_iff`), and its message tells that place (`message_injective`).
-/

namespace SqlLayout

/-- `p` is the longest text with which both texts begin. -/
structure Text.IsCommonStart (p a b : Text) : Prop where
  left : p <+: a
  right : p <+: b
  longest : ∀ q, q <+: a → q <+: b → q.length ≤ p.length

/-- The mismatch tells the length of the common start of two texts and what stands behind it in each; nothing
where a text has ended. -/
structure Mismatch.Locates (m : Mismatch) (a b : Text) : Prop where
  position : ∃ p, Text.IsCommonStart p a b ∧ p.length = m.position
  before : m.before = a[m.position]?
  after : m.after = b[m.position]?
  differ : m.before ≠ m.after

namespace Equivalence

/-! ## Reading one character at a time -/

/-- A text that is read one significant character at a time. -/
structure Reader where
  /-- What is not given out yet of the lower case of the character taken last. -/
  ready : Text
  /-- The characters not taken yet. -/
  rest : Text

namespace Reader

/-- A reader in front of a text. -/
def ofText (s : Text) : Reader := ⟨[], s⟩

/-- Takes characters up to the first that gives a significant one. -/
def pull : Text → Option (Char × Reader)
  | [] => none
  | c :: cs =>
    if Text.isBlank c then pull cs
    else
      match Text.lowerChar c with
      | [] => pull cs
      | x :: xs => some (x, ⟨xs, cs⟩)

/-- The next significant character and the reader behind it. -/
def next? (r : Reader) : Option (Char × Reader) :=
  match r.ready with
  | [] => pull r.rest
  | x :: xs => some (x, ⟨xs, r.rest⟩)

/-- The significant characters still to come. -/
def toText (r : Reader) : Text := r.ready ++ significant r.rest

theorem significant_cons (c : Char) (cs : Text) :
    significant (c :: cs) = (if Text.isBlank c then [] else Text.lowerChar c) ++ significant cs := by
  by_cases hc : Text.isBlank c = true <;> simp [significant, hc]

/-- The character taken is the first one to come. -/
theorem significant_of_pull (s : Text) :
    significant s = ((pull s).map fun p => p.1 :: p.2.toText).getD [] := by
  fun_induction pull s with
  | case1 => rfl
  | case2 c cs hblank ih => rw [significant_cons, if_pos hblank, List.nil_append, ih]
  | case3 c cs hblank hlower ih => rw [significant_cons, if_neg hblank, hlower, List.nil_append, ih]
  | case4 c cs hblank x xs hlower =>
    rw [significant_cons, if_neg hblank, hlower]
    rfl

theorem toText_eq (r : Reader) : r.toText = (r.next?.map fun p => p.1 :: p.2.toText).getD [] := by
  obtain ⟨ready, rest⟩ := r
  cases ready with
  | nil => exact significant_of_pull rest
  | cons x xs => rfl

theorem toText_of_next?_eq_none {r : Reader} (h : r.next? = none) : r.toText = [] := by
  rw [toText_eq, h]
  rfl

theorem toText_of_next?_eq_some {r r' : Reader} {c : Char} (h : r.next? = some (c, r')) :
    r.toText = c :: r'.toText := by
  rw [toText_eq, h]
  rfl

/-- Reads two texts side by side as long as they agree; `n` characters agree so far. -/
def compare (n : Nat) (a b : Reader) : Option Mismatch :=
  match h : a.next?, b.next? with
  | none, none => none
  | some (x, a'), some (y, b') =>
    if x = y then compare (n + 1) a' b' else some ⟨n, some x, some y⟩
  | some (x, _), none => some ⟨n, some x, none⟩
  | none, some (y, _) => some ⟨n, none, some y⟩
termination_by a.toText.length
decreasing_by
  rw [toText_of_next?_eq_some h]
  exact Nat.lt_succ_self _

theorem compare_eq (n : Nat) (a b : Reader) : compare n a b = firstMismatch n a.toText b.toText := by
  fun_induction compare n a b with
  | case1 n a b ha hb =>
    rw [toText_of_next?_eq_none ha, toText_of_next?_eq_none hb, firstMismatch]
  | case2 n a b a' y b' ha hb ih =>
    rw [toText_of_next?_eq_some ha, toText_of_next?_eq_some hb, firstMismatch, if_pos rfl, ih]
  | case3 n a b x a' y b' ha hb hdiffer =>
    rw [toText_of_next?_eq_some ha, toText_of_next?_eq_some hb, firstMismatch, if_neg hdiffer]
  | case4 n a b x a' ha hb =>
    rw [toText_of_next?_eq_some ha, toText_of_next?_eq_none hb, firstMismatch]
  | case5 n a b y b' ha hb =>
    rw [toText_of_next?_eq_none ha, toText_of_next?_eq_some hb, firstMismatch]

end Reader

/-! ## The first difference -/

variable {a b : Text} {m : Mismatch}

theorem exists_of_firstMismatch {n : Nat} (h : firstMismatch n a b = some m) :
    ∃ p as bs, a = p ++ as ∧ b = p ++ bs ∧ as.head? ≠ bs.head? ∧
      m = ⟨n + p.length, as.head?, bs.head?⟩ := by
  fun_induction firstMismatch n a b with
  | case1 => cases h
  | case2 n x as => exact ⟨[], x :: as, [], rfl, rfl, by simp, (Option.some.inj h).symm⟩
  | case3 n y bs => exact ⟨[], [], y :: bs, rfl, rfl, by simp, (Option.some.inj h).symm⟩
  | case4 n as y bs ih =>
    obtain ⟨p, as', bs', rfl, rfl, hdiffer, rfl⟩ := ih h
    exact ⟨y :: p, as', bs', rfl, rfl, hdiffer, by simp [Nat.add_right_comm, Nat.add_assoc]⟩
  | case5 n x as y bs hne =>
    exact ⟨[], x :: as, y :: bs, rfl, rfl, by simpa using hne, (Option.some.inj h).symm⟩

/-- Texts that go on differently have no longer common start. -/
theorem isCommonStart_of_append {p as bs : Text} (h : as.head? ≠ bs.head?) :
    Text.IsCommonStart p (p ++ as) (p ++ bs) where
  left := List.prefix_append p as
  right := List.prefix_append p bs
  longest := by
    intro q hleft hright
    refine Nat.le_of_not_lt fun hlong => h ?_
    obtain ⟨more, rfl⟩ := List.prefix_of_prefix_length_le (List.prefix_append p as) hleft hlong.le
    obtain ⟨c, more, rfl⟩ := List.exists_cons_of_ne_nil (l := more) (by rintro rfl; simp at hlong)
    obtain ⟨as', rfl⟩ := (List.prefix_append_right_inj p).mp hleft
    obtain ⟨bs', rfl⟩ := (List.prefix_append_right_inj p).mp hright
    rfl

theorem locates_of_firstMismatch (h : firstMismatch 0 a b = some m) : m.Locates a b := by
  obtain ⟨p, as, bs, rfl, rfl, hdiffer, rfl⟩ := exists_of_firstMismatch h
  refine ⟨⟨p, isCommonStart_of_append hdiffer, (Nat.zero_add _).symm⟩, ?_, ?_, hdiffer⟩
  · simp [List.getElem?_append_right, List.head?_eq_getElem?]
  · simp [List.getElem?_append_right, List.head?_eq_getElem?]

/-- There is one first difference. -/
theorem eq_of_locates {m' : Mismatch} (h : m.Locates a b) (h' : m'.Locates a b) : m = m' := by
  obtain ⟨p, hp, hposition⟩ := h.position
  obtain ⟨p', hp', hposition'⟩ := h'.position
  have hsame : m.position = m'.position := by
    rw [← hposition, ← hposition']
    exact Nat.le_antisymm (hp'.longest p hp.left hp.right) (hp.longest p' hp'.left hp'.right)
  have hbefore : m.before = m'.before := by rw [h.before, h'.before, hsame]
  have hafter : m.after = m'.after := by rw [h.after, h'.after, hsame]
  cases m
  cases m'
  simp_all

theorem check_eq_some_iff (a b : Text) (m : Mismatch) :
    check a b = some m ↔ m.Locates (significant a) (significant b) := by
  refine ⟨locates_of_firstMismatch, fun h => ?_⟩
  cases hcheck : check a b with
  | some m' => rw [eq_of_locates (locates_of_firstMismatch hcheck) h]
  | none =>
    have hsame := (check_eq_none_iff a b).mp hcheck
    exact absurd (by rw [h.before, h.after, hsame]) h.differ

/-! ## The message -/

theorem append_inj_of_digits {n n' : Nat} {c : Char} (hc : c.isDigit = false) {rest rest' : Text}
    (h : Text.ofNat n ++ c :: rest = Text.ofNat n' ++ c :: rest') : n = n' ∧ rest = rest' := by
  have hcut : ∀ (n : Nat) (rest : Text),
      (Text.ofNat n ++ c :: rest).takeWhile Char.isDigit = Text.ofNat n := by
    intro n rest
    have hdigits : ∀ d ∈ Text.ofNat n, d.isDigit = true :=
      fun d hd => Nat.isDigit_of_mem_toDigits (by decide) (by decide) hd
    rw [List.takeWhile_append_of_pos hdigits, List.takeWhile_cons_of_neg (by simp [hc]), List.append_nil]
  have hsame : Text.ofNat n = Text.ofNat n' := by rw [← hcut n rest, h, hcut]
  constructor
  · calc
      n = Nat.ofDigitChars 10 (Text.ofNat n) 0 := Nat.ofDigitChars_ten_toDigits.symm
      _ = Nat.ofDigitChars 10 (Text.ofNat n') 0 := by rw [hsame]
      _ = n' := Nat.ofDigitChars_ten_toDigits
  · rw [hsame] at h
    exact (List.cons.inj (List.append_cancel_left h)).2

theorem side_none : Mismatch.side none = ['N', 'o', 'n', 'e'] := by decide

theorem side_some (c : Char) : Mismatch.side (some c) =
    'S' :: 'o' :: 'm' :: 'e' :: '(' :: '\'' :: (Text.escapeChar '\'' c ++ ['\'', ')']) := by
  have hopen : "Some(".toList = ['S', 'o', 'm', 'e', '('] := by decide
  calc Mismatch.side (some c)
      = ['S', 'o', 'm', 'e', '('] ++ Text.quotedChar c ++ [')'] :=
        congrArg (· ++ Text.quotedChar c ++ [')']) hopen
    _ = _ := by simp [Text.quotedChar]

/-- One side of a message is read off its front. -/
theorem side_append_inj {x x' : Option Char} {rest rest' : Text}
    (h : Mismatch.side x ++ rest = Mismatch.side x' ++ rest') : x = x' ∧ rest = rest' := by
  cases x with
  | none =>
    cases x' with
    | none => exact ⟨rfl, List.append_cancel_left h⟩
    | some c' => simp [side_none, side_some] at h
  | some c =>
    cases x' with
    | none => simp [side_none, side_some] at h
    | some c' =>
      simp only [side_some, List.cons_append, List.append_assoc, List.cons.injEq, true_and] at h
      have hread := congrArg Text.readEscaped h
      rw [Text.readEscaped_escapeChar, Text.readEscaped_escapeChar] at hread
      obtain ⟨rfl, hrest⟩ := Prod.mk.inj (Option.some.inj hread)
      exact ⟨rfl, by simpa using hrest⟩

/-- A message tells a mismatch, in whatever words. -/
theorem eq_of_words {lead mid sep : Text} {m m' : Mismatch}
    (h : lead ++ Text.ofNat m.position ++ (':' :: mid) ++ Mismatch.side m.before ++ sep ++
        Mismatch.side m.after =
      lead ++ Text.ofNat m'.position ++ (':' :: mid) ++ Mismatch.side m'.before ++ sep ++
        Mismatch.side m'.after) : m = m' := by
  simp only [List.append_assoc, List.cons_append] at h
  obtain ⟨hposition, hsides⟩ := append_inj_of_digits rfl (List.append_cancel_left h)
  obtain ⟨hbefore, hrest⟩ := side_append_inj (List.append_cancel_left hsides)
  have hlast := List.append_cancel_left hrest
  rw [← List.append_nil (Mismatch.side m.after), ← List.append_nil (Mismatch.side m'.after)] at hlast
  obtain ⟨hafter, -⟩ := side_append_inj hlast
  cases m
  cases m'
  simp_all

/-- The message of a mismatch tells its position and both sides. -/
theorem message_injective : Function.Injective fun m => (Error.notEquivalent m).message := by
  have hmark : ": original ".toList = ':' :: " original ".toList := by decide
  have hwords : ∀ m : Mismatch, m.message = "Text mismatch at significant character ".toList ++
      Text.ofNat m.position ++ (':' :: " original ".toList) ++ Mismatch.side m.before ++
      ", formatted ".toList ++ Mismatch.side m.after := fun m =>
    congrArg ("Text mismatch at significant character ".toList ++ Text.ofNat m.position ++ · ++
      Mismatch.side m.before ++ ", formatted ".toList ++ Mismatch.side m.after) hmark
  intro m m' h
  have hmessage : m.message = m'.message := List.append_cancel_left h
  rw [hwords, hwords] at hmessage
  exact eq_of_words hmessage

/-! ## The check -/

theorem check_eq_compare (a b : Text) : check a b = Reader.compare 0 (.ofText a) (.ofText b) :=
  (Reader.compare_eq 0 (.ofText a) (.ofText b)).symm

theorem significant_insert (front : Text) {w : Text} (hw : Text.allBlank w = true) (back : Text) :
    significant (front ++ w ++ back) = significant (front ++ back) := by
  rw [significant_append, significant_append, significant_append, significant_of_allBlank hw,
    List.append_nil]

/-- Agreeing on the significant characters is an equivalence relation. -/
theorem equivalence_check : Equivalence fun s t => check s t = none where
  refl s := (check_eq_none_iff s s).mpr rfl
  symm h := (check_eq_none_iff _ _).mpr ((check_eq_none_iff _ _).mp h).symm
  trans h h' := (check_eq_none_iff _ _).mpr
    (((check_eq_none_iff _ _).mp h).trans ((check_eq_none_iff _ _).mp h'))

/-- The check is exact, also when it reads both texts side by side.  It passes texts with the same
significant characters; for others it finds the end of their common start and what stands there on each side,
and the message of the error tells both.  So passing is an equivalence relation, and white space counts
nowhere. -/
theorem check_exact (a b : Text) :
    check a b = Reader.compare 0 (.ofText a) (.ofText b) ∧
      (check a b = none ↔ significant a = significant b) ∧
      (∀ m, check a b = some m ↔ m.Locates (significant a) (significant b)) ∧
      Function.Injective (fun m => (Error.notEquivalent m).message) ∧
      Equivalence (fun s t => check s t = none) ∧
      ∀ front w back, Text.allBlank w = true →
        check (front ++ w ++ back) b = check (front ++ back) b ∧
          check a (front ++ w ++ back) = check a (front ++ back) := by
  refine ⟨check_eq_compare a b, check_eq_none_iff a b, check_eq_some_iff a b, message_injective,
    equivalence_check, fun front w back hw => ?_⟩
  simp only [check, significant_insert front hw back, and_self]

/-- A line break between two words counts for nothing. -/
theorem check_exact_lineBreak :
    Text.allBlank "\n    ".toList = true ∧
      check ("SELECT".toList ++ "\n    ".toList ++ "a".toList) "select b".toList =
        check ("SELECT".toList ++ "a".toList) "select b".toList := by
  have hblank : Text.allBlank "\n    ".toList = true := by decide
  obtain ⟨-, -, -, -, -, hspace⟩ := check_exact [] "select b".toList
  exact ⟨hblank, (hspace "SELECT".toList "\n    ".toList "a".toList hblank).1⟩

end Equivalence

end SqlLayout
