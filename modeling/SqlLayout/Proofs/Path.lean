import SqlLayout.Path

/-!
# The order of paths

Components compare by kind and then by name, and paths component by component.  Both orders are
lexicographic, so they are total, and paths that compare equal are the same path.  A list of paths
in strict order therefore holds no path twice, and which paths it holds decides it up to spelling.

The components of a path have a shape of their own (`Proper`): only the first one can be the root or
the current folder.  Components of that shape are those of a path that is written from them.
-/

namespace SqlLayout

namespace Text

variable {mark : Char}

theorem splitAtMark_of_not_mem {a : Text} (h : mark ∉ a) : splitAtMark mark a = [a] := by
  induction a with
  | nil => rfl
  | cons c cs ih =>
    have hc : c ≠ mark := by
      rintro rfl
      simp at h
    rw [splitAtMark, if_neg hc, ih fun hmem => h (by simp [hmem])]

theorem splitAtMark_append {a : Text} (h : mark ∉ a) (b : Text) :
    splitAtMark mark (a ++ mark :: b) = a :: splitAtMark mark b := by
  induction a with
  | nil => rw [List.nil_append, splitAtMark, if_pos rfl]
  | cons c cs ih =>
    have hc : c ≠ mark := by
      rintro rfl
      simp at h
    rw [List.cons_append, splitAtMark, if_neg hc, ih fun hmem => h (by simp [hmem])]

/-- Pieces that are joined by a mark none of them has are found again. -/
theorem splitAtMark_intercalate {pieces : List Text} (hne : pieces ≠ [])
    (h : ∀ p ∈ pieces, mark ∉ p) : splitAtMark mark ([mark].intercalate pieces) = pieces := by
  induction pieces with
  | nil => exact absurd rfl hne
  | cons p ps ih =>
    obtain ⟨hp, hps⟩ := List.forall_mem_cons.mp h
    cases ps with
    | nil => simpa [List.intercalate] using splitAtMark_of_not_mem hp
    | cons q qs =>
      rw [List.intercalate_cons_cons, List.append_assoc, List.singleton_append,
        splitAtMark_append hp, ih (by simp) hps]

theorem not_mem_of_mem_splitAtMark {s : Text} : ∀ p ∈ splitAtMark mark s, mark ∉ p := by
  fun_induction splitAtMark mark s with
  | case1 => simp
  | case2 cs ih => simpa using ih
  | case3 c cs hc hnil ih => simpa using Ne.symm hc
  | case4 c cs hc piece pieces hsplit ih =>
    rw [hsplit] at ih
    obtain ⟨hpiece, hpieces⟩ := List.forall_mem_cons.mp ih
    refine List.forall_mem_cons.mpr ⟨?_, hpieces⟩
    simpa [hpiece] using Ne.symm hc

end Text

namespace Component

theorem compare_eq_compareLex :
    compare = compareLex (compareOn rank) (compareOn fun c => c.text.map Char.toNat) := rfl

instance : Std.TransCmp compare := by
  rw [compare_eq_compareLex]
  infer_instance

theorem eq_of_rank_eq_of_text_eq {a b : Component} (hrank : a.rank = b.rank)
    (htext : a.text = b.text) : a = b := by
  cases a <;> cases b <;> simp_all [rank, text]

instance : Std.LawfulEqCmp compare where
  eq_of_compare {a b} h := by
    rw [compare, Ordering.then_eq_eq] at h
    have htext := (List.map_inj_right fun _ _ => Char.toNat_inj.mp).mp
      (Std.LawfulEqCmp.eq_of_compare h.2)
    exact eq_of_rank_eq_of_text_eq (Std.LawfulEqCmp.eq_of_compare h.1) htext

end Component

namespace Path

theorem compareComponents_eq_compareLex :
    compareComponents = List.compareLex Component.compare := by
  funext as bs
  fun_induction compareComponents as bs with
  | case1 | case2 | case3 => rfl
  | case4 a as b bs ih => rw [ih, List.compareLex_cons_cons]

instance : Std.TransCmp compareComponents := by
  rw [compareComponents_eq_compareLex]
  infer_instance

instance : Std.LawfulEqCmp compareComponents := by
  rw [compareComponents_eq_compareLex]
  infer_instance

theorem compareComponents_swap (as bs : List Component) :
    compareComponents as bs = (compareComponents bs as).swap := Std.OrientedCmp.eq_swap

theorem compareComponents_self (as : List Component) : compareComponents as as = .eq :=
  Std.ReflCmp.compare_self

theorem compare_swap (p q : Text) : compare p q = (compare q p).swap := compareComponents_swap _ _

theorem isLE_compare_trans {p q r : Text} (hpq : (compare p q).isLE = true)
    (hqr : (compare q r).isLE = true) : (compare p r).isLE = true := by
  unfold compare at *
  exact Std.TransCmp.isLE_trans hpq hqr

theorem same_iff {p q : Text} : same p q = true ↔ components p = components q := by
  rw [same, beq_iff_eq]

/-- Paths that compare equal are the same path. -/
theorem compare_eq_iff_same {p q : Text} : compare p q = .eq ↔ same p q = true := by
  rw [same_iff, compare]
  exact Std.LawfulEqCmp.compare_eq_iff_eq

theorem same_comm (p q : Text) : same p q = same q p := by
  rw [Bool.eq_iff_iff, same_iff, same_iff, eq_comm]

/-- Sorting puts paths that are all different in strict order. -/
theorem pairwise_lt_mergeSort {paths : List Text}
    (h : paths.Pairwise fun p q => same p q = false) :
    (paths.mergeSort fun p q => (compare p q).isLE).Pairwise fun p q => compare p q = .lt := by
  have htotal (p q : Text) : ((compare p q).isLE || (compare q p).isLE) = true := by
    rw [compare_swap q]
    cases compare p q <;> rfl
  have hsorted : (paths.mergeSort fun p q => (compare p q).isLE).Pairwise
      fun p q => (compare p q).isLE = true := by
    refine List.pairwise_mergeSort ?_ htotal paths
    exact fun p q r hpq hqr => isLE_compare_trans hpq hqr
  have hapart := (List.mergeSort_perm paths fun p q => (compare p q).isLE).pairwise_iff
    (fun {p q} hpq => by rw [same_comm, hpq]) |>.mpr h
  refine hsorted.imp₂ (fun p q hle hne => ?_) hapart
  cases hcompare : compare p q with
  | lt => rfl
  | eq => rw [compare_eq_iff_same, hne] at hcompare; cases hcompare
  | gt => rw [hcompare] at hle; cases hle

/-- Paths in strict order are settled, up to their spelling, by which paths they are. -/
theorem map_components_eq {ps qs : List Text} (hps : ps.Pairwise fun p q => compare p q = .lt)
    (hqs : qs.Pairwise fun p q => compare p q = .lt)
    (h : ∀ c, c ∈ ps.map components ↔ c ∈ qs.map components) :
    ps.map components = qs.map components := by
  have hstrict {l : List Text} (hl : l.Pairwise fun p q => compare p q = .lt) :
      (l.map components).Pairwise fun a b => compareComponents a b = .lt :=
    List.pairwise_map.mpr hl
  have hnodup {l : List (List Component)} (hl : l.Pairwise fun a b => compareComponents a b = .lt) :
      l.Nodup := by
    refine hl.imp ?_
    rintro a _ hlt rfl
    rw [compareComponents_self] at hlt
    cases hlt
  have hperm := (List.perm_ext_iff_of_nodup (hnodup (hstrict hps)) (hnodup (hstrict hqs))).mpr h
  refine hperm.eq_of_pairwise (fun a b _ _ hab hba => ?_) (hstrict hps) (hstrict hqs)
  rw [compareComponents_swap, hba] at hab
  cases hab

/-! ## Components and the path they are written as -/

/-- How a component is written. -/
def piece : Component → Text
  | .root => []
  | .here => ['.']
  | .up => ['.', '.']
  | .name n => n

/-- Names are names, and only the first component is the root or the current folder. -/
structure Proper (folder : List Component) : Prop where
  names : ∀ n, .name n ∈ folder → '/' ∉ n ∧ Component.ofPiece? n = some (.name n)
  front : ∀ c ∈ folder.tail, c ≠ .root ∧ c ≠ .here

theorem Proper.of_isPrefix {a b : List Component} (h : Proper b) (hab : a <+: b) : Proper a where
  names n hn := h.names n (hab.subset hn)
  front c hc := by
    obtain ⟨t, rfl⟩ := hab
    cases a with
    | nil => cases hc
    | cons x xs => exact h.front c (List.mem_append_left t hc)

theorem Proper.tail {c : Component} {folder : List Component} (h : Proper (c :: folder)) :
    Proper folder where
  names n hn := h.names n (by simp [hn])
  front x hx := h.front x (List.mem_of_mem_tail hx)

theorem proper_here : Proper [.here] where
  names n hn := by simp at hn
  front c hc := by simp at hc

theorem ofPiece?_eq_some {p : Text} {c : Component} (h : Component.ofPiece? p = some c) :
    (c = .up ∨ c = .name p) ∧ c ≠ .root ∧ c ≠ .here := by
  unfold Component.ofPiece? at h
  split at h
  · cases h
  · split at h <;> obtain rfl := Option.some.inj h <;> simp

theorem proper_components (path : Text) : Proper (components path) := by
  have hbody : ∀ c ∈ (Text.splitAtMark '/' path).filterMap Component.ofPiece?,
      c ≠ .root ∧ c ≠ .here ∧ ∀ n, c = .name n → '/' ∉ n ∧ Component.ofPiece? n = some (.name n) := by
    intro c hc
    obtain ⟨p, hp, hpiece⟩ := List.mem_filterMap.mp hc
    obtain ⟨hcases, hroot, hhere⟩ := ofPiece?_eq_some hpiece
    refine ⟨hroot, hhere, ?_⟩
    rintro n rfl
    obtain hup | hname := hcases
    · cases hup
    · obtain rfl := Component.name.inj hname
      exact ⟨Text.not_mem_of_mem_splitAtMark n hp, hpiece⟩
  unfold components
  dsimp only
  generalize (Text.splitAtMark '/' path).filterMap Component.ofPiece? = body at hbody
  split
  · exact ⟨fun n hn => (hbody (.name n) (by simpa using hn)).2.2 n rfl,
      fun c hc => ⟨(hbody c hc).1, (hbody c hc).2.1⟩⟩
  · exact ⟨fun n hn => (hbody (.name n) (by simpa using hn)).2.2 n rfl,
      fun c hc => ⟨(hbody c hc).1, (hbody c hc).2.1⟩⟩
  · refine ⟨fun n hn => (hbody (.name n) hn).2.2 n rfl, fun c hc => ?_⟩
    have hmem := List.mem_of_mem_tail hc
    exact ⟨(hbody c hmem).1, (hbody c hmem).2.1⟩

/-- The pieces of proper components hold no separator, and only the root is written as nothing. -/
theorem Proper.not_mem_piece {folder : List Component} (h : Proper folder) {c : Component}
    (hc : c ∈ folder) : '/' ∉ piece c ∧ (c ≠ .root → piece c ≠ []) := by
  cases c with
  | root | here | up => simp [piece]
  | name n =>
    obtain ⟨hslash, hpiece⟩ := h.names n hc
    refine ⟨hslash, fun _ => ?_⟩
    rintro rfl
    cases hpiece

/-- Behind the first component every piece is read as the component it stands for. -/
theorem Proper.filterMap_piece {folder : List Component} (h : Proper folder)
    (hfront : ∀ c ∈ folder, c ≠ .root ∧ c ≠ .here) :
    (folder.map piece).filterMap Component.ofPiece? = folder := by
  induction folder with
  | nil => rfl
  | cons c cs ih =>
    obtain ⟨hc, hcs⟩ := List.forall_mem_cons.mp hfront
    have hread : Component.ofPiece? (piece c) = some c := by
      cases c with
      | root => exact absurd rfl hc.1
      | here => exact absurd rfl hc.2
      | up => rfl
      | name n => exact (h.names n (by simp)).2
    rw [List.map_cons, List.filterMap_cons_some hread, ih h.tail hcs]

/-- A path that is written from proper components has those. -/
theorem Proper.components_intercalate {folder : List Component} (h : Proper folder)
    (hne : folder ≠ []) (hroot : folder ≠ [.root]) :
    components (['/'].intercalate (folder.map piece)) = folder := by
  have hsplit : Text.splitAtMark '/' (['/'].intercalate (folder.map piece)) = folder.map piece := by
    refine Text.splitAtMark_intercalate (by simpa using hne) fun p hp => ?_
    obtain ⟨c, hc, rfl⟩ := List.mem_map.mp hp
    exact (h.not_mem_piece hc).1
  obtain ⟨c, cs, rfl⟩ := List.exists_cons_of_ne_nil hne
  have hcs := h.tail.filterMap_piece h.front
  rw [components, hsplit, List.map_cons]
  cases c with
  | root =>
    have hcs' : cs ≠ [] := fun hnil => hroot (by rw [hnil])
    obtain ⟨d, ds, rfl⟩ := List.exists_cons_of_ne_nil hcs'
    rw [List.filterMap_cons_none rfl, hcs]
    rfl
  | here =>
    rw [List.filterMap_cons_none rfl, hcs]
    rfl
  | up =>
    rw [List.filterMap_cons_some (f := Component.ofPiece?) (b := Component.up) rfl, hcs]
    rfl
  | name n =>
    obtain ⟨-, hn⟩ := h.names n (by simp)
    have hnil : n ≠ [] := by
      rintro rfl
      cases hn
    have hdot : n ≠ ['.'] := by
      rintro rfl
      cases hn
    rw [List.filterMap_cons_some (f := Component.ofPiece?) (a := piece (.name n)) hn, hcs]
    simp [piece, hnil, hdot]

end Path

end SqlLayout
