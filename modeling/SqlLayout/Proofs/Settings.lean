import SqlLayout.Proofs.Folder
import SqlLayout.Proofs.Path
import SqlLayout.Settings

/-!
# Which settings the inputs lead to

The search takes one input after the other and goes up from each, so the settings that are found
are the nearest above the first input that has any above it (`exists_nearest_of_discover`).  They
belong to a folder above all inputs only when the nearest ones above the first input do
(`applies_iff`).  Folders are compared as their paths are written, apart from a `.`, which says
nothing: the folders above an input are those with a part of its components from the front on.
-/

namespace SqlLayout.Settings

/-- Components without `.`. -/
def place (folder : List Component) : List Component := folder.filter (· ≠ .here)

/-- The folder of this path is the one where the search for the input starts, or is above it. -/
def Above (fs : FileSystem) (folder path : Text) : Prop :=
  place (Path.components folder) <+: place (startFolder fs path) ∧
    (Component.root ∈ startFolder fs path → Component.root ∈ Path.components folder)

/-- The settings file in the folder of a path, if there is one. -/
def settingsAt? (fs : FileSystem) (folder : Text) : Option Text :=
  settingsIn? fs (Path.components folder)

/-- A common parent of the inputs. -/
def Common (fs : FileSystem) (paths : List Text) (folder : Text) : Prop :=
  ∀ path ∈ paths, Above fs folder path

/-- The innermost folder above the input that has settings. -/
structure Nearest (fs : FileSystem) (path folder : Text) : Prop where
  above : Above fs folder path
  holds : (settingsAt? fs folder).isSome = true
  innermost : ∀ other, Above fs other path → (settingsAt? fs other).isSome = true →
    place (Path.components other) <+: place (Path.components folder)

/-- What is found is in a common parent of the inputs, the innermost one that has settings, and
nothing is found only when no common parent has settings. -/
structure Applies (fs : FileSystem) (paths : List Text) : Prop where
  common : ∀ file, discover fs paths = some file → ∃ folder,
    settingsAt? fs folder = some file ∧ Common fs paths folder ∧
      ∀ other, Common fs paths other → (settingsAt? fs other).isSome = true →
        place (Path.components other) <+: place (Path.components folder)
  complete : discover fs paths = none →
    ∀ folder, Common fs paths folder → settingsAt? fs folder = none

/-! ## Going up -/

/-- Going up passes what is left when components are dropped from the end, but never leaves the root
of the file system.  The components stand last first. -/
theorem mem_upwards {cs g : List Component} :
    g ∈ upwards cs ↔ g <:+ cs ∧ (g = [] → cs.getLast? ≠ some .root) := by
  fun_induction upwards cs with
  | case1 => simp
  | case2 =>
    simp only [List.mem_singleton, List.suffix_cons_iff, List.suffix_nil, List.getLast?_singleton]
    grind
  | case3 c cs hroot ih =>
    rw [List.mem_cons, ih, List.suffix_cons_iff]
    cases cs with
    | nil =>
      have hc : c ≠ .root := fun hc => hroot hc rfl
      simp [hc]
    | cons d ds =>
      rw [List.getLast?_cons_cons]
      grind

theorem pairwise_upwards (cs : List Component) : (upwards cs).Pairwise fun a b => b <:+ a := by
  fun_induction upwards cs with
  | case1 | case2 => exact List.pairwise_singleton _ _
  | case3 c cs hroot ih =>
    refine List.pairwise_cons.mpr ⟨fun g hg => ?_, ih⟩
    exact (mem_upwards.mp hg).1.trans (List.suffix_cons c cs)

variable {fs : FileSystem} {path : Text} {g : List Component}

theorem mem_searchedFor : g ∈ searchedFor fs path ↔
    g <+: startFolder fs path ∧ (g = [] → (startFolder fs path).head? ≠ some .root) := by
  rw [searchedFor, List.mem_map]
  constructor
  · rintro ⟨r, hr, rfl⟩
    obtain ⟨hsuffix, hnil⟩ := mem_upwards.mp hr
    rw [List.getLast?_reverse] at hnil
    exact ⟨by simpa using List.reverse_prefix.mpr hsuffix, by simpa using hnil⟩
  · rintro ⟨hpre, hnil⟩
    refine ⟨g.reverse, mem_upwards.mpr ⟨List.reverse_suffix.mpr hpre, ?_⟩, List.reverse_reverse g⟩
    rw [List.getLast?_reverse]
    simpa using hnil

theorem pairwise_searchedFor (fs : FileSystem) (path : Text) :
    (searchedFor fs path).Pairwise fun a b => b <+: a := by
  rw [searchedFor, List.pairwise_map]
  exact (pairwise_upwards _).imp List.reverse_prefix.mpr

theorem proper_startFolder (fs : FileSystem) (path : Text) : Path.Proper (startFolder fs path) := by
  have hcomponents := Path.proper_components path
  unfold startFolder
  split
  · exact hcomponents
  · split
    · exact Path.proper_here
    · exact Path.proper_here
    · next folder _ hparent =>
      unfold Path.parent? at hparent
      split at hparent
      · cases hparent
      · cases hparent
      · obtain rfl := Option.some.inj hparent
        exact hcomponents.of_isPrefix (List.dropLast_prefix _)

theorem proper_of_mem_searchedFor (h : g ∈ searchedFor fs path) : Path.Proper g :=
  (proper_startFolder fs path).of_isPrefix (mem_searchedFor.mp h).1

/-! ## Files in a folder that is written out -/

theorem spell_eq (h : g ≠ [.root]) : spell g = ['/'].intercalate (g.map Path.piece) := by
  unfold spell
  split
  · exact absurd rfl h
  · rfl

theorem components_spell (h : Path.Proper g) : Path.components (spell g) = g := by
  by_cases hroot : g = [.root]
  · subst hroot
    rfl
  · by_cases hnil : g = []
    · subst hnil
      rfl
    · rw [spell_eq hroot, h.components_intercalate hnil hroot]

theorem intercalate_concat {pieces : List Text} (hne : pieces ≠ []) (p : Text) :
    ['/'].intercalate (pieces ++ [p]) = ['/'].intercalate pieces ++ '/' :: p := by
  induction pieces with
  | nil => exact absurd rfl hne
  | cons q qs ih =>
    cases qs with
    | nil => simp [List.intercalate]
    | cons r rs =>
      rw [List.cons_append, List.cons_append, List.intercalate_cons_cons,
        List.intercalate_cons_cons, ← List.cons_append, ih (by simp)]
      simp

/-- Only the root is written with a separator at its end. -/
theorem endsWith_spell (h : Path.Proper g) (hroot : g ≠ [.root]) (hnil : g ≠ []) :
    spell g ≠ [] ∧ Text.endsWith (spell g) '/' = false := by
  obtain ⟨front, c, rfl⟩ := (List.eq_nil_or_concat g).resolve_left hnil
  rw [List.concat_eq_append] at *
  have hc : c ≠ .root := by
    rintro rfl
    cases front with
    | nil => exact hroot rfl
    | cons d ds => exact (h.front .root (by simp)).1 rfl
  obtain ⟨hslash, hne⟩ := h.not_mem_piece (c := c) (by simp)
  obtain ⟨init, x, hx⟩ := (List.eq_nil_or_concat (Path.piece c)).resolve_left (hne hc)
  rw [List.concat_eq_append] at hx
  have hlast : (spell (front ++ [c])).getLast? = some x := by
    rw [spell_eq hroot, List.map_append]
    cases front with
    | nil => simp [List.intercalate, hx]
    | cons d ds =>
      rw [List.map_singleton, intercalate_concat (by simp), hx, ← List.cons_append,
        ← List.append_assoc, List.getLast?_concat]
  have hxslash : x ≠ '/' := by
    rintro rfl
    exact hslash (by simp [hx])
  refine ⟨fun hempty => ?_, by simp [Text.endsWith, hlast, hxslash]⟩
  rw [hempty] at hlast
  cases hlast

theorem join_spell (h : Path.Proper g) (name : Text) :
    Path.join (spell g) name = ['/'].intercalate (g.map Path.piece ++ [name]) := by
  by_cases hroot : g = [.root]
  · subst hroot
    simp [Path.join, spell, Path.piece, List.intercalate, Text.endsWith]
  · by_cases hnil : g = []
    · subst hnil
      simp [Path.join, spell, List.intercalate]
    · obtain ⟨hne, hends⟩ := endsWith_spell h hroot hnil
      rw [Path.join, List.isEmpty_eq_false_iff.mpr hne, hends,
        intercalate_concat (by simpa using hnil), ← spell_eq hroot]
      rfl

theorem splitAtMark_join (h : Path.Proper g) {name : Text} (hname : '/' ∉ name) :
    Text.splitAtMark '/' (Path.join (spell g) name) = g.map Path.piece ++ [name] := by
  rw [join_spell h]
  refine Text.splitAtMark_intercalate (by simp) fun p hp => ?_
  rcases List.mem_append.mp hp with hp | hp
  · obtain ⟨c, hc, rfl⟩ := List.mem_map.mp hp
    exact (h.not_mem_piece hc).1
  · obtain rfl := List.mem_singleton.mp hp
    exact hname

theorem mem_place {c : Component} (h : c ≠ .here) : c ∈ place g ↔ c ∈ g := by
  simp [place, h]

/-- A file in a folder is found by the place of the folder. -/
theorem resolve_join (h : Path.Proper g) {name : Text} (hname : '/' ∉ name) (hne : name ≠ []) :
    fs.resolve (Path.join (spell g) name) =
      fs.root.resolveFrom (if .root ∈ place g then [] else fs.here)
        ((place g).map Path.piece ++ [name]) := by
  have hsplit := splitAtMark_join h hname
  cases g with
  | nil =>
    obtain ⟨x, xs, rfl⟩ := List.exists_cons_of_ne_nil hne
    rw [FileSystem.resolve, hsplit]
    rfl
  | cons c cs =>
    have hbehind : cs.map Path.piece ++ [name] ≠ [] := by simp
    have hplace : place cs = cs := List.filter_eq_self.mpr fun d hd => by
      simpa using (h.front d hd).2
    have hfront : .root ∉ cs := fun hmem => (h.front _ hmem).1 rfl
    have hpiece : Path.piece c = [] ↔ c = .root := by
      refine ⟨fun hnil => ?_, fun hroot => by rw [hroot]; rfl⟩
      exact Classical.byContradiction fun hroot => (h.not_mem_piece (by simp)).2 hroot hnil
    rw [FileSystem.resolve_of_pieces hsplit hbehind]
    simp only [hpiece]
    by_cases hhere : c = .here
    · subst hhere
      have hstep : place (.here :: cs) = cs := hplace
      rw [hstep, if_neg (by simp), if_neg hfront]
      exact Folder.resolveFrom_cons_still fs.root fs.here (.inr rfl) hbehind
    · have hstep : place (c :: cs) = c :: cs := by
        rw [place, List.filter_cons_of_pos (by simpa using hhere), ← place, hplace]
      have hroot : .root ∈ c :: cs ↔ c = .root := by simp [hfront, eq_comm]
      rw [hstep]
      simp only [hroot]
      rfl

theorem isSome_settingsIn? : (settingsIn? fs g).isSome =
    (fs.exists? (Path.join (spell g) settingsName) ||
      fs.exists? (Path.join (spell g) projectName) &&
        hasSection fs (Path.join (spell g) projectName)) := by
  unfold settingsIn?
  dsimp only
  split
  · next hsettings => rw [hsettings]; rfl
  · next hsettings =>
    rw [eq_false_of_ne_true hsettings]
    split <;> simp_all

/-- Folders at one place have settings together. -/
theorem isSome_settingsIn?_congr (fs : FileSystem) {a b : List Component} (ha : Path.Proper a)
    (hb : Path.Proper b) (h : place a = place b) :
    (settingsIn? fs a).isSome = (settingsIn? fs b).isSome := by
  have hentry (name : Text) (hname : '/' ∉ name) (hne : name ≠ []) :
      fs.entry (Path.join (spell a) name) = fs.entry (Path.join (spell b) name) := by
    rw [FileSystem.entry, FileSystem.entry, resolve_join ha hname hne, resolve_join hb hname hne, h]
  have hsettings := hentry settingsName (by decide) (by decide)
  have hproject := hentry projectName (by decide) (by decide)
  rw [isSome_settingsIn?, isSome_settingsIn?]
  simp only [FileSystem.exists?, hasSection, FileSystem.read, hsettings, hproject]

/-- The path of a file in a folder is the folder's with one name more. -/
theorem components_join (h : Path.Proper g) {name : Text} (hname : '/' ∉ name)
    (hpiece : Component.ofPiece? name = some (.name name)) :
    Path.components (Path.join (spell g) name) = g ++ [.name name] := by
  have hproper : Path.Proper (g ++ [.name name]) := by
    refine ⟨fun n hn => ?_, fun c hc => ?_⟩
    · rcases List.mem_append.mp hn with hn | hn
      · exact h.names n hn
      · obtain rfl : n = name := by simpa using hn
        exact ⟨hname, hpiece⟩
    · cases g with
      | nil => simp at hc
      | cons d ds =>
        rcases List.mem_append.mp hc with hc | hc
        · exact h.front c hc
        · obtain rfl := List.mem_singleton.mp hc
          simp
  have hspelled := hproper.components_intercalate (by simp) (by simp [List.append_eq_singleton_iff])
  rwa [List.map_append, List.map_singleton, Path.piece, ← join_spell h] at hspelled

/-- A settings file is found in its folder. -/
theorem components_of_settingsIn? (h : Path.Proper g) {file : Text}
    (hfile : settingsIn? fs g = some file) : ∃ name, Path.components file = g ++ [name] := by
  unfold settingsIn? at hfile
  dsimp only at hfile
  split at hfile
  · obtain rfl := Option.some.inj hfile
    exact ⟨_, components_join h (by decide) (by decide)⟩
  · split at hfile
    · obtain rfl := Option.some.inj hfile
      exact ⟨_, components_join h (by decide) (by decide)⟩
    · cases hfile

/-- A settings file tells its folder. -/
theorem eq_of_settingsIn? {a b : List Component} {file : Text} (ha : Path.Proper a)
    (hb : Path.Proper b) (hfile : settingsIn? fs a = some file)
    (hfile' : settingsIn? fs b = some file) : a = b := by
  obtain ⟨name, hname⟩ := components_of_settingsIn? ha hfile
  obtain ⟨name', hname'⟩ := components_of_settingsIn? hb hfile'
  exact (List.append_inj' (hname.symm.trans hname') rfl).1

/-! ## Folders above an input -/

theorem Above.congr {folder folder' : Text} (h : Above fs folder path)
    (hplace : place (Path.components folder) = place (Path.components folder')) :
    Above fs folder' path := by
  obtain ⟨hpre, hroot⟩ := h
  refine ⟨hplace ▸ hpre, fun hstart => ?_⟩
  rw [← mem_place (by simp), ← hplace, mem_place (by simp)]
  exact hroot hstart

theorem above_spell (h : g ∈ searchedFor fs path) : Above fs (spell g) path := by
  obtain ⟨hpre, hnil⟩ := mem_searchedFor.mp h
  rw [Above, components_spell (proper_of_mem_searchedFor h)]
  refine ⟨hpre.filter _, fun hroot => ?_⟩
  have hstart := proper_startFolder fs path
  generalize startFolder fs path = start at *
  cases start with
  | nil => cases hroot
  | cons c cs =>
    rcases List.mem_cons.mp hroot with rfl | hmem
    · cases g with
      | nil => exact absurd rfl (hnil rfl)
      | cons d ds =>
        obtain ⟨rfl, -⟩ := List.cons_prefix_cons.mp hpre
        simp
    · exact absurd rfl (hstart.front _ hmem).1

/-- Every folder above the input is at the place of one that the search comes to. -/
theorem exists_searchedFor_of_above {folder : Text} (h : Above fs folder path) :
    ∃ g ∈ searchedFor fs path, place g = place (Path.components folder) := by
  obtain ⟨hpre, hroot⟩ := h
  obtain ⟨g, hg, hplace⟩ := List.prefix_filter_iff.mp hpre
  refine ⟨g, mem_searchedFor.mpr ⟨hg, ?_⟩, hplace.symm⟩
  rintro rfl hhead
  have hmem := hroot (List.mem_of_head? hhead)
  rw [← mem_place (by simp), hplace] at hmem
  cases hmem

/-- The search for an input finds nothing when no folder above it has settings. -/
theorem findSome?_searchedFor_eq_none :
    (searchedFor fs path).findSome? (settingsIn? fs) = none ↔
      ∀ folder, Above fs folder path → settingsAt? fs folder = none := by
  rw [List.findSome?_eq_none_iff]
  constructor
  · intro h folder habove
    obtain ⟨g, hg, hplace⟩ := exists_searchedFor_of_above habove
    have hsome := isSome_settingsIn?_congr fs (proper_of_mem_searchedFor hg)
      (Path.proper_components folder) hplace
    rw [h g hg] at hsome
    exact Option.isSome_eq_false_iff.mp hsome.symm |> Option.isNone_iff_eq_none.mp
  · intro h g hg
    have hnone := h (spell g) (above_spell hg)
    rwa [settingsAt?, components_spell (proper_of_mem_searchedFor hg)] at hnone

/-- The search for an input finds the nearest settings. -/
theorem exists_nearest_of_findSome? {file : Text}
    (h : (searchedFor fs path).findSome? (settingsIn? fs) = some file) :
    ∃ folder, settingsAt? fs folder = some file ∧ Nearest fs path folder := by
  obtain ⟨before, g, behind, hsplit, hfile, hbefore⟩ := List.findSome?_eq_some_iff.mp h
  have hg : g ∈ searchedFor fs path := by simp [hsplit]
  have hspell : Path.components (spell g) = g := components_spell (proper_of_mem_searchedFor hg)
  have hat : settingsAt? fs (spell g) = some file := by rw [settingsAt?, hspell, hfile]
  refine ⟨spell g, hat, above_spell hg, by rw [hat]; rfl, fun other habove hother => ?_⟩
  obtain ⟨g', hg', hplace⟩ := exists_searchedFor_of_above habove
  have hsome := isSome_settingsIn?_congr fs (proper_of_mem_searchedFor hg')
    (Path.proper_components other) hplace
  rw [← settingsAt?, hother] at hsome
  have horder := pairwise_searchedFor fs path
  rw [hsplit] at hg' horder
  rw [← hplace, hspell]
  rcases List.mem_append.mp hg' with hmem | hmem
  · rw [hbefore g' hmem] at hsome
    cases hsome
  · rcases List.mem_cons.mp hmem with rfl | hmem
    · exact List.prefix_rfl
    · exact ((List.pairwise_cons.mp (List.pairwise_append.mp horder).2.1).1 g' hmem).filter _

/-! ## All inputs -/

theorem findSome?_foldl_seen {α β : Type} [BEq α] [LawfulBEq α] (f : α → Option β)
    (seen l : List α) :
    (l.foldl (fun seen a => if seen.contains a then seen else seen ++ [a]) seen).findSome? f =
      (seen ++ l).findSome? f := by
  induction l generalizing seen with
  | nil => simp
  | cons a l ih =>
    rw [List.foldl_cons, ih]
    split
    · next hseen =>
      -- whatever `a` has is found before, among those already seen
      rw [List.findSome?_append, List.findSome?_append, List.findSome?_cons]
      cases hfound : seen.findSome? f with
      | some b => rfl
      | none =>
        rw [List.findSome?_eq_none_iff.mp hfound a (by simpa using hseen)]
    · rw [List.append_assoc, List.singleton_append]

theorem discover_cons (fs : FileSystem) (path : Text) (paths : List Text) :
    discover fs (path :: paths) =
      ((searchedFor fs path).findSome? (settingsIn? fs)).or (discover fs paths) := by
  rw [discover, discover, searched, searched, findSome?_foldl_seen, findSome?_foldl_seen,
    List.flatMap_cons, List.nil_append, List.nil_append, List.findSome?_append]

theorem discover_eq_none {paths : List Text} :
    discover fs paths = none ↔
      ∀ path ∈ paths, ∀ folder, Above fs folder path → settingsAt? fs folder = none := by
  induction paths with
  | nil => simp [discover, searched]
  | cons path paths ih =>
    rw [discover_cons, Option.or_eq_none_iff, ih, findSome?_searchedFor_eq_none,
      List.forall_mem_cons]

/-- What is found are the nearest settings above the first input that has any above it. -/
theorem exists_nearest_of_discover {paths : List Text} {file : Text}
    (h : discover fs paths = some file) :
    ∃ front path back folder, paths = front ++ path :: back ∧
      (∀ p ∈ front, ∀ other, Above fs other p → settingsAt? fs other = none) ∧
      settingsAt? fs folder = some file ∧ Nearest fs path folder := by
  induction paths with
  | nil => simp [discover, searched] at h
  | cons path paths ih =>
    rw [discover_cons] at h
    cases hfound : (searchedFor fs path).findSome? (settingsIn? fs) with
    | some file' =>
      rw [hfound] at h
      obtain rfl := Option.some.inj h
      obtain ⟨folder, hfile, hnearest⟩ := exists_nearest_of_findSome? hfound
      exact ⟨[], path, paths, folder, rfl, by simp, hfile, hnearest⟩
    | none =>
      rw [hfound, Option.none_or] at h
      obtain ⟨front, p, back, folder, rfl, hfront, hfile, hnearest⟩ := ih h
      exact ⟨path :: front, p, back, folder, rfl, List.forall_mem_cons.mpr
        ⟨findSome?_searchedFor_eq_none.mp hfound, hfront⟩, hfile, hnearest⟩

/-- A first input with settings above it decides. -/
theorem nearest_of_discover_cons {first file folder : Text} {rest : List Text}
    (h : discover fs (first :: rest) = some file) (habove : Above fs folder first)
    (hsome : (settingsAt? fs folder).isSome = true) :
    ∃ found, settingsAt? fs found = some file ∧ Nearest fs first found := by
  obtain ⟨front, path, back, found, hsplit, hfront, hfile, hnearest⟩ :=
    exists_nearest_of_discover h
  cases front with
  | nil =>
    obtain ⟨rfl, -⟩ := List.cons.inj hsplit
    exact ⟨found, hfile, hnearest⟩
  | cons p ps =>
    obtain ⟨rfl, -⟩ := List.cons.inj hsplit
    rw [hfront first (by simp) folder habove] at hsome
    cases hsome

/-- What is found applies to all inputs exactly when there are no settings above any of them, or the
nearest settings above the first input are in a folder above all the others.  In every case, what
is found are the nearest settings above the first input that has any above it. -/
theorem applies_iff (fs : FileSystem) (first : Text) (rest : List Text) :
    (Applies fs (first :: rest) ↔
      (∀ path ∈ first :: rest, ∀ folder, Above fs folder path →
        settingsAt? fs folder = none) ∨
      ∃ folder, Nearest fs first folder ∧ Common fs rest folder) ∧
    ∀ file, discover fs (first :: rest) = some file →
      ∃ front path back folder, first :: rest = front ++ path :: back ∧
        (∀ p ∈ front, ∀ other, Above fs other p → settingsAt? fs other = none) ∧
        settingsAt? fs folder = some file ∧ Nearest fs path folder := by
  refine ⟨⟨fun h => ?_, ?_⟩, fun file hfile => exists_nearest_of_discover hfile⟩
  · cases hfound : discover fs (first :: rest) with
    | none => exact .inl (discover_eq_none.mp hfound)
    | some file =>
      obtain ⟨folder, hfile, hcommon, -⟩ := h.common file hfound
      obtain ⟨found, hfile', hnearest⟩ := nearest_of_discover_cons hfound
        (hcommon first (by simp)) (by rw [hfile]; rfl)
      have hsame := eq_of_settingsIn? (Path.proper_components folder)
        (Path.proper_components found) hfile hfile'
      refine .inr ⟨found, hnearest, fun path hpath => ?_⟩
      exact (hcommon path (by simp [hpath])).congr (by rw [hsame])
  · rintro (hnone | ⟨folder, hnearest, hcommon⟩)
    · refine ⟨fun file hfile => ?_, fun _ folder hcommon => ?_⟩
      · rw [discover_eq_none.mpr hnone] at hfile
        cases hfile
      · exact hnone first (by simp) folder (hcommon first (by simp))
    · refine ⟨fun file hfile => ?_, fun hfile => ?_⟩
      · obtain ⟨found, hfound, hnearest'⟩ := nearest_of_discover_cons hfile hnearest.above
          hnearest.holds
        have hplace : place (Path.components folder) = place (Path.components found) :=
          (hnearest'.innermost folder hnearest.above hnearest.holds).eq_of_length_le
            (hnearest.innermost found hnearest'.above hnearest'.holds).length_le
        refine ⟨found, hfound, List.forall_mem_cons.mpr ⟨hnearest'.above, fun path hpath => ?_⟩,
          fun other hother => hnearest'.innermost other (hother first (by simp))⟩
        exact (hcommon path hpath).congr hplace
      · have hnone := discover_eq_none.mp hfile first (by simp) folder hnearest.above
        have hholds := hnearest.holds
        rw [hnone] at hholds
        cases hholds

/-- Two folders side by side, with settings in the first, below the current folder. -/
def siblings : FileSystem :=
  .ofFolder [] <|
    .folder "a".toList
      (.file settingsName (Folder.encode "indent_size = 2\n".toList)
        (.file "x.sql".toList (Folder.encode "select 1\n".toList) .empty))
      (.folder "b".toList (.file "y.sql".toList (Folder.encode "select 1\n".toList) .empty) .empty)

/-- The settings of one folder are used for an input in the other. -/
theorem not_applies_siblings :
    (load ⟨siblings, none⟩ ["a/x.sql".toList, "b/y.sql".toList] none).toOption.map
        (·.style.indentSize) = some 2 ∧
      ¬ Applies siblings ["a/x.sql".toList, "b/y.sql".toList] := by
  refine ⟨by decide +kernel, fun happlies => ?_⟩
  have hfile : discover siblings ["a/x.sql".toList, "b/y.sql".toList] =
      some "a/sqltidy.toml".toList := by decide +kernel
  have hnone : (searchedFor siblings "b/y.sql".toList).findSome? (settingsIn? siblings) = none := by
    decide +kernel
  obtain ⟨folder, hat, hcommon, -⟩ := happlies.common _ hfile
  rw [findSome?_searchedFor_eq_none.mp hnone folder (hcommon _ (by simp))] at hat
  cases hat

end SqlLayout.Settings
