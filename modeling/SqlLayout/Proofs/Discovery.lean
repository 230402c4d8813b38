import Mathlib.Data.List.Induction
import SqlLayout.Discovery
import SqlLayout.Proofs.Path

/-!
# The files that path arguments name

`Named` says which files one argument names, without a walk: itself, a file of the listing below it
with nothing hidden or left out on the way, or what it yields as a pattern.  The walk finds those
(`mem_sqlFilesBelow`, by induction on the folder), and what is found for all arguments is put in
order, each file once.  So the result depends on the set of the arguments only, and shrinks when
more is excluded (`matching_wanted`).
-/

namespace SqlLayout.Discovery

/-- What the paths name, when it is in order once repeated paths are dropped. -/
theorem matching_eq {globbing : Globbing} {fs : FileSystem} {mode : Mode} {paths files : List Text}
    {excludes : List (Text → Bool)} {found : List (List Text)}
    (hexcludes : compileExcludes globbing mode.exclude = .ok excludes)
    (hfound : paths.mapM (named globbing fs excludes) = .ok found)
    (hfiles : dropRepeated found.flatten = files)
    (hsorted : files.Pairwise fun p q => (Path.compare p q).isLE = true) :
    matchingBy globbing fs mode paths = .ok files := by
  simp only [matchingBy, hexcludes, hfound, hfiles, bind, Except.bind, pure, Except.pure,
    List.mergeSort_of_pairwise hsorted]

/-! ## What an argument names -/

/-- Nothing on the way from `folder` through `names` starts with a dot or is left out. -/
structure Clear (excludes : List (Text → Bool)) (folder : Text) (names : Location) : Prop where
  shown : ∀ name ∈ names, Text.startsWith name ['.'] = false
  kept : ∀ front, front <+: names → front ≠ [] →
    isExcluded excludes (front.foldl Path.join folder) = false

/-- `Named globbing fs excludes path q`: the argument `path` names the file `q`, SQL or not. -/
inductive Named (globbing : Globbing) (fs : FileSystem) (excludes : List (Text → Bool)) :
    Text → Text → Prop
  | file {path : Text} (isFile : fs.isFile path = true) : Named globbing fs excludes path path
  | below {path : Text} {f : Folder} {names : Location} {content : ByteArray}
      (folder : fs.folder? path = some f) (listed : (names, content) ∈ f.filesBelow [])
      (clear : Clear excludes path names) : Named globbing fs excludes path (names.foldl Path.join path)
  | pattern {path q : Text} {yields : FileSystem → List Text} (notFile : fs.isFile path = false)
      (notFolder : fs.folder? path = none) (wild : Glob.isPattern path = true)
      (compiles : globbing.pattern path = .ok yields) (yielded : q ∈ yields fs)
      (isFile : fs.isFile q = true) (kept : isExcluded excludes q = false) :
      Named globbing fs excludes path q

/-- `q` is an SQL file that one of the arguments names. -/
def Wanted (globbing : Globbing) (fs : FileSystem) (excludes : List (Text → Bool)) (paths : List Text)
    (q : Text) : Prop :=
  isSqlFile q = true ∧ ∃ path ∈ paths, Named globbing fs excludes path q

/-- Every argument that has to be read as a pattern is one. -/
def PatternsCompile (globbing : Globbing) (fs : FileSystem) (paths : List Text) : Prop :=
  ∀ path ∈ paths, fs.isFile path = false → fs.folder? path = none →
    Glob.isPattern path = true → ∃ yields, globbing.pattern path = .ok yields

section

variable {globbing : Globbing} {fs : FileSystem} {excludes : List (Text → Bool)} {path q : Text}

/-! ## Below a folder -/

theorem clear_nil (folder : Text) : Clear excludes folder [] where
  shown := by simp
  kept front hfront hne := absurd (List.prefix_nil.mp hfront) hne

/-- The way is clear when its first step is and the rest of the way from there. -/
theorem clear_cons {folder name : Text} {names : Location} :
    Clear excludes folder (name :: names) ↔
      isPassedOver excludes name (Path.join folder name) = false ∧
        Clear excludes (Path.join folder name) names := by
  rw [isPassedOver, Bool.or_eq_false_iff]
  constructor
  · intro h
    refine ⟨⟨h.shown name (by simp), h.kept [name] (by simp) (by simp)⟩,
      fun n hn => h.shown n (by simp [hn]), fun front hfront _ => ?_⟩
    exact h.kept (name :: front) (by simpa using hfront) (by simp)
  · rintro ⟨⟨hshown, hkept⟩, hrest⟩
    refine ⟨List.forall_mem_cons.mpr ⟨hshown, hrest.shown⟩, fun front hfront hne => ?_⟩
    obtain ⟨n, front, rfl⟩ := List.exists_cons_of_ne_nil hne
    obtain ⟨rfl, hfront'⟩ := List.cons_prefix_cons.mp hfront
    by_cases hnil : front = []
    · subst hnil
      exact hkept
    · exact hrest.kept front hfront' hnil

theorem filesBelow_eq_map (location : Location) (f : Folder) :
    f.filesBelow location = (f.filesBelow []).map fun file => (location ++ file.1, file.2) := by
  induction f generalizing location with
  | empty => rfl
  | file n content others ih =>
    rw [Folder.filesBelow, Folder.filesBelow, ih, List.map_cons, List.nil_append]
  | folder n inside others ih ih' =>
    rw [Folder.filesBelow, Folder.filesBelow, ih, ih', ih ([] ++ [n]), List.map_append,
      List.map_map]
    simp [Function.comp_def]

/-- What is listed below a subfolder is listed below the folder with one name more. -/
theorem mem_filesBelow_folder {n : Text} {inside others : Folder} {names : Location}
    {content : ByteArray} :
    (names, content) ∈ (Folder.folder n inside others).filesBelow [] ↔
      (∃ rest, names = n :: rest ∧ (rest, content) ∈ inside.filesBelow []) ∨
        (names, content) ∈ others.filesBelow [] := by
  rw [Folder.filesBelow, List.mem_append, filesBelow_eq_map ([] ++ [n])]
  simp only [List.nil_append, List.mem_map, Prod.exists, Prod.mk.injEq, List.singleton_append]
  constructor
  · rintro (⟨rest, c, hmem, rfl, rfl⟩ | hmem)
    · exact .inl ⟨rest, rfl, hmem⟩
    · exact .inr hmem
  · rintro (⟨rest, rfl, hmem⟩ | hmem)
    · exact .inl ⟨rest, content, hmem, rfl, rfl⟩
    · exact .inr hmem

/-- The walk finds the SQL files of the listing to which the way is clear. -/
theorem mem_sqlFilesBelow {folder : Text} {f : Folder} :
    q ∈ sqlFilesBelow excludes folder f ↔ isSqlFile q = true ∧
      ∃ names content, (names, content) ∈ f.filesBelow [] ∧ Clear excludes folder names ∧
        q = names.foldl Path.join folder := by
  induction f generalizing folder with
  | empty => simp [sqlFilesBelow, Folder.filesBelow]
  | file n c others ih =>
    have hrest : q ∈ sqlFilesBelow excludes folder (.file n c others) ↔
        (isPassedOver excludes n (Path.join folder n) = false ∧ isSqlFile (Path.join folder n) ∧
          q = Path.join folder n) ∨ q ∈ sqlFilesBelow excludes folder others := by
      simp only [sqlFilesBelow]
      split <;> simp_all
    rw [hrest, ih]
    simp only [Folder.filesBelow, List.nil_append, List.mem_cons, Prod.mk.injEq]
    constructor
    · rintro (⟨hpass, hsql, rfl⟩ | ⟨hsql, names, content, hmem, hclear, rfl⟩)
      · exact ⟨hsql, [n], c, .inl ⟨rfl, rfl⟩, clear_cons.mpr ⟨hpass, clear_nil _⟩, rfl⟩
      · exact ⟨hsql, names, content, .inr hmem, hclear, rfl⟩
    · rintro ⟨hsql, names, content, ⟨rfl, rfl⟩ | hmem, hclear, rfl⟩
      · exact .inl ⟨(clear_cons.mp hclear).1, hsql, rfl⟩
      · exact .inr ⟨hsql, names, content, hmem, hclear, rfl⟩
  | folder n inside others ih ih' =>
    have hrest : q ∈ sqlFilesBelow excludes folder (.folder n inside others) ↔
        (isPassedOver excludes n (Path.join folder n) = false ∧
          q ∈ sqlFilesBelow excludes (Path.join folder n) inside) ∨
            q ∈ sqlFilesBelow excludes folder others := by
      simp only [sqlFilesBelow]
      split <;> simp_all
    simp only [hrest, ih, ih', mem_filesBelow_folder]
    constructor
    · rintro (⟨hpass, hsql, names, content, hmem, hclear, rfl⟩ |
        ⟨hsql, names, content, hmem, hclear, rfl⟩)
      · exact ⟨hsql, n :: names, content, .inl ⟨names, rfl, hmem⟩,
          clear_cons.mpr ⟨hpass, hclear⟩, rfl⟩
      · exact ⟨hsql, names, content, .inr hmem, hclear, rfl⟩
    · rintro ⟨hsql, names, content, ⟨rest, rfl, hmem⟩ | hmem, hclear, rfl⟩
      · obtain ⟨hpass, hclear⟩ := clear_cons.mp hclear
        exact .inl ⟨hpass, hsql, rest, content, hmem, hclear, rfl⟩
      · exact .inr ⟨hsql, names, content, hmem, hclear, rfl⟩

/-! ## One argument -/

theorem folder?_of_isFile (h : fs.isFile path = true) : fs.folder? path = none := by
  rw [FileSystem.isFile] at h
  rw [FileSystem.folder?]
  split at h
  · next hentry => rw [hentry]
  · cases h

theorem isFile_of_folder? {f : Folder} (h : fs.folder? path = some f) : fs.isFile path = false := by
  refine Bool.eq_false_iff.mpr fun hfile => ?_
  rw [folder?_of_isFile hfile] at h
  cases h

/-- A file names itself. -/
theorem named_iff_of_isFile (h : fs.isFile path = true) : Named globbing fs excludes path q ↔ q = path := by
  constructor
  · intro hnamed
    cases hnamed with
    | file _ => rfl
    | below folder _ _ => rw [folder?_of_isFile h] at folder; cases folder
    | pattern notFile => rw [h] at notFile; cases notFile
  · rintro rfl
    exact .file h

/-- A folder names the files below it to which the way is clear. -/
theorem named_iff_of_folder? {f : Folder} (h : fs.folder? path = some f) :
    Named globbing fs excludes path q ↔ ∃ names content, (names, content) ∈ f.filesBelow [] ∧
      Clear excludes path names ∧ q = names.foldl Path.join path := by
  constructor
  · intro hnamed
    cases hnamed with
    | file isFile => rw [isFile_of_folder? h] at isFile; cases isFile
    | below folder listed clear =>
      obtain rfl := Option.some.inj (folder.symm.trans h)
      exact ⟨_, _, listed, clear, rfl⟩
    | pattern _ notFolder => rw [h] at notFolder; cases notFolder
  · rintro ⟨names, content, listed, clear, rfl⟩
    exact .below h listed clear

/-- Where no file and no folder is, the argument is a pattern or names nothing. -/
theorem named_iff_of_nothing (hfile : fs.isFile path = false) (hfolder : fs.folder? path = none) :
    Named globbing fs excludes path q ↔ Glob.isPattern path = true ∧ ∃ yields,
      globbing.pattern path = .ok yields ∧ q ∈ yields fs ∧
        fs.isFile q = true ∧ isExcluded excludes q = false := by
  constructor
  · intro hnamed
    cases hnamed with
    | file isFile => rw [hfile] at isFile; cases isFile
    | below folder _ _ => rw [hfolder] at folder; cases folder
    | pattern _ _ wild compiles yielded isFile kept => exact ⟨wild, _, compiles, yielded, isFile, kept⟩
  · rintro ⟨wild, yields, compiles, yielded, isFile, kept⟩
    exact .pattern hfile hfolder wild compiles yielded isFile kept

/-- What is found for an argument are the SQL files it names. -/
theorem mem_of_named {found : List Text} (h : named globbing fs excludes path = .ok found) :
    q ∈ found ↔ isSqlFile q = true ∧ Named globbing fs excludes path q := by
  rw [named] at h
  split at h
  · next hfile =>
    obtain rfl := Except.ok.inj h
    rw [named_iff_of_isFile hfile]
    constructor
    · intro hq
      split at hq
      · next hsql =>
        obtain rfl := List.mem_singleton.mp hq
        exact ⟨hsql, rfl⟩
      · cases hq
    · rintro ⟨hsql, rfl⟩
      simp [hsql]
  · next hfile =>
    have hfile : fs.isFile path = false := by simpa using hfile
    split at h
    · next f hfolder =>
      obtain rfl := Except.ok.inj h
      rw [mem_sqlFilesBelow, named_iff_of_folder? hfolder]
    · next hfolder =>
      rw [named_iff_of_nothing hfile hfolder]
      split at h
      · next hwild =>
        split at h
        · cases h
        · next yields hcompiles =>
          obtain rfl := Except.ok.inj h
          simp only [List.mem_filter, Bool.and_eq_true, Bool.not_eq_true', hwild, hcompiles,
            Except.ok.injEq, true_and, exists_eq_left']
          constructor
          · rintro ⟨hyields, ⟨hisFile, hsql⟩, hkept⟩
            exact ⟨hsql, hyields, hisFile, hkept⟩
          · rintro ⟨hsql, hyields, hisFile, hkept⟩
            exact ⟨hyields, ⟨hisFile, hsql⟩, hkept⟩
      · next hwild =>
        obtain rfl := Except.ok.inj h
        simp [hwild]

/-- Only a pattern that does not compile is an error. -/
theorem exists_named {paths : List Text} (excludes : List (Text → Bool))
    (h : PatternsCompile globbing fs paths) (hpath : path ∈ paths) :
    ∃ found, named globbing fs excludes path = .ok found := by
  rw [named]
  split
  · exact ⟨_, rfl⟩
  · next hfile =>
    split
    · exact ⟨_, rfl⟩
    · next hfolder =>
      split
      · next hwild =>
        obtain ⟨yields, hcompiles⟩ := h path hpath (by simpa using hfile) hfolder hwild
        rw [hcompiles]
        exact ⟨_, rfl⟩
      · exact ⟨_, rfl⟩

/-! ## More excludes -/

variable {more : List (Text → Bool)}

theorem isExcluded_mono (h : ∀ e ∈ excludes, e ∈ more) (hq : isExcluded more q = false) :
    isExcluded excludes q = false := by
  have hany (path : Text) (hpath : matchesAny more path = false) :
      matchesAny excludes path = false := by
    rw [matchesAny, List.any_eq_false] at hpath ⊢
    exact fun e he => hpath e (h e he)
  rw [isExcluded, Bool.or_eq_false_iff] at hq ⊢
  refine ⟨hany q hq.1, ?_⟩
  cases hname : Path.fileName? q with
  | none => rfl
  | some name =>
    rw [hname] at hq
    exact hany name hq.2

/-- With fewer excludes an argument names at least as much. -/
theorem Named.mono (h : ∀ e ∈ excludes, e ∈ more) (hnamed : Named globbing fs more path q) :
    Named globbing fs excludes path q := by
  cases hnamed with
  | file isFile => exact .file isFile
  | below folder listed clear =>
    exact .below folder listed
      ⟨clear.shown, fun front hfront hne => isExcluded_mono h (clear.kept front hfront hne)⟩
  | pattern notFile notFolder wild compiles yielded isFile kept =>
    exact .pattern notFile notFolder wild compiles yielded isFile (isExcluded_mono h kept)

end

/-! ## All arguments -/

section

variable {α β ε : Type} {f : α → Except ε β}

theorem eq_ok_of_toOption {x : Except ε β} {y : β} (h : x.toOption = some y) : x = .ok y := by
  cases x with
  | error e => cases h
  | ok b => exact congrArg Except.ok (Option.some.inj h)

theorem mapM_cons_ok {x : α} {xs : List α} {ys : List β} :
    (x :: xs).mapM f = .ok ys ↔ ∃ z zs, f x = .ok z ∧ xs.mapM f = .ok zs ∧ ys = z :: zs := by
  rw [List.mapM_cons]
  cases hx : f x with
  | error e => simp [bind, Except.bind]
  | ok z =>
    cases hxs : xs.mapM f with
    | error e => simp [bind, Except.bind]
    | ok zs => simp [bind, Except.bind, pure, Except.pure, eq_comm]

/-- A successful run over a list gives the results of its elements. -/
theorem mem_of_mapM {xs : List α} {ys : List β} (h : xs.mapM f = .ok ys) {y : β} :
    y ∈ ys ↔ ∃ x ∈ xs, f x = .ok y := by
  induction xs generalizing ys with
  | nil =>
    obtain rfl : ys = [] := (Except.ok.inj h).symm
    simp
  | cons x xs ih =>
    obtain ⟨z, zs, hx, hxs, rfl⟩ := mapM_cons_ok.mp h
    simp [ih hxs, hx, eq_comm]

theorem exists_mapM {xs : List α} (h : ∀ x ∈ xs, ∃ y, f x = .ok y) : ∃ ys, xs.mapM f = .ok ys := by
  induction xs with
  | nil => exact ⟨[], rfl⟩
  | cons x xs ih =>
    obtain ⟨z, hx⟩ := h x (by simp)
    obtain ⟨zs, hxs⟩ := ih fun y hy => h y (by simp [hy])
    exact ⟨z :: zs, mapM_cons_ok.mpr ⟨z, zs, hx, hxs, rfl⟩⟩

end

/-- More globs compile to more excludes. -/
theorem compileExcludes_mono {globbing : Globbing} {globs globs' : List Text}
    {excludes excludes' : List (Text → Bool)} (h : compileExcludes globbing globs = .ok excludes)
    (h' : compileExcludes globbing globs' = .ok excludes') (hsub : ∀ g ∈ globs, g ∈ globs') :
    ∀ e ∈ excludes, e ∈ excludes' := by
  intro e he
  obtain ⟨g, hg, hcompiles⟩ := (mem_of_mapM h).mp he
  exact (mem_of_mapM h').mpr ⟨g, hsub g hg, hcompiles⟩

theorem dropRepeated_append (paths : List Text) (p : Text) :
    dropRepeated (paths ++ [p]) =
      if (dropRepeated paths).any (Path.same p) then dropRepeated paths
      else dropRepeated paths ++ [p] := by
  rw [dropRepeated, List.foldl_append]
  rfl

/-- Dropping repeated paths leaves paths that are all different, one for each path there was. -/
theorem dropRepeated_spec (paths : List Text) :
    (dropRepeated paths).Pairwise (fun p q => Path.same p q = false) ∧
      (∀ q ∈ dropRepeated paths, q ∈ paths) ∧
        ∀ q ∈ paths, ∃ p ∈ dropRepeated paths, Path.same p q = true := by
  induction paths using List.reverseRecOn with
  | nil => simp [dropRepeated]
  | append_singleton paths p ih =>
    obtain ⟨hapart, hsub, hall⟩ := ih
    rw [dropRepeated_append]
    split
    · next hany =>
      obtain ⟨q, hq, hsame⟩ := List.any_eq_true.mp hany
      refine ⟨hapart, fun x hx => by simp [hsub x hx], fun x hx => ?_⟩
      rcases List.mem_append.mp hx with hx | hx
      · exact hall x hx
      · obtain rfl := List.mem_singleton.mp hx
        exact ⟨q, hq, by rw [Path.same_comm, hsame]⟩
    · next hany =>
      have hnew : ∀ q ∈ dropRepeated paths, Path.same q p = false := by
        intro q hq
        rw [Path.same_comm]
        simpa using List.any_eq_false.mp (Bool.not_eq_true _ ▸ hany) q hq
      refine ⟨List.pairwise_append.mpr ⟨hapart, List.pairwise_singleton _ _, ?_⟩, ?_, ?_⟩
      · simpa using hnew
      · intro x hx
        rcases List.mem_append.mp hx with hx | hx
        · simp [hsub x hx]
        · simp [List.mem_singleton.mp hx]
      · intro x hx
        rcases List.mem_append.mp hx with hx | hx
        · obtain ⟨q, hq, hsame⟩ := hall x hx
          exact ⟨q, by simp [hq], hsame⟩
        · obtain rfl := List.mem_singleton.mp hx
          exact ⟨x, by simp, Path.same_iff.mpr rfl⟩

/-- The result is in strict order and holds, up to spelling, exactly the files that are wanted. -/
theorem exists_matching {globbing : Globbing} {fs : FileSystem} {mode : Mode} {paths : List Text}
    {excludes : List (Text → Bool)} (hexcludes : compileExcludes globbing mode.exclude = .ok excludes)
    (hpatterns : PatternsCompile globbing fs paths) :
    ∃ found, matchingBy globbing fs mode paths = .ok found ∧
      found.Pairwise (fun p q => Path.compare p q = .lt) ∧
      (∀ q ∈ found, Wanted globbing fs excludes paths q) ∧
      ∀ q, Wanted globbing fs excludes paths q → ∃ p ∈ found, Path.same p q = true := by
  obtain ⟨lists, hlists⟩ := exists_mapM fun path hpath =>
    exists_named excludes hpatterns hpath
  have hwanted (q : Text) : q ∈ lists.flatten ↔ Wanted globbing fs excludes paths q := by
    rw [List.mem_flatten, Wanted]
    constructor
    · rintro ⟨l, hl, hq⟩
      obtain ⟨path, hpath, hnamed⟩ := (mem_of_mapM hlists).mp hl
      obtain ⟨hsql, hq⟩ := (mem_of_named hnamed).mp hq
      exact ⟨hsql, path, hpath, hq⟩
    · rintro ⟨hsql, path, hpath, hq⟩
      obtain ⟨l, hnamed⟩ := exists_named excludes hpatterns hpath
      exact ⟨l, (mem_of_mapM hlists).mpr ⟨path, hpath, hnamed⟩, (mem_of_named hnamed).mpr ⟨hsql, hq⟩⟩
  obtain ⟨hapart, hsub, hall⟩ := dropRepeated_spec lists.flatten
  refine ⟨(dropRepeated lists.flatten).mergeSort fun p q => (Path.compare p q).isLE, ?_,
    Path.pairwise_lt_mergeSort hapart, fun q hq => ?_, fun q hq => ?_⟩
  · simp only [matchingBy, hexcludes, hlists, bind, Except.bind, pure, Except.pure]
  · exact (hwanted q).mp (hsub q (List.mem_mergeSort.mp hq))
  · obtain ⟨p, hp, hsame⟩ := hall q ((hwanted q).mpr hq)
    exact ⟨p, List.mem_mergeSort.mpr hp, hsame⟩

/-- However globs are read: when those of the mode and the patterns among the arguments compile, what is
found is in strict order of paths, every file of it is wanted, and every wanted file is in it under
one spelling.  Other arguments with the same members lead to the same paths, and a mode that excludes
more leads to no other path. -/
theorem matching_wanted {globbing : Globbing} {fs : FileSystem} {mode : Mode} {paths : List Text}
    {excludes : List (Text → Bool)} (hexcludes : compileExcludes globbing mode.exclude = .ok excludes)
    (hpatterns : PatternsCompile globbing fs paths) :
    ∃ found, matchingBy globbing fs mode paths = .ok found ∧
      found.Pairwise (fun p q => Path.compare p q = .lt) ∧
      (∀ q ∈ found, Wanted globbing fs excludes paths q) ∧
      (∀ q, Wanted globbing fs excludes paths q → ∃ p ∈ found, Path.same p q = true) ∧
      (∀ paths' : List Text, (∀ path, path ∈ paths' ↔ path ∈ paths) →
        ∃ found', matchingBy globbing fs mode paths' = .ok found' ∧
          found'.map Path.components = found.map Path.components) ∧
      ∀ (mode' : Mode) (excludes' : List (Text → Bool)),
        compileExcludes globbing mode'.exclude = .ok excludes' →
        (∀ glob ∈ mode.exclude, glob ∈ mode'.exclude) →
        ∃ found', matchingBy globbing fs mode' paths = .ok found' ∧
          ∀ q ∈ found', ∃ p ∈ found, Path.same p q = true := by
  obtain ⟨found, hmatching, hstrict, hsound, hcomplete⟩ := exists_matching hexcludes hpatterns
  refine ⟨found, hmatching, hstrict, hsound, hcomplete, fun paths' hpaths => ?_,
    fun mode' excludes' hexcludes' hmore => ?_⟩
  · have hpatterns' : PatternsCompile globbing fs paths' := fun path hpath =>
      hpatterns path ((hpaths path).mp hpath)
    have hsame (q : Text) : Wanted globbing fs excludes paths' q ↔ Wanted globbing fs excludes paths q := by
      simp only [Wanted, hpaths]
    obtain ⟨found', hmatching', hstrict', hsound', hcomplete'⟩ :=
      exists_matching hexcludes hpatterns'
    refine ⟨found', hmatching', Path.map_components_eq hstrict' hstrict fun c => ?_⟩
    simp only [List.mem_map]
    constructor
    · rintro ⟨q, hq, rfl⟩
      obtain ⟨p, hp, hpq⟩ := hcomplete q ((hsame q).mp (hsound' q hq))
      exact ⟨p, hp, Path.same_iff.mp hpq⟩
    · rintro ⟨q, hq, rfl⟩
      obtain ⟨p, hp, hpq⟩ := hcomplete' q ((hsame q).mpr (hsound q hq))
      exact ⟨p, hp, Path.same_iff.mp hpq⟩
  · obtain ⟨found', hmatching', -, hsound', -⟩ := exists_matching hexcludes' hpatterns
    refine ⟨found', hmatching', fun q hq => ?_⟩
    obtain ⟨hsql, path, hpath, hnamed⟩ := hsound' q hq
    exact hcomplete q
      ⟨hsql, path, hpath, hnamed.mono (compileExcludes_mono hexcludes hexcludes' hmore)⟩

/-- A folder with a hidden folder, another one and two files in it, below the current folder. -/
def threeFolders : FileSystem :=
  .ofFolder ["w".toList] <|
    .folder "x".toList
      (.file "a.sql".toList (Folder.encode "1".toList)
        (.file "n.txt".toList (Folder.encode "4".toList)
          (.folder ".h".toList (.file "c.sql".toList (Folder.encode "3".toList) .empty)
            (.folder "skip".toList (.file "b.DDL".toList (Folder.encode "2".toList) .empty) .empty))))
      .empty

/-- A mode that leaves one of them out. -/
def leavesOut : Mode := { exclude := ["skip".toList] }

/-- A pattern from the root of the file system, the file that is left out, and the folder by two
paths. -/
def fourArguments : List Text :=
  ["/w/x/*".toList, "/w/x/skip/b.DDL".toList, "../w/x".toList, "x".toList]

/-- What the arguments name. -/
def fourFiles : List Text :=
  ["/w/x/a.sql".toList, "/w/x/skip/b.DDL".toList, "../w/x/a.sql".toList, "x/a.sql".toList]

theorem matching_threeFolders : matching threeFolders leavesOut fourArguments = .ok fourFiles := by
  obtain ⟨excludes, hexcludes⟩ :
      ∃ excludes, compileExcludes .standard leavesOut.exclude = .ok excludes := ⟨_, rfl⟩
  have hfound : ((compileExcludes .standard leavesOut.exclude).toOption.bind fun excludes =>
      (fourArguments.mapM (named .standard threeFolders excludes)).toOption) =
        some (fourFiles.map ([·])) := by decide +kernel
  rw [hexcludes] at hfound
  exact matching_eq hexcludes (eq_ok_of_toOption hfound) (by decide) (by decide)

/-- Only the pattern is read as one. -/
theorem patternsCompile_threeFolders : PatternsCompile .standard threeFolders fourArguments := by
  intro path hpath hfile hfolder hwild
  have hnone : ∀ path ∈ fourArguments, threeFolders.isFile path = false →
      threeFolders.isFolder path = false →
        (Globbing.standard.pattern path).toOption.isSome = true := by decide +kernel
  have hsome := hnone path hpath hfile (by rw [FileSystem.isFolder, hfolder]; rfl)
  obtain ⟨yields, hyields⟩ := Option.isSome_iff_exists.mp hsome
  exact ⟨yields, eq_ok_of_toOption hyields⟩

/-- A file that is given counts, also where its folder is left out.  What a folder or a pattern names
leaves out the hidden file, the file in the folder that is left out and the file that is not SQL. -/
theorem matching_wanted_threeFolders :
    ∃ excludes, compileExcludes .standard leavesOut.exclude = .ok excludes ∧
      PatternsCompile .standard threeFolders fourArguments ∧
      matching threeFolders leavesOut fourArguments = .ok fourFiles ∧
      fourFiles.Pairwise (fun p q => Path.compare p q = .lt) ∧
      (∀ q ∈ fourFiles, Wanted .standard threeFolders excludes fourArguments q) ∧
      ∀ q ∈ ["x/.h/c.sql".toList, "x/skip/b.DDL".toList, "x/n.txt".toList, "/w/x/n.txt".toList],
        ¬ Wanted .standard threeFolders excludes fourArguments q := by
  obtain ⟨excludes, hexcludes⟩ :
      ∃ excludes, compileExcludes .standard leavesOut.exclude = .ok excludes := ⟨_, rfl⟩
  obtain ⟨found, hmatching, hstrict, hsound, hcomplete, -⟩ :=
    matching_wanted hexcludes patternsCompile_threeFolders
  obtain rfl := Except.ok.inj (matching_threeFolders.symm.trans hmatching)
  refine ⟨excludes, hexcludes, patternsCompile_threeFolders, hmatching, hstrict, hsound,
    fun q hq hwanted => ?_⟩
  have hapart : ∀ q ∈ ["x/.h/c.sql".toList, "x/skip/b.DDL".toList, "x/n.txt".toList,
      "/w/x/n.txt".toList], ∀ p ∈ fourFiles, Path.same p q = false := by decide
  obtain ⟨p, hp, hsame⟩ := hcomplete q hwanted
  rw [hapart q hq p hp] at hsame
  cases hsame

end SqlLayout.Discovery
