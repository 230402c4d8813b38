import SqlLayout.Proofs.Equivalence
import SqlLayout.Proofs.Run.Agreement

/-!
The effect of a run whose paths name different files: one result for each, in the order of the paths,
and new bytes for the files that are laid out anew, when the mode writes, and for no others.  A
checking run leaves everything as it is, and tells what a writing run reports and which files it
changes.
-/

namespace SqlLayout

namespace Run

variable {mode : Mode} {fs : FileSystem} {paths : List Text}

/-- Two paths that do not lead to one file. -/
def Different (fs : FileSystem) (p q : Text) : Prop :=
  ∀ location, fs.resolve p = .ok location → fs.resolve q ≠ .ok location

theorem apart_of_different (h : paths.Pairwise (Different fs)) : Apart mode fs paths :=
  h.imp fun hpq location hp hq => absurd hq (hpq location hp)

/-- Laying out a text comes to an end when the delimiter starts no comment; it fails for want of
equivalence only. -/
theorem formatChecked_of_delimiter (hs : Dialect.isLineComment mode.style.delimiter = false)
    (sql : Text) :
    ∃ out, format .standard mode.style sql = some out ∧
      (formatChecked mode sql = .ok out ∨
        ∃ mismatch, Equivalence.check sql out = some mismatch ∧
          formatChecked mode sql = .error (.notEquivalent mismatch)) := by
  obtain ⟨out, hout⟩ := exists_format .standard hs sql
  refine ⟨out, hout, ?_⟩
  rw [formatChecked, hout]
  cases hmismatch : Equivalence.check sql out with
  | none => simp [hmismatch]
  | some mismatch => cases mode.checksEquivalence <;> simp [hmismatch]

theorem planned_ne_crashed (hs : Dialect.isLineComment mode.style.delimiter = false) (path : Text) :
    planned mode fs path ≠ .crashed := by
  rw [ne_eq, planned_eq_crashed_iff]
  rintro ⟨sql, -, hformat⟩
  obtain ⟨out, -, hok | ⟨mismatch, -, hrefused⟩⟩ := formatChecked_of_delimiter hs sql
  · rw [hok] at hformat
    cases hformat
  · rw [hrefused] at hformat
    cases hformat

theorem forall₂_judges (h : ∀ path ∈ paths, planned mode fs path ≠ .crashed) :
    List.Forall₂ (fun path result => result.path = path ∧ Judges mode fs path result.outcome) paths
      ((paths.map (settled mode fs)).filterMap Task.result?) := by
  induction paths with
  | nil => exact .nil
  | cons path paths ih =>
    obtain ⟨outcome, hresult, hjudges⟩ := exists_judges (h path List.mem_cons_self)
    rw [List.map_cons, List.filterMap_cons_some hresult]
    exact .cons ⟨rfl, hjudges⟩ (ih fun other hother => h other (List.mem_cons_of_mem _ hother))

section Results

variable {P : Text → Outcome → Prop} {results : List FileResult}

/-- Results that tell of some paths are those of the paths in order. -/
theorem map_path_results
    (h : List.Forall₂ (fun path result => result.path = path ∧ P path result.outcome) paths results) :
    results.map FileResult.path = paths := by
  induction h with
  | nil => rfl
  | cons hhead _ ih => rw [List.map_cons, hhead.1, ih]

theorem exists_result
    (h : List.Forall₂ (fun path result => result.path = path ∧ P path result.outcome) paths results)
    {path : Text} (hpath : path ∈ paths) : ∃ outcome, ⟨path, outcome⟩ ∈ results ∧ P path outcome := by
  induction h with
  | nil => cases hpath
  | @cons first result _ _ hhead _ ih =>
    obtain ⟨rfl, hfirst⟩ := hhead
    obtain rfl | hmem := List.mem_cons.mp hpath
    · exact ⟨result.outcome, List.mem_cons_self, hfirst⟩
    · obtain ⟨outcome, hresult, houtcome⟩ := ih hmem
      exact ⟨outcome, List.mem_cons_of_mem _ hresult, houtcome⟩

end Results

/-- The effect on files that differ, under every schedule. -/
theorem process_effect (mode : Mode) (schedule : List Nat)
    (hs : Dialect.isLineComment mode.style.delimiter = false)
    (hdifferent : paths.Pairwise (Different fs)) :
    ∃ results, (process mode schedule fs paths).1 = some results ∧
      List.Forall₂ (fun path result => result.path = path ∧ Judges mode fs path result.outcome)
        paths results ∧
      Settles mode fs paths (process mode schedule fs paths).2 := by
  have hapart : Apart mode fs paths := apart_of_different hdifferent
  have hcrash : ∀ path ∈ paths, planned mode fs path ≠ .crashed :=
    fun path _ => planned_ne_crashed hs path
  rw [process]
  split
  · obtain ⟨hresults, hsettles⟩ := processInTurn_settles hapart hcrash
    exact ⟨_, hresults, forall₂_judges hcrash, hsettles⟩
  · obtain ⟨hresults, hsettles⟩ := processTogether_settles hapart schedule
    exact ⟨_, congrArg some hresults, forall₂_judges hcrash, hsettles⟩

/-- A file looks different after its task exactly when it is rewritten. -/
theorem Settles.sight_ne_iff {after : FileSystem} (h : Settles mode fs paths after)
    (location : Location) :
    after.sight location ≠ fs.sight location ↔
      ∃ path ∈ paths, fs.resolve path = .ok location ∧
        ∃ text, Rewrites mode fs location text := by
  constructor
  · intro hne
    refine Classical.byContradiction fun hnone => hne (h.untouched location ?_)
    intro path hmem text hpath hrewrites
    exact hnone ⟨path, hmem, hpath, text, hrewrites⟩
  · rintro ⟨path, hmem, hpath, text, hrewrites⟩ hsame
    rw [h.written path hmem location text hpath hrewrites] at hsame
    obtain ⟨content, sql, hsight, hdecode, -, hne, -⟩ := hrewrites
    rw [← hsame] at hsight
    rw [← Sight.file.inj hsight, Folder.decode_encode] at hdecode
    exact hne (Except.ok.inj hdecode)

/-! ## Runs that write nothing -/

section Unwritten

variable (hwrites : mode.writes = false)
include hwrites

theorem planned_ne_writing (fs : FileSystem) (path text : Text) : planned mode fs path ≠ .writing text := by
  intro hwriting
  obtain ⟨sql, -, hplan⟩ := ofRead_eq_writing_iff.mp hwriting
  rw [(plan_eq_write_iff.mp hplan).2.2] at hwrites
  cases hwrites

/-- Where no task is about to write, none is after a step, which leaves the files as they are. -/
theorem Pool.step_unwritten {pool : Pool} (h : ∀ task ∈ pool.tasks, ∀ text, task.phase ≠ .writing text)
    (i : Nat) : (pool.step mode i).fs = pool.fs ∧
      ∀ task ∈ (pool.step mode i).tasks, ∀ text, task.phase ≠ .writing text := by
  cases hi : pool.tasks[i]? with
  | none => rw [Pool.step_of_none hi]; exact ⟨rfl, h⟩
  | some task =>
    have hphase := h task (List.mem_of_getElem? hi)
    rw [Pool.step_of_getElem? hi, Task.step]
    cases hp : task.phase with
    | writing text => exact absurd hp (hphase text)
    | waiting =>
      refine ⟨rfl, fun other hother => ?_⟩
      obtain hmem | rfl := List.mem_or_eq_of_mem_set hother
      · exact h other hmem
      · exact planned_ne_writing hwrites pool.fs task.path
    | done _ | crashed =>
      refine ⟨rfl, fun other hother => ?_⟩
      obtain hmem | rfl := List.mem_or_eq_of_mem_set hother
      · exact h other hmem
      · exact hphase

theorem Pool.fs_follow (fs : FileSystem) (paths : List Text) (turns : List Nat) :
    ((Pool.start fs paths).follow mode turns).fs = fs := by
  have hstart : (Pool.start fs paths).fs = fs ∧
      ∀ task ∈ (Pool.start fs paths).tasks, ∀ text, task.phase ≠ .writing text :=
    ⟨rfl, by simp [Pool.start]⟩
  have hrun := Pool.follow_induction mode
    (P := fun pool => pool.fs = fs ∧ ∀ task ∈ pool.tasks, ∀ text, task.phase ≠ .writing text)
    (fun pool i h => by
      obtain ⟨hfs, htasks⟩ := Pool.step_unwritten hwrites h.2 i
      exact ⟨hfs.trans h.1, htasks⟩) hstart turns
  exact hrun.1

theorem processInTurn_unwritten (fs : FileSystem) (paths : List Text) :
    (processInTurn mode fs paths).2 = fs := by
  induction paths with
  | nil => rfl
  | cons path paths ih =>
    have hfinish : (Task.finish mode fs { path }).2 = fs := Pool.fs_follow hwrites fs [path] [0, 0]
    rw [processInTurn]
    split
    · next next houtcome =>
      rw [houtcome] at hfinish
      obtain rfl : next = fs := hfinish
      exact ih
    · next houtcome => rw [houtcome] at hfinish; exact hfinish

/-- A run that does not write leaves the file system as it is, also when it crashes. -/
theorem process_unwritten (schedule : List Nat) (fs : FileSystem) (paths : List Text) :
    (process mode schedule fs paths).2 = fs := by
  rw [process]
  split
  · exact processInTurn_unwritten hwrites fs paths
  · exact Pool.fs_follow hwrites fs paths _

end Unwritten

/-! ## What a checking run tells -/

/-- What a checking run says of a file that a writing run says this of. -/
inductive Foretells : Outcome → Outcome → Prop
  | unchanged : Foretells .unchanged .unchanged
  | changed : Foretells (.changed none) (.changed none)
  | unreadable (fault : ReadFault) : Foretells (unreadable fault) (unreadable fault)
  /-- A checking run does not check its results for equivalence. -/
  | refused (mismatch : Mismatch) :
      Foretells (.failed (Error.notEquivalent mismatch).message) (.changed none)

/-- What a run says of a readable file that has a layout. -/
theorem Judges.eq_of_formatted {path sql out : Text} {outcome : Outcome} (h : Judges mode fs path outcome)
    (hread : fs.read path = .ok sql) (hformat : formatChecked mode sql = .ok out) :
    outcome = if out = sql then .unchanged
      else .changed (if mode.diff then some (Diff.render path sql out) else none) := by
  cases h with
  | unreadable hread' => rw [hread] at hread'; cases hread'
  | refused hread' hformat' =>
    obtain rfl := Except.ok.inj (hread.symm.trans hread')
    rw [hformat] at hformat'
    cases hformat'
  | unchanged hread' hformat' =>
    obtain rfl := Except.ok.inj (hread.symm.trans hread')
    rw [if_pos (Except.ok.inj (hformat.symm.trans hformat'))]
  | changed hread' hformat' hne =>
    obtain rfl := Except.ok.inj (hread.symm.trans hread')
    obtain rfl := Except.ok.inj (hformat.symm.trans hformat')
    rw [if_neg hne]

/-- A checking run says of a readable file whether its layout is the text itself. -/
theorem told_eq {path sql out : Text} {told : Outcome} (hdiff : mode.diff = false)
    (hread : fs.read path = .ok sql) (hout : format .standard mode.style sql = some out)
    (htold : Judges { mode with check := true } fs path told) :
    told = if out = sql then .unchanged else .changed none := by
  have hformat : formatChecked { mode with check := true } sql = .ok out := by
    simp [formatChecked, hout, Mode.checksEquivalence]
  simpa [hdiff] using htold.eq_of_formatted hread hformat

/-- A file that is rewritten is reported to have changed. -/
theorem Judges.eq_changed_of_rewrites {path text : Text} {location : Location} {outcome : Outcome}
    (h : Judges mode fs path outcome) (hdiff : mode.diff = false)
    (hpath : fs.resolve path = .ok location) (hrewrites : Rewrites mode fs location text) :
    outcome = .changed none := by
  obtain ⟨content, sql, hsight, hdecode, hformat, hne, -⟩ := hrewrites
  have hread : fs.read path = .ok sql := by
    rw [FileSystem.read_of_resolve hpath, hsight]
    exact hdecode
  simpa [hne, hdiff] using h.eq_of_formatted hread hformat

theorem foretells_of_judges {path : Text} {outcome told : Outcome}
    (hs : Dialect.isLineComment mode.style.delimiter = false) (hdiff : mode.diff = false)
    (h : Judges mode fs path outcome)
    (htold : Judges { mode with check := true } fs path told) : Foretells outcome told := by
  cases h with
  | unreadable hread =>
    cases htold with
    | unreadable hread' =>
      obtain rfl := Except.error.inj (hread.symm.trans hread')
      exact .unreadable _
    | refused hread' _ | unchanged hread' _ | changed hread' _ _ =>
      rw [hread] at hread'
      cases hread'
  | @refused sql e hread hformat =>
    obtain ⟨out, hout, hok | ⟨mismatch, hmismatch, hrefused⟩⟩ := formatChecked_of_delimiter hs sql
    · rw [hok] at hformat
      cases hformat
    · obtain rfl := Except.error.inj (hrefused.symm.trans hformat)
      -- A text is equivalent to itself, so what is refused would have changed.
      have hne : out ≠ sql := by
        rintro rfl
        rw [(Equivalence.check_eq_none_iff out out).mpr rfl] at hmismatch
        cases hmismatch
      rw [told_eq hdiff hread hout htold, if_neg hne]
      exact .refused mismatch
  | @unchanged sql hread hformat =>
    obtain ⟨out, hout, hok | ⟨mismatch, -, hrefused⟩⟩ := formatChecked_of_delimiter hs sql
    · obtain rfl := Except.ok.inj (hok.symm.trans hformat)
      rw [told_eq hdiff hread hout htold, if_pos rfl]
      exact .unchanged
    · rw [hrefused] at hformat
      cases hformat
  | @changed sql out' hread hformat hne =>
    obtain ⟨out, hout, hok | ⟨mismatch, -, hrefused⟩⟩ := formatChecked_of_delimiter hs sql
    · obtain rfl := Except.ok.inj (hok.symm.trans hformat)
      rw [told_eq hdiff hread hout htold, if_neg hne, hdiff]
      exact .changed
    · rw [hrefused] at hformat
      cases hformat

theorem forall₂_foretells {results results' : List FileResult}
    (hs : Dialect.isLineComment mode.style.delimiter = false) (hdiff : mode.diff = false)
    (h : List.Forall₂
      (fun path result => result.path = path ∧ Judges mode fs path result.outcome) paths results)
    (h' : List.Forall₂ (fun path result => result.path = path ∧
      Judges { mode with check := true } fs path result.outcome) paths results') :
    List.Forall₂ (fun result result' => result.path = result'.path ∧
      Foretells result.outcome result'.outcome) results results' := by
  induction h generalizing results' with
  | nil =>
    cases h'
    exact .nil
  | cons hhead _ ih =>
    cases h' with
    | cons hhead' htail' =>
      exact .cons ⟨hhead.1.trans hhead'.1.symm,
        foretells_of_judges hs hdiff hhead.2 hhead'.2⟩ (ih htail')

end Run

open Run

theorem runUnder_eq {schedule : List Nat} {mode : Mode} {fs : FileSystem} {paths files : List Text}
    {results : List FileResult} (hfiles : Discovery.matching fs mode paths = .ok files)
    (hresults : (process mode schedule fs files).1 = some results) :
    runUnder schedule mode fs paths = (.ok ⟨results⟩, (process mode schedule fs files).2) := by
  simp only [runUnder, hfiles]
  rw [← Prod.eta (process mode schedule fs files), hresults]

/-- The effect of a run.  When the paths name different files, either they name nothing and nothing
changes, or there is one result for each file and those files change that are laid out anew. -/
theorem runUnder_effect (schedule : List Nat) (mode : Mode) (fs : FileSystem) (paths : List Text)
    (hs : Dialect.isLineComment mode.style.delimiter = false)
    (hdifferent : ∀ files, Discovery.matching fs mode paths = .ok files →
      files.Pairwise (Different fs)) :
    match Discovery.matching fs mode paths with
    | .error e => runUnder schedule mode fs paths = (.error e, fs)
    | .ok files => ∃ report after, runUnder schedule mode fs paths = (.ok report, after) ∧
        List.Forall₂ (fun path result => result.path = path ∧ Judges mode fs path result.outcome)
          files report.results ∧
        after.SameShape fs ∧
        (∀ location, after.sight location ≠ fs.sight location ↔
          ∃ path ∈ files, fs.resolve path = .ok location ∧
            ∃ text, Rewrites mode fs location text) ∧
        ∀ path ∈ files, ∀ location text, fs.resolve path = .ok location →
          Rewrites mode fs location text → after.sight location = .file (Folder.encode text) := by
  cases hfiles : Discovery.matching fs mode paths with
  | error e => simp only [runUnder, hfiles]
  | ok files =>
    obtain ⟨results, hresults, hjudges, hsettles⟩ :=
      process_effect mode schedule hs (hdifferent files hfiles)
    exact ⟨⟨results⟩, (process mode schedule fs files).2, runUnder_eq hfiles hresults, hjudges,
      hsettles.shape, hsettles.sight_ne_iff, hsettles.written⟩

theorem matching_twoFiles (check : Bool) :
    Discovery.matching twoFiles { check } [".".toList] =
      .ok ["./a.sql".toList, "./b.sql".toList] := by
  have hfound : [".".toList].mapM (Discovery.named .standard twoFiles []) =
      .ok [["./a.sql".toList, "./b.sql".toList]] := rfl
  exact Discovery.matching_eq rfl hfound (by decide) (by decide)

theorem different_twoFiles (files : List Text)
    (h : Discovery.matching twoFiles {} [".".toList] = .ok files) :
    files.Pairwise (Different twoFiles) := by
  obtain rfl := Except.ok.inj ((matching_twoFiles false).symm.trans h)
  have ha : twoFiles.resolve "./a.sql".toList = .ok ["a.sql".toList] := rfl
  have hb : twoFiles.resolve "./b.sql".toList = .ok ["b.sql".toList] := rfl
  refine List.pairwise_pair.mpr fun location hlocation => ?_
  obtain rfl := Except.ok.inj (ha.symm.trans hlocation)
  rw [hb]
  nofun

/-- Two statements are set apart in their file, whichever file is read first. -/
theorem runUnder_effect_twoFiles :
    Dialect.isLineComment (default : Style).delimiter = false ∧
      (∀ files, Discovery.matching twoFiles {} [".".toList] = .ok files →
        files.Pairwise (Different twoFiles)) ∧
      ∃ report after, runUnder [1] {} twoFiles [".".toList] = (.ok report, after) ∧
        report.results.length = 2 ∧
        after.sight ["a.sql".toList] = .file (Folder.encode "1;\n\n2".toList) := by
  have heffect := runUnder_effect [1] {} twoFiles [".".toList] (by decide) different_twoFiles
  rw [matching_twoFiles false] at heffect
  obtain ⟨report, after, hrun, hjudges, -, -, hwritten⟩ := heffect
  exact ⟨by decide, different_twoFiles, report, after, hrun, hjudges.length_eq.symm,
    hwritten _ List.mem_cons_self _ _ rfl rewrites_twoFiles⟩

/-- A checking run tells what a writing run reports.  Both fail with the same error, or they have one
result for each of the files that the paths name, in the same order, and every file that the writing
run changes is told to change.  The checking run changes nothing. -/
theorem runUnder_check (schedule schedule' : List Nat) (mode : Mode) (fs : FileSystem)
    (paths : List Text) (hs : Dialect.isLineComment mode.style.delimiter = false)
    (hdiff : mode.diff = false)
    (hdifferent : ∀ files, Discovery.matching fs mode paths = .ok files →
      files.Pairwise (Different fs)) :
    match Discovery.matching fs mode paths with
    | .error e => runUnder schedule mode fs paths = (.error e, fs) ∧
        runUnder schedule' { mode with check := true } fs paths = (.error e, fs)
    | .ok files => ∃ report after told, runUnder schedule mode fs paths = (.ok report, after) ∧
        runUnder schedule' { mode with check := true } fs paths = (.ok told, fs) ∧
        report.results.map FileResult.path = files ∧ told.results.map FileResult.path = files ∧
        List.Forall₂ (fun result result' => result.path = result'.path ∧
          Foretells result.outcome result'.outcome) report.results told.results ∧
        ∀ location, after.sight location ≠ fs.sight location →
          ∃ path, fs.resolve path = .ok location ∧
            ⟨path, .changed none⟩ ∈ report.results ∧ ⟨path, .changed none⟩ ∈ told.results := by
  have hmatching : Discovery.matching fs { mode with check := true } paths =
      Discovery.matching fs mode paths := rfl
  cases hfiles : Discovery.matching fs mode paths with
  | error e => simp only [runUnder, hmatching, hfiles, and_self]
  | ok files =>
    obtain ⟨results, hresults, hjudges, hsettles⟩ :=
      process_effect mode schedule hs (hdifferent files hfiles)
    obtain ⟨results', hresults', hjudges', -⟩ :=
      process_effect { mode with check := true } schedule' hs (hdifferent files hfiles)
    have htold := runUnder_eq (hmatching.trans hfiles) hresults'
    rw [process_unwritten rfl] at htold
    refine ⟨⟨results⟩, (process mode schedule fs files).2, ⟨results'⟩, runUnder_eq hfiles hresults,
      htold, map_path_results hjudges, map_path_results hjudges',
      forall₂_foretells hs hdiff hjudges hjudges', fun location hne => ?_⟩
    obtain ⟨path, hmem, hpath, text, hrewrites⟩ := (hsettles.sight_ne_iff location).mp hne
    obtain ⟨outcome, hresult, houtcome⟩ := exists_result hjudges hmem
    obtain ⟨outcome', hresult', houtcome'⟩ := exists_result hjudges' hmem
    obtain rfl := houtcome.eq_changed_of_rewrites hdiff hpath hrewrites
    cases foretells_of_judges hs hdiff houtcome houtcome'
    exact ⟨path, hpath, hresult, hresult'⟩

/-- Of two files the one with two statements is laid out anew, and a checking run under another schedule
has told so. -/
theorem runUnder_check_twoFiles :
    Dialect.isLineComment (default : Style).delimiter = false ∧ ({} : Mode).diff = false ∧
      (∀ files, Discovery.matching twoFiles {} [".".toList] = .ok files →
        files.Pairwise (Different twoFiles)) ∧
      ∃ report after told, runUnder [] {} twoFiles [".".toList] = (.ok report, after) ∧
        runUnder [1] { check := true } twoFiles [".".toList] = (.ok told, twoFiles) ∧
        told.results = [⟨"./a.sql".toList, .changed none⟩, ⟨"./b.sql".toList, .unchanged⟩] ∧
        report.results = told.results ∧
        after.sight ["a.sql".toList] = .file (Folder.encode "1;\n\n2".toList) := by
  have hcheck := runUnder_check [] [1] {} twoFiles [".".toList] (by decide) rfl different_twoFiles
  rw [matching_twoFiles false] at hcheck
  obtain ⟨report, after, told, hrun, htold, -⟩ := hcheck
  have hresults : (process {} [] twoFiles ["./a.sql".toList, "./b.sql".toList]).1 =
      some [⟨"./a.sql".toList, .changed none⟩, ⟨"./b.sql".toList, .unchanged⟩] := by decide +kernel
  have hresults' : (process { check := true } [1] twoFiles ["./a.sql".toList, "./b.sql".toList]).1 =
      some [⟨"./a.sql".toList, .changed none⟩, ⟨"./b.sql".toList, .unchanged⟩] := by decide +kernel
  obtain ⟨hreport, hafter⟩ :=
    Prod.mk.inj (hrun.symm.trans (runUnder_eq (matching_twoFiles false) hresults))
  obtain ⟨htold', -⟩ :=
    Prod.mk.inj (htold.symm.trans (runUnder_eq (matching_twoFiles true) hresults'))
  obtain rfl := Except.ok.inj hreport
  obtain rfl := Except.ok.inj htold'
  obtain ⟨-, -, -, hsettles⟩ :=
    process_effect {} [] (by decide) (different_twoFiles _ (matching_twoFiles false))
  refine ⟨by decide, rfl, different_twoFiles, _, after, _, hrun, htold, rfl, rfl, ?_⟩
  rw [hafter]
  exact hsettles.written _ List.mem_cons_self _ _ rfl rewrites_twoFiles

end SqlLayout
