import SqlLayout.Proofs.Discovery
import SqlLayout.Proofs.Run.InTurn

/-!
When the pool and the tasks in turn agree: under every schedule, exactly when no task crashes and no
file that is rewritten has two tasks.  Where a file has two, a schedule in which the second reads
before the first writes tells them apart: the second then writes what the first wrote, whereas in
turn it reads this and must leave it alone or lay it out anew.
-/

namespace SqlLayout.Run

variable {mode : Mode} {fs next : FileSystem} {path text : Text} {paths : List Text}
  {location : Location}

/-- A run of the pool has the results of a run in turn and leaves the same files, and the current
folder where it is. -/
def Agrees (together : List FileResult × FileSystem) (inTurn : Option (List FileResult) × FileSystem) :
    Prop :=
  inTurn.1 = some together.1 ∧ together.2.here = inTurn.2.here ∧
    ∀ location, together.2.sight location = inTurn.2.sight location

/-! ## The first task in front of the others -/

/-- The turns of the tasks behind the first. -/
def turnsBehind (turns : List Nat) : List Nat :=
  turns.filterMap fun
    | 0 => none
    | i + 1 => some i

/-- Behind a task at its end the others go on as on their own. -/
theorem follow_cons {first : Task} (hfirst : first.phase.left = 0) (tasks : List Task)
    (fs : FileSystem) (turns : List Nat) :
    (⟨first :: tasks, fs⟩ : Pool).follow mode turns =
      ⟨first :: ((⟨tasks, fs⟩ : Pool).follow mode (turnsBehind turns)).tasks,
        ((⟨tasks, fs⟩ : Pool).follow mode (turnsBehind turns)).fs⟩ := by
  induction turns generalizing tasks fs with
  | nil => rfl
  | cons i turns ih =>
    cases i with
    | zero =>
      have hstep : (⟨first :: tasks, fs⟩ : Pool).step mode 0 = ⟨first :: tasks, fs⟩ := by
        simp [Pool.step, Task.step_of_left mode fs hfirst]
      rw [Pool.follow, List.foldl_cons, hstep]
      exact ih tasks fs
    | succ i =>
      have hstep : (⟨first :: tasks, fs⟩ : Pool).step mode (i + 1) =
          ⟨first :: ((⟨tasks, fs⟩ : Pool).step mode i).tasks,
            ((⟨tasks, fs⟩ : Pool).step mode i).fs⟩ := by
        simp only [Pool.step, List.getElem?_cons_succ]
        cases tasks[i]? <;> rfl
      rw [Pool.follow, List.foldl_cons, hstep]
      exact ih _ _

theorem turnsBehind_range (n : Nat) : turnsBehind (List.range (n + 1)) = List.range n := by
  rw [turnsBehind, List.range_succ_eq_map, List.filterMap_cons_none rfl, List.filterMap_map]
  exact List.filterMap_some

/-- The first task carried to its end, the pool is that of the others among the files it leaves. -/
theorem processTogether_cons (schedule : List Nat) :
    processTogether mode ([0, 0] ++ schedule.map (· + 1)) fs (path :: paths) =
      ((settled mode fs path).result?.toList ++
          (processTogether mode schedule (afterTask mode fs path) paths).1,
        (processTogether mode schedule (afterTask mode fs path) paths).2) := by
  have hfirst : (Pool.start fs (path :: paths)).follow mode [0, 0] =
      ⟨settled mode fs path :: paths.map ({ path := · }), afterTask mode fs path⟩ := by
    have hfinish : (Task.finish mode fs { path }).1 = settled mode fs path :=
      congrArg Prod.fst (finish_eq mode fs path).1
    rw [← hfinish]
    rfl
  have hbehind : turnsBehind (schedule.map (· + 1)) = schedule := by
    rw [turnsBehind, List.filterMap_map]
    exact List.filterMap_some
  rw [processTogether, List.append_assoc, List.append_assoc, Pool.follow_append, hfirst,
    follow_cons (left_settled mode fs path)]
  simp only [turnsBehind, List.filterMap_append]
  rw [← turnsBehind, ← turnsBehind, hbehind, List.length_cons, turnsBehind_range,
    ← List.append_assoc]
  cases hresult : (settled mode fs path).result? with
  | none => rw [List.filterMap_cons_none hresult]; rfl
  | some result => rw [List.filterMap_cons_some hresult]; rfl

/-! ## A task that reads early -/

/-- A pool in which all tasks of the file at a location have read it or are at their end: what any
of them still writes there is the text that is already there. -/
structure Holding (fs : FileSystem) (location : Location) (text : Text) (pool : Pool) : Prop where
  shape : pool.fs.SameShape fs
  files : ∀ task ∈ pool.tasks, ∀ new, task.phase = .writing new →
    ∃ place content, fs.resolve task.path = .ok place ∧ fs.sight place = .file content
  held : pool.fs.sight location = .file (Folder.encode text)
  ended : ∀ task ∈ pool.tasks, fs.resolve task.path = .ok location →
    task.phase = .writing text ∨ task.phase.left = 0

/-- A step leaves the text that is held where it is. -/
theorem Holding.step {pool : Pool} (h : Holding fs location text pool) (i : Nat) :
    Holding fs location text (pool.step mode i) := by
  cases hi : pool.tasks[i]? with
  | none => rwa [Pool.step_of_none hi]
  | some task =>
    have htask := List.mem_of_getElem? hi
    rw [Pool.step_of_getElem? hi, Task.step]
    cases hphase : task.phase with
    | waiting =>
      refine ⟨h.shape, ?_, h.held, ?_⟩
      · intro other hother new hnew
        obtain hmem | rfl := List.mem_or_eq_of_mem_set hother
        · exact h.files other hmem new hnew
        · obtain ⟨place, hpath, content, _, hsight, -⟩ := exists_resolve_of_planned hnew
          rw [FileSystem.resolve_congr h.shape] at hpath
          obtain ⟨before, hbefore⟩ := h.shape.symm.exists_file hsight
          exact ⟨place, before, hpath, hbefore⟩
      · intro other hother hpath
        obtain hmem | rfl := List.mem_or_eq_of_mem_set hother
        · exact h.ended other hmem hpath
        · have hended := h.ended task htask hpath
          rw [hphase] at hended
          obtain hended | hended := hended <;> cases hended
    | writing new =>
      obtain ⟨place, content, hpath, hsight⟩ := h.files task htask new hphase
      obtain ⟨before, hbefore⟩ := h.shape.exists_file hsight
      have hpool : pool.fs.resolve task.path = .ok place := by
        rw [FileSystem.resolve_congr h.shape, hpath]
      refine ⟨(FileSystem.sameShape_write hpool hbefore new).trans h.shape, ?_, ?_, ?_⟩
      · intro other hother new' hnew
        obtain hmem | rfl := List.mem_or_eq_of_mem_set hother
        · exact h.files other hmem new' hnew
        · cases hnew
      · rw [FileSystem.sight_write hpool hbefore]
        split
        · next hplace =>
          subst hplace
          have hended := h.ended task htask hpath
          rw [hphase] at hended
          obtain hended | hended := hended <;> cases hended
          rfl
        · exact h.held
      · intro other hother hpath'
        obtain hmem | rfl := List.mem_or_eq_of_mem_set hother
        · exact h.ended other hmem hpath'
        · exact .inr rfl
    | done _ | crashed =>
      obtain ⟨hlt, rfl⟩ := List.getElem?_eq_some_iff.mp hi
      simpa using h

theorem Holding.follow {pool : Pool} (h : Holding fs location text pool) (turns : List Nat) :
    Holding fs location text (pool.follow mode turns) :=
  Pool.follow_induction mode (P := Holding fs location text) (fun _ i h => h.step i) h turns

/-- The pool after the task of some number has read and then the first has come to its end. -/
theorem follow_early {k : Nat} {other : Text} (hk : paths[k]? = some other) :
    (Pool.start fs (path :: paths)).follow mode [k + 1, 0, 0] =
      ⟨settled mode fs path ::
          (paths.map ({ path := · })).set k ⟨other, planned mode fs other⟩,
        afterTask mode fs path⟩ := by
  have hfinish : (Task.finish mode fs { path }).1 = settled mode fs path :=
    congrArg Prod.fst (finish_eq mode fs path).1
  have hread : (Pool.start fs (path :: paths)).step mode (k + 1) =
      ⟨{ path } :: (paths.map ({ path := · })).set k ⟨other, planned mode fs other⟩, fs⟩ := by
    simp [Pool.step, Pool.start, hk, Task.step, planned]
  rw [Pool.follow, List.foldl_cons, hread, ← hfinish]
  rfl

/-- A task that is about to write still is after a step, or has written. -/
theorem getElem?_step_of_writing {pool : Pool} {j : Nat} {task : Task}
    (hwriting : task.phase = .writing text)
    (h : pool.tasks[j]? = some task ∨ pool.tasks[j]? = some ⟨task.path, .done (.changed none)⟩)
    (i : Nat) :
    (pool.step mode i).tasks[j]? = some task ∨
      (pool.step mode i).tasks[j]? = some ⟨task.path, .done (.changed none)⟩ := by
  cases hi : pool.tasks[i]? with
  | none => rwa [Pool.step_of_none hi]
  | some other =>
    rw [Pool.step_of_getElem? hi]
    by_cases hij : i = j
    · subst hij
      rw [List.getElem?_set_self (List.getElem?_eq_some_iff.mp hi).1]
      rw [hi, Option.some.injEq, Option.some.injEq] at h
      refine .inr (congrArg some ?_)
      obtain rfl | rfl := h
      · rw [Task.step, hwriting]
      · rfl
    · rwa [List.getElem?_set_ne hij]

/-- A task that is about to write has written after its turn. -/
theorem getElem?_follow_of_writing {pool : Pool} {j : Nat} {task : Task}
    (h : pool.tasks[j]? = some task) (hwriting : task.phase = .writing text) {turns : List Nat}
    (hturn : j ∈ turns) :
    (pool.follow mode turns).tasks[j]? = some ⟨task.path, .done (.changed none)⟩ := by
  have hkept := Pool.follow_induction mode
    (P := fun pool => pool.tasks[j]? = some task ∨
      pool.tasks[j]? = some ⟨task.path, .done (.changed none)⟩)
    (fun _ i h => getElem?_step_of_writing hwriting h i) (.inl h) turns
  obtain ⟨last, hlast, -, hleft⟩ := pool.getElem?_follow mode turns h
  have hcount : 0 < turns.count j := List.count_pos_iff.mpr hturn
  obtain hstill | hdone := hkept
  · obtain rfl : last = task := Option.some.inj (hlast.symm.trans hstill)
    rw [hwriting] at hleft
    change 1 ≤ 1 - turns.count j at hleft
    omega
  · exact hdone

/-- The pool in which another task of the first file has read early holds what the first wrote. -/
theorem holding_early {k : Nat} {other : Text} (hk : paths[k]? = some other)
    (hpath : fs.resolve path = .ok location) (hpath' : fs.resolve other = .ok location)
    (hrewrites : Rewrites mode fs location text)
    (hapart : ∀ j q, paths[j]? = some q → fs.resolve q = .ok location → j = k) :
    Holding fs location text
      ⟨settled mode fs path ::
          (paths.map ({ path := · })).set k ⟨other, planned mode fs other⟩,
        afterTask mode fs path⟩ := by
  obtain ⟨-, hsettles⟩ := finish_eq mode fs path
  have hplanned : planned mode fs other = .writing text :=
    (planned_eq_writing_iff hpath').mpr hrewrites
  have hbehind {task : Task}
      (htask : task ∈ (paths.map ({ path := · })).set k ⟨other, planned mode fs other⟩) :
      task = ⟨other, .writing text⟩ ∨ ∃ j, j ≠ k ∧ ∃ q, paths[j]? = some q ∧ task = { path := q } := by
    obtain ⟨j, hj⟩ := List.getElem?_of_mem htask
    by_cases hjk : k = j
    · subst hjk
      rw [List.getElem?_set_self (by simpa using (List.getElem?_eq_some_iff.mp hk).1),
        Option.some.injEq, hplanned] at hj
      exact .inl hj.symm
    · rw [List.getElem?_set_ne hjk, List.getElem?_map] at hj
      obtain ⟨q, hq, rfl⟩ := Option.map_eq_some_iff.mp hj
      exact .inr ⟨j, Ne.symm hjk, q, hq, rfl⟩
  refine ⟨hsettles.shape, ?_,
    hsettles.written path (List.mem_singleton_self _) location text hpath hrewrites, ?_⟩
  · intro task htask new hnew
    obtain rfl | hmem := List.mem_cons.mp htask
    · have hleft := left_settled mode fs path
      rw [hnew] at hleft
      cases hleft
    · obtain rfl | ⟨_, _, q, _, rfl⟩ := hbehind hmem
      · obtain ⟨content, _, hsight, -⟩ := hrewrites
        exact ⟨location, content, hpath', hsight⟩
      · cases hnew
  · intro task htask htaskPath
    obtain rfl | hmem := List.mem_cons.mp htask
    · exact .inr (left_settled mode fs path)
    · obtain rfl | ⟨j, hjk, q, hq, rfl⟩ := hbehind hmem
      · exact .inl rfl
      · exact absurd (hapart j q hq htaskPath) hjk

theorem getElem?_filterMap_of_isSome {α β : Type} {f : α → Option β} {l : List α}
    (h : ∀ a ∈ l, (f a).isSome = true) (i : Nat) : (l.filterMap f)[i]? = l[i]?.bind f := by
  induction l generalizing i with
  | nil => rfl
  | cons a l ih =>
    obtain ⟨b, hb⟩ := Option.isSome_iff_exists.mp (h a List.mem_cons_self)
    rw [List.filterMap_cons_some hb]
    cases i with
    | zero => exact hb.symm
    | succ i => exact ih (fun a ha => h a (List.mem_cons_of_mem _ ha)) i

/-- A task that has read a file to be rewritten early reports a change. -/
theorem processTogether_early {k : Nat} {other : Text} (hk : paths[k]? = some other)
    (hplanned : planned mode fs other = .writing text) :
    (processTogether mode [k + 1, 0, 0] fs (path :: paths)).1[k + 1]? =
      some ⟨other, .changed none⟩ := by
  have hturns : ∀ i < (path :: paths).length, 2 ≤ ([k + 1, 0, 0] ++
      List.range (path :: paths).length ++ List.range (path :: paths).length).count i :=
    fun i hi => two_le_count_turns [k + 1, 0, 0] hi
  rw [processTogether, getElem?_filterMap_of_isSome fun task htask =>
    isSome_result? (left_follow mode fs hturns htask)]
  have hlength : k < paths.length := (List.getElem?_eq_some_iff.mp hk).1
  have hearly : (settled mode fs path ::
      (paths.map ({ path := · })).set k ⟨other, planned mode fs other⟩)[k + 1]? =
        some ⟨other, planned mode fs other⟩ := by
    rw [List.getElem?_cons_succ, List.getElem?_set_self (by simpa using hlength)]
  rw [List.append_assoc, Pool.follow_append, follow_early hk,
    getElem?_follow_of_writing hearly hplanned ?_]
  · rfl
  · simp only [List.length_cons, List.mem_append, List.mem_range]
    omega

/-! ## When they agree -/

/-- Where the first file is rewritten and has another task, a schedule tells the pool from the tasks
in turn. -/
theorem not_rewrites_of_agrees
    (hagrees : ∀ schedule, Agrees (processTogether mode schedule fs (path :: paths))
      (processInTurn mode fs (path :: paths)))
    (hcrash : ∀ other ∈ paths, planned mode (afterTask mode fs path) other ≠ .crashed)
    (hapart : Apart mode (afterTask mode fs path) paths) {other : Text} (hother : other ∈ paths)
    (hpath : fs.resolve path = .ok location) (hpath' : fs.resolve other = .ok location) :
    ¬ Rewrites mode fs location text := by
  intro hrewrites
  obtain ⟨k, hk⟩ := List.getElem?_of_mem hother
  obtain ⟨-, hsettles⟩ := finish_eq mode fs path
  have hplanned : planned mode fs other = .writing text :=
    (planned_eq_writing_iff hpath').mpr hrewrites
  have hfirst : planned mode fs path ≠ .crashed := by
    rw [(planned_eq_writing_iff hpath).mpr hrewrites]
    nofun
  obtain ⟨result, hresult, hcons⟩ := processInTurn_cons paths hfirst
  obtain ⟨hinTurn, hinTurnSettles⟩ := processInTurn_settles hapart hcrash
  obtain ⟨hresults, -, hsights⟩ := hagrees [k + 1, 0, 0]
  rw [hcons] at hresults hsights
  -- In turn the other task reads what the first has written, and must report a change as well.
  have hchanged : (settled mode (afterTask mode fs path) other).result? =
      some ⟨other, .changed none⟩ := by
    rw [hinTurn, Option.map_some, Option.some.injEq] at hresults
    rw [← processTogether_early hk hplanned, ← hresults, List.getElem?_cons_succ,
      getElem?_filterMap_of_isSome, List.getElem?_map, hk]
    · rfl
    · intro task htask
      obtain ⟨q, -, rfl⟩ := List.mem_map.mp htask
      exact isSome_result? (left_settled _ _ q)
  obtain ⟨new, hnew⟩ := exists_planned_of_changed hrewrites.writes hchanged
  have hnext : (afterTask mode fs path).resolve other = .ok location := by
    rw [FileSystem.resolve_congr hsettles.shape, hpath']
  have hnewRewrites := (planned_eq_writing_iff hnext).mp hnew
  -- So the file ends with another text than when the other task has read early.
  have hheld : (processTogether mode [k + 1, 0, 0] fs (path :: paths)).2.sight location =
      .file (Folder.encode text) := by
    rw [processTogether, List.append_assoc, Pool.follow_append, follow_early hk]
    refine ((holding_early hk hpath hpath' hrewrites fun j q hj hq => ?_).follow _).held
    refine Classical.byContradiction fun hjk => ?_
    rw [← FileSystem.resolve_congr hsettles.shape] at hq
    exact hapart.not_rewrites hjk hj hk hq hnext new hnewRewrites
  have hlast : (processInTurn mode (afterTask mode fs path) paths).2.sight location =
      .file (Folder.encode new) :=
    hinTurnSettles.written other hother location new hnext hnewRewrites
  have hsame : text = new := by
    have hsight := (hheld.symm.trans (hsights location)).trans hlast
    exact Folder.encode_injective (Sight.file.inj hsight)
  obtain ⟨content, sql, hsight, hdecode, -, hne, -⟩ := hnewRewrites
  rw [hsettles.written path (List.mem_singleton_self _) location text hpath hrewrites] at hsight
  rw [← Sight.file.inj hsight, Folder.decode_encode] at hdecode
  exact hne (hsame.symm.trans (Except.ok.inj hdecode))

theorem apart_of_agrees
    (hagrees : ∀ schedule, Agrees (processTogether mode schedule fs paths)
      (processInTurn mode fs paths)) :
    (∀ path ∈ paths, planned mode fs path ≠ .crashed) ∧ Apart mode fs paths := by
  induction paths generalizing fs with
  | nil => exact ⟨by simp, .nil⟩
  | cons path paths ih =>
    have hfirst : planned mode fs path ≠ .crashed := by
      intro hcrashed
      have hresults := (hagrees []).1
      rw [processInTurn_cons_of_crashed hcrashed] at hresults
      cases hresults
    obtain ⟨result, hresult, hcons⟩ := processInTurn_cons paths hfirst
    obtain ⟨-, hsettles⟩ := finish_eq mode fs path
    have hothers : ∀ schedule, Agrees
        (processTogether mode schedule (afterTask mode fs path) paths)
        (processInTurn mode (afterTask mode fs path) paths) := by
      intro schedule
      obtain ⟨hresults, hleaves⟩ := hagrees ([0, 0] ++ schedule.map (· + 1))
      rw [hcons, processTogether_cons, hresult] at hresults
      rw [hcons, processTogether_cons] at hleaves
      obtain ⟨results, hinTurn, hsame⟩ := Option.map_eq_some_iff.mp hresults
      exact ⟨hinTurn.trans (congrArg some (List.cons.inj hsame).2), hleaves⟩
    obtain ⟨hcrash, hapart⟩ := ih hothers
    have hclear : Clear mode fs path paths := fun other hother location hpath hpath' text =>
      not_rewrites_of_agrees hagrees hcrash hapart hother hpath hpath'
    have happart : Apart mode fs (path :: paths) :=
      apart_cons.mpr ⟨hclear, (hsettles.apart_iff hclear).mp hapart⟩
    refine ⟨fun other hother => ?_, happart⟩
    obtain rfl | hother := List.mem_cons.mp hother
    · exact hfirst
    · rw [← hsettles.planned_eq hclear hother]
      exact hcrash other hother

/-- Under every schedule the pool agrees with the tasks in turn, exactly when no task crashes and no
file that is rewritten has two tasks. -/
theorem agrees_iff_apart (mode : Mode) (fs : FileSystem) (paths : List Text) :
    (∀ schedule, Agrees (processTogether mode schedule fs paths)
        (processInTurn mode fs paths)) ↔
      (∀ path ∈ paths, ∀ sql, fs.read path = .ok sql →
        formatChecked mode sql ≠ .error .walkOverrun) ∧ Apart mode fs paths := by
  have hcrash : (∀ path ∈ paths, ∀ sql, fs.read path = .ok sql →
      formatChecked mode sql ≠ .error .walkOverrun) ↔
        ∀ path ∈ paths, planned mode fs path ≠ .crashed := by
    simp [planned_eq_crashed_iff]
  rw [hcrash]
  refine ⟨apart_of_agrees, fun ⟨hcrash, hapart⟩ schedule => ?_⟩
  obtain ⟨hresults, hsettles⟩ := processTogether_settles hapart schedule
  obtain ⟨hresults', hsettles'⟩ := processInTurn_settles hapart hcrash
  exact ⟨by rw [hresults, hresults'], hsettles.shape.here.trans hsettles'.shape.here.symm,
    hsettles.sight_eq hsettles'⟩

/-- A current folder with two files. -/
def twoFiles : FileSystem :=
  .ofFolder [] (.file "a.sql".toList (Folder.encode "1;2".toList)
    (.file "b.sql".toList (Folder.encode "1".toList) .empty))

theorem formatChecked_two : formatChecked {} "1;2".toList = .ok "1;\n\n2".toList :=
  Discovery.eq_ok_of_toOption (by decide +kernel)

theorem rewrites_twoFiles : Rewrites {} twoFiles ["a.sql".toList] "1;\n\n2".toList :=
  ⟨_, _, rfl, Folder.decode_encode "1;2".toList, formatChecked_two, by decide, rfl⟩

/-- The paths of a folder and of a file in it name the file twice, and the order of steps shows. -/
theorem not_agrees_twoSpellings :
    Discovery.matching twoFiles {} [".".toList, "a.sql".toList] =
        .ok ["./a.sql".toList, "./b.sql".toList, "a.sql".toList] ∧
      ¬ ∀ schedule, Agrees
        (processTogether {} schedule twoFiles
          ["./a.sql".toList, "./b.sql".toList, "a.sql".toList])
        (processInTurn {} twoFiles ["./a.sql".toList, "./b.sql".toList, "a.sql".toList]) := by
  have hfound : [".".toList, "a.sql".toList].mapM (Discovery.named .standard twoFiles []) =
      .ok [["./a.sql".toList, "./b.sql".toList], ["a.sql".toList]] := rfl
  refine ⟨Discovery.matching_eq rfl hfound (by decide) (by decide), fun hagrees => ?_⟩
  have hapart := (apart_of_agrees hagrees).2
  exact hapart.not_rewrites (i := 0) (j := 2) (by decide) rfl rfl rfl rfl _ rewrites_twoFiles

end SqlLayout.Run
