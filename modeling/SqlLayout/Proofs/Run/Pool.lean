import SqlLayout.Proofs.Run.Task

/-!
The pool under any schedule.  As long as no file that is rewritten has two tasks, every task reads
what was there before the run, so where the run ends does not depend on the order of the steps.
-/

namespace SqlLayout.Run

/-! ## Taking turns -/

section
variable {mode : Mode} {pool : Pool} {task : Task} {i : Nat}

theorem Pool.step_of_getElem? (h : pool.tasks[i]? = some task) :
    pool.step mode i =
      ⟨pool.tasks.set i (task.step mode pool.fs).1, (task.step mode pool.fs).2⟩ := by
  rw [Pool.step, h]

theorem Pool.step_of_none (h : pool.tasks[i]? = none) : pool.step mode i = pool := by
  rw [Pool.step, h]

theorem Pool.follow_append (mode : Mode) (pool : Pool) (turns more : List Nat) :
    pool.follow mode (turns ++ more) = (pool.follow mode turns).follow mode more :=
  List.foldl_append

/-- What every step keeps, a whole run keeps. -/
theorem Pool.follow_induction (mode : Mode) {P : Pool → Prop}
    (hstep : ∀ pool i, P pool → P (pool.step mode i)) (hstart : P pool) (turns : List Nat) :
    P (pool.follow mode turns) := by
  induction turns generalizing pool with
  | nil => exact hstart
  | cons i turns ih => exact ih (hstep pool i hstart)

/-- After a step the tasks have the same paths, and the one whose turn it was is closer to its
end. -/
theorem Pool.getElem?_step (mode : Mode) (pool : Pool) (i j : Nat) {task : Task}
    (h : pool.tasks[j]? = some task) :
    ∃ next, (pool.step mode i).tasks[j]? = some next ∧ next.path = task.path ∧
      next.phase.left ≤ task.phase.left - if i = j then 1 else 0 := by
  by_cases hij : i = j
  · subst hij
    obtain ⟨hi, -⟩ := List.getElem?_eq_some_iff.mp h
    refine ⟨(task.step mode pool.fs).1, ?_, Task.step_path _ _ _, ?_⟩
    · rw [Pool.step_of_getElem? h]
      exact List.getElem?_set_self hi
    · simpa using Task.left_step_le mode pool.fs task
  · refine ⟨task, ?_, rfl, by simp [hij]⟩
    cases hi : pool.tasks[i]? with
    | none => rw [Pool.step_of_none hi, h]
    | some other => rw [Pool.step_of_getElem? hi, List.getElem?_set_ne hij, h]

/-- A task gets closer to its end with every turn it takes. -/
theorem Pool.getElem?_follow (mode : Mode) (pool : Pool) (turns : List Nat) {j : Nat} {task : Task}
    (h : pool.tasks[j]? = some task) :
    ∃ last, (pool.follow mode turns).tasks[j]? = some last ∧ last.path = task.path ∧
      last.phase.left ≤ task.phase.left - turns.count j := by
  induction turns generalizing pool task with
  | nil => exact ⟨task, h, rfl, Nat.le_refl _⟩
  | cons i turns ih =>
    obtain ⟨next, hnext, hpath, hleft⟩ := pool.getElem?_step mode i j h
    obtain ⟨last, hlast, hpath', hleft'⟩ := ih (pool.step mode i) hnext
    refine ⟨last, hlast, hpath'.trans hpath, ?_⟩
    have hcount : (i :: turns).count j = turns.count j + if i = j then 1 else 0 := by
      simp [List.count_cons]
    omega

theorem Pool.map_path_step (mode : Mode) (pool : Pool) (i : Nat) :
    (pool.step mode i).tasks.map Task.path = pool.tasks.map Task.path := by
  cases hi : pool.tasks[i]? with
  | none => rw [Pool.step_of_none hi]
  | some task =>
    obtain ⟨hlt, hget⟩ := List.getElem?_eq_some_iff.mp hi
    have hmap : i < (pool.tasks.map Task.path).length := by simpa using hlt
    have hpath : (pool.tasks.map Task.path)[i] = task.path := by simp [hget]
    rw [Pool.step_of_getElem? hi, List.map_set, Task.step_path, ← hpath, List.set_getElem_self]

theorem Pool.map_path_follow (mode : Mode) (pool : Pool) (turns : List Nat) :
    (pool.follow mode turns).tasks.map Task.path = pool.tasks.map Task.path :=
  Pool.follow_induction mode (P := fun later => later.tasks.map Task.path = pool.tasks.map Task.path)
    (fun later i h => (later.map_path_step mode i).trans h) rfl turns

end

/-! ## Runs of the pool -/

section
variable {mode : Mode} {fs : FileSystem} {paths : List Text}

/-- No file that is rewritten has two tasks. -/
def Apart (mode : Mode) (fs : FileSystem) (paths : List Text) : Prop :=
  paths.Pairwise fun p q => ∀ location, fs.resolve p = .ok location →
    fs.resolve q = .ok location → ∀ text, ¬ Rewrites mode fs location text

theorem Apart.not_rewrites {paths : List Text} (h : Apart mode fs paths) {i j : Nat} {p q : Text}
    (hij : i ≠ j) (hp : paths[i]? = some p) (hq : paths[j]? = some q)
    (hpath : fs.resolve p = .ok location) (hpath' : fs.resolve q = .ok location) (text : Text) :
    ¬ Rewrites mode fs location text := by
  obtain ⟨hi, rfl⟩ := List.getElem?_eq_some_iff.mp hp
  obtain ⟨hj, rfl⟩ := List.getElem?_eq_some_iff.mp hq
  rcases Nat.lt_or_gt_of_ne hij with hlt | hgt
  · exact List.pairwise_iff_getElem.mp h i j hi hj hlt location hpath hpath' text
  · exact List.pairwise_iff_getElem.mp h j i hj hi hgt location hpath' hpath text

/-- A task that is done with writing to a file. -/
def Wrote (mode : Mode) (fs : FileSystem) (location : Location) (text : Text) (task : Task) : Prop :=
  fs.resolve task.path = .ok location ∧ Rewrites mode fs location text ∧
    task.phase = .done (.changed none)

/-- A pool under way since the file system was `fs`: each task is in the phase that it can come to
there, and the files that tasks are done with writing to are all that has changed. -/
structure Underway (mode : Mode) (fs : FileSystem) (pool : Pool) : Prop where
  shape : pool.fs.SameShape fs
  phase : ∀ task ∈ pool.tasks, task.phase = .waiting ∨ task.phase = planned mode fs task.path ∨
    task.phase = (planned mode fs task.path).ended
  written : ∀ task ∈ pool.tasks, ∀ location text, Wrote mode fs location text task →
    pool.fs.sight location = .file (Folder.encode text)
  untouched : ∀ location, (∀ task ∈ pool.tasks, ∀ text, ¬ Wrote mode fs location text task) →
    pool.fs.sight location = fs.sight location

theorem underway_start (mode : Mode) (fs : FileSystem) (paths : List Text) :
    Underway mode fs (.start fs paths) := by
  have hwaiting : ∀ task ∈ (Pool.start fs paths).tasks, task.phase = .waiting := by
    simp [Pool.start]
  refine ⟨.refl fs, fun task ht => .inl (hwaiting task ht), ?_, fun _ _ => rfl⟩
  rintro task ht location text ⟨-, -, hdone⟩
  rw [hwaiting task ht] at hdone
  cases hdone

/-- A waiting task reads what was there before the run. -/
theorem Underway.planned_eq {pool : Pool} (h : Underway mode fs pool)
    (hapart : Apart mode fs (pool.tasks.map Task.path)) {i : Nat} {task : Task}
    (hi : pool.tasks[i]? = some task) (hwaiting : task.phase = .waiting) :
    planned mode pool.fs task.path = planned mode fs task.path := by
  refine planned_congr h.shape fun location hpath => h.untouched location ?_
  rintro other hother text ⟨hpath', hrewrites, hdone⟩
  obtain ⟨j, hj⟩ := List.getElem?_of_mem hother
  have hij : i ≠ j := by
    rintro rfl
    obtain rfl : task = other := Option.some.inj (hi.symm.trans hj)
    rw [hwaiting] at hdone
    cases hdone
  exact hapart.not_rewrites hij (by simp [hi]) (by simp [hj]) hpath hpath' text hrewrites

theorem mem_set_or_eq {tasks : List Task} {i : Nat} {task other : Task}
    (hi : tasks[i]? = some task) (hother : other ∈ tasks) (next : Task) :
    other ∈ tasks.set i next ∨ other = task := by
  obtain ⟨j, hj⟩ := List.getElem?_of_mem hother
  by_cases hij : i = j
  · subst hij
    exact .inr (Option.some.inj (hj.symm.trans hi))
  · exact .inl (List.mem_of_getElem? ((List.getElem?_set_ne hij).trans hj))

/-- A task that has just read has written nothing. -/
theorem not_wrote_of_planned {location : Location} {text : Text} {task : Task}
    (h : task.phase = planned mode fs task.path) : ¬ Wrote mode fs location text task := by
  rintro ⟨hpath, hrewrites, hdone⟩
  rw [h, (planned_eq_writing_iff hpath).mpr hrewrites] at hdone
  cases hdone

/-- When a task reads, the pool stays under way. -/
theorem Underway.read {pool : Pool} (h : Underway mode fs pool) {i : Nat} {task : Task}
    (hi : pool.tasks[i]? = some task) (hwaiting : task.phase = .waiting)
    (hplanned : planned mode pool.fs task.path = planned mode fs task.path) :
    Underway mode fs ⟨pool.tasks.set i ⟨task.path, planned mode pool.fs task.path⟩, pool.fs⟩
    where
  shape := h.shape
  phase other hother := by
    obtain hother | rfl := List.mem_or_eq_of_mem_set hother
    · exact h.phase other hother
    · exact .inr (.inl hplanned)
  written other hother location text hwrote := by
    obtain hother | rfl := List.mem_or_eq_of_mem_set hother
    · exact h.written other hother location text hwrote
    · exact absurd hwrote (not_wrote_of_planned hplanned)
  untouched location hnone := by
    refine h.untouched location fun other hother text hwrote => ?_
    obtain hother | rfl := mem_set_or_eq hi hother ⟨task.path, planned mode pool.fs task.path⟩
    · exact hnone other hother text hwrote
    · rw [Wrote, hwaiting] at hwrote
      cases hwrote.2.2

/-- When a task writes, the pool stays under way. -/
theorem Underway.write {pool : Pool} (h : Underway mode fs pool) {i : Nat} {task : Task}
    {text : Text} (hi : pool.tasks[i]? = some task) (hwriting : task.phase = .writing text) :
    Underway mode fs
      ⟨pool.tasks.set i ⟨task.path, .done (.changed none)⟩, pool.fs.write task.path text⟩ := by
  have hplanned : planned mode fs task.path = .writing text := by
    have hphase := h.phase task (List.mem_of_getElem? hi)
    rw [hwriting] at hphase
    cases hp : planned mode fs task.path <;> rw [hp] at hphase <;> simp [Phase.ended] at hphase
    rw [hphase]
  obtain ⟨location, hpath, hrewrites⟩ := exists_resolve_of_planned hplanned
  obtain ⟨content, hsight⟩ : ∃ content, pool.fs.sight location = .file content := by
    obtain ⟨content, -, hsight, -⟩ := hrewrites
    exact h.shape.exists_file hsight
  have hpool : pool.fs.resolve task.path = .ok location := by
    rw [FileSystem.resolve_congr h.shape, hpath]
  have hother {other : Task} (hset : other ∈ pool.tasks.set i ⟨task.path, .done (.changed none)⟩) :
      other ∈ pool.tasks ∨ other = ⟨task.path, .done (.changed none)⟩ :=
    List.mem_or_eq_of_mem_set hset
  refine ⟨(FileSystem.sameShape_write hpool hsight text).trans h.shape, ?_, ?_, ?_⟩
  · intro other hset
    obtain hmem | rfl := hother hset
    · exact h.phase other hmem
    · exact .inr (.inr (by rw [hplanned]; rfl))
  · intro other hset place new hwrote
    rw [FileSystem.sight_write hpool hsight]
    split
    · next heq =>
      subst heq
      rw [hrewrites.unique hwrote.2.1]
    · next hne =>
      obtain hmem | rfl := hother hset
      · exact h.written other hmem place new hwrote
      · exact absurd (Except.ok.inj (hwrote.1.symm.trans hpath)) hne
  · intro place hnone
    have hself : (⟨task.path, .done (.changed none)⟩ : Task) ∈
        pool.tasks.set i ⟨task.path, .done (.changed none)⟩ :=
      List.mem_set (List.getElem?_eq_some_iff.mp hi).1 _
    have hne : place ≠ location := by
      rintro rfl
      exact hnone _ hself text ⟨hpath, hrewrites, rfl⟩
    rw [FileSystem.sight_write hpool hsight, if_neg hne]
    refine h.untouched place fun other hmem new hwrote => ?_
    obtain hset | rfl := mem_set_or_eq hi hmem ⟨task.path, .done (.changed none)⟩
    · exact hnone other hset new hwrote
    · exact hne (Except.ok.inj (hwrote.1.symm.trans hpath))

/-- A step keeps the pool under way. -/
theorem Underway.step {pool : Pool} (h : Underway mode fs pool)
    (hapart : Apart mode fs (pool.tasks.map Task.path)) (i : Nat) :
    Underway mode fs (pool.step mode i) := by
  cases hi : pool.tasks[i]? with
  | none => rwa [Pool.step_of_none hi]
  | some task =>
    obtain ⟨hlt, rfl⟩ := List.getElem?_eq_some_iff.mp hi
    rw [Pool.step_of_getElem? hi, Task.step]
    cases hphase : pool.tasks[i].phase with
    | waiting => exact h.read hi hphase (h.planned_eq hapart hi hphase)
    | writing text => exact h.write hi hphase
    | done _ | crashed => simpa using h

theorem map_path_start (fs : FileSystem) (paths : List Text) :
    (Pool.start fs paths).tasks.map Task.path = paths := by
  simp [Pool.start, Function.comp_def]

theorem underway_follow (hapart : Apart mode fs paths) (turns : List Nat) :
    Underway mode fs ((Pool.start fs paths).follow mode turns) := by
  have hrun := Pool.follow_induction mode
    (P := fun pool => Underway mode fs pool ∧ pool.tasks.map Task.path = paths)
    (fun pool i h => ⟨h.1.step (by rwa [h.2]) i, (pool.map_path_step mode i).trans h.2⟩)
    ⟨underway_start mode fs paths, map_path_start fs paths⟩ turns
  exact hrun.1

/-- A task at its end is settled, when it has read its file in the given file system. -/
theorem eq_settled {task : Task} (hphase : task.phase = .waiting ∨
      task.phase = planned mode fs task.path ∨ task.phase = (planned mode fs task.path).ended)
    (hleft : task.phase.left = 0) : task = settled mode fs task.path := by
  suffices h : task.phase = (planned mode fs task.path).ended by rw [settled, ← h]
  obtain hwaiting | hplanned | hended := hphase
  · rw [hwaiting] at hleft
    cases hleft
  · rw [hplanned] at hleft ⊢
    cases hp : planned mode fs task.path <;> rw [hp] at hleft <;> first | rfl | cases hleft
  · exact hended

/-- A task is at its end when it has had two turns. -/
theorem left_follow (mode : Mode) (fs : FileSystem) {turns : List Nat}
    (hturns : ∀ i < paths.length, 2 ≤ turns.count i) {task : Task}
    (htask : task ∈ ((Pool.start fs paths).follow mode turns).tasks) : task.phase.left = 0 := by
  obtain ⟨i, hi⟩ := List.getElem?_of_mem htask
  have hpath : paths[i]? = some task.path := by
    have hpaths := (Pool.map_path_follow mode (.start fs paths) turns).trans
      (map_path_start fs paths)
    rw [← hpaths, List.getElem?_map, hi, Option.map_some]
  have hstart : (Pool.start fs paths).tasks[i]? = some { path := task.path } := by
    simp [Pool.start, hpath]
  obtain ⟨last, hlast, -, hleft⟩ := Pool.getElem?_follow mode _ turns hstart
  obtain rfl : last = task := Option.some.inj (hlast.symm.trans hi)
  have hcount := hturns i (List.getElem?_eq_some_iff.mp hpath).1
  change last.phase.left ≤ 2 - turns.count i at hleft
  omega

/-- The file system after the tasks of some paths that nothing else got in the way of. -/
structure Settles (mode : Mode) (fs : FileSystem) (paths : List Text) (after : FileSystem) : Prop where
  shape : after.SameShape fs
  written : ∀ path ∈ paths, ∀ location text, fs.resolve path = .ok location →
    Rewrites mode fs location text → after.sight location = .file (Folder.encode text)
  untouched : ∀ location, (∀ path ∈ paths, ∀ text, fs.resolve path = .ok location →
    ¬ Rewrites mode fs location text) → after.sight location = fs.sight location

/-- Tasks settle in one way, as far as can be seen. -/
theorem Settles.sight_eq {after other : FileSystem} (h : Settles mode fs paths after)
    (h' : Settles mode fs paths other) (location : Location) :
    after.sight location = other.sight location := by
  by_cases hnone : ∀ path ∈ paths, ∀ text, fs.resolve path = .ok location →
      ¬ Rewrites mode fs location text
  · rw [h.untouched location hnone, h'.untouched location hnone]
  · simp only [Classical.not_forall, Classical.not_not] at hnone
    obtain ⟨path, hmem, text, hpath, hrewrites⟩ := hnone
    rw [h.written path hmem location text hpath hrewrites,
      h'.written path hmem location text hpath hrewrites]

/-- A pool whose tasks all have had two turns is settled. -/
theorem settles_follow (hapart : Apart mode fs paths) {turns : List Nat}
    (hturns : ∀ i < paths.length, 2 ≤ turns.count i) :
    ((Pool.start fs paths).follow mode turns).tasks = paths.map (settled mode fs) ∧
      Settles mode fs paths ((Pool.start fs paths).follow mode turns).fs := by
  have hunderway := underway_follow hapart turns
  have htasks : ((Pool.start fs paths).follow mode turns).tasks =
      paths.map (settled mode fs) := by
    have hsettled : ∀ task ∈ ((Pool.start fs paths).follow mode turns).tasks,
        task = settled mode fs task.path := fun task htask =>
      eq_settled (hunderway.phase task htask) (left_follow mode fs hturns htask)
    calc ((Pool.start fs paths).follow mode turns).tasks
      _ = ((Pool.start fs paths).follow mode turns).tasks.map
            (settled mode fs ∘ Task.path) :=
          (List.map_id _).symm.trans (List.map_congr_left hsettled)
      _ = (((Pool.start fs paths).follow mode turns).tasks.map Task.path).map
            (settled mode fs) := List.map_map.symm
      _ = paths.map (settled mode fs) := by rw [Pool.map_path_follow, map_path_start]
  refine ⟨htasks, hunderway.shape, ?_, ?_⟩
  · intro path hmem location text hpath hrewrites
    refine hunderway.written (settled mode fs path) ?_ location text ⟨hpath, hrewrites, ?_⟩
    · rw [htasks]
      exact List.mem_map_of_mem hmem
    · rw [settled, (planned_eq_writing_iff hpath).mpr hrewrites]
      rfl
  · intro location hnone
    refine hunderway.untouched location fun task hmem text hwrote => ?_
    rw [htasks] at hmem
    obtain ⟨path, hpath, rfl⟩ := List.mem_map.mp hmem
    exact hnone path hpath text hwrote.1 hwrote.2.1

theorem two_le_count_turns (schedule : List Nat) {n i : Nat} (hi : i < n) :
    2 ≤ (schedule ++ List.range n ++ List.range n).count i := by
  simp only [List.count_append, List.count_range, hi, ↓reduceIte]
  omega

/-- Under every schedule the pool settles. -/
theorem processTogether_settles (hapart : Apart mode fs paths) (schedule : List Nat) :
    (processTogether mode schedule fs paths).1 =
        (paths.map (settled mode fs)).filterMap Task.result? ∧
      Settles mode fs paths (processTogether mode schedule fs paths).2 := by
  have h := settles_follow hapart fun i hi => two_le_count_turns schedule hi
  exact ⟨by rw [processTogether, h.1], h.2⟩

end

end SqlLayout.Run
