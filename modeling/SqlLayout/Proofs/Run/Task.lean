import SqlLayout.Proofs.Folder
import SqlLayout.Run

/-!
What one task does: the phase it comes to depends on the file it reads only, and whether it writes,
and what, on the location of this file.
-/

namespace SqlLayout.Run

/-- The phase of a task that reads its file in the given file system. -/
def planned (mode : Mode) (fs : FileSystem) (path : Text) : Phase :=
  .ofRead mode path (fs.read path)

/-- A task that reads the file at the location plans to write the text. -/
def Rewrites (mode : Mode) (fs : FileSystem) (location : Location) (text : Text) : Prop :=
  ∃ content sql, fs.sight location = .file content ∧ Folder.decode content = .ok sql ∧
    formatChecked mode sql = .ok text ∧ text ≠ sql ∧ mode.writes = true

namespace Phase

/-- The phase at the end of a task that has read its file. -/
def ended : Phase → Phase
  | .writing _ => .done (.changed none)
  | phase => phase

/-- The number of steps that a task still needs. -/
def left : Phase → Nat
  | .waiting => 2
  | .writing _ => 1
  | .done _ | .crashed => 0

theorem left_ofRead_le (mode : Mode) (path : Text) (source : Except ReadFault Text) :
    (ofRead mode path source).left ≤ 1 := by
  unfold ofRead
  split
  · exact Nat.zero_le _
  · split
    · exact Nat.zero_le _
    · exact Nat.le_refl _
    · exact Nat.zero_le _

end Phase

variable {mode : Mode} {fs : FileSystem} {path text : Text} {location : Location}

theorem plan_eq_write_iff {sql : Text} :
    plan mode path sql = .write text ↔
      formatChecked mode sql = .ok text ∧ text ≠ sql ∧ mode.writes = true := by
  unfold plan
  cases h : formatChecked mode sql with
  | error e => cases e <;> simp
  | ok out =>
    by_cases hsame : sql = out
    · subst hsame
      simp only [↓reduceIte, reduceCtorEq, Except.ok.injEq, false_iff, not_and]
      rintro rfl hne
      exact absurd rfl hne
    · cases hwrites : mode.writes
      · simp [hsame]
      · simp only [hsame, ↓reduceIte, Plan.write.injEq, Except.ok.injEq, and_true, iff_self_and]
        rintro rfl
        exact Ne.symm hsame

theorem ofRead_eq_writing_iff {source : Except ReadFault Text} :
    Phase.ofRead mode path source = .writing text ↔
      ∃ sql, source = .ok sql ∧ plan mode path sql = .write text := by
  cases source with
  | error fault => simp [Phase.ofRead]
  | ok sql =>
    simp only [Phase.ofRead, Except.ok.injEq, exists_eq_left']
    cases plan mode path sql <;> simp

/-- Whether a task writes, and what, depends on the location of its file only. -/
theorem planned_eq_writing_iff (hpath : fs.resolve path = .ok location) :
    planned mode fs path = .writing text ↔ Rewrites mode fs location text := by
  rw [planned, ofRead_eq_writing_iff, FileSystem.read_of_resolve hpath]
  simp only [plan_eq_write_iff]
  constructor
  · rintro ⟨sql, hread, hplan⟩
    obtain ⟨content, hsight, hdecode⟩ := Sight.eq_file_of_read hread
    exact ⟨content, sql, hsight, hdecode, hplan⟩
  · rintro ⟨content, sql, hsight, hdecode, hplan⟩
    exact ⟨sql, by rw [hsight]; exact hdecode, hplan⟩

theorem planned_ne_waiting (mode : Mode) (fs : FileSystem) (path : Text) :
    planned mode fs path ≠ .waiting := by
  intro hwaiting
  have hleft := Phase.left_ofRead_le mode path (fs.read path)
  rw [planned] at hwaiting
  rw [hwaiting] at hleft
  exact absurd hleft (by decide)

/-- A task that does not crash comes to an outcome. -/
theorem exists_ended_eq_done (h : planned mode fs path ≠ .crashed) :
    ∃ outcome, (planned mode fs path).ended = .done outcome := by
  cases hp : planned mode fs path with
  | waiting => exact absurd hp (planned_ne_waiting mode fs path)
  | writing _ => exact ⟨_, rfl⟩
  | done outcome => exact ⟨outcome, rfl⟩
  | crashed => exact absurd hp h

theorem exists_resolve_of_planned (h : planned mode fs path = .writing text) :
    ∃ location, fs.resolve path = .ok location ∧ Rewrites mode fs location text := by
  obtain ⟨sql, hread, -⟩ := ofRead_eq_writing_iff.mp h
  obtain ⟨location, -, hpath, -⟩ := FileSystem.exists_sight_of_read hread
  exact ⟨location, hpath, (planned_eq_writing_iff hpath).mp h⟩

theorem Rewrites.unique {other : Text} (h : Rewrites mode fs location text)
    (h' : Rewrites mode fs location other) : text = other := by
  obtain ⟨content, sql, hsight, hdecode, hformat, -⟩ := h
  obtain ⟨content', sql', hsight', hdecode', hformat', -⟩ := h'
  obtain rfl : content = content' := by simpa [hsight] using hsight'
  obtain rfl : sql = sql' := Except.ok.inj (hdecode.symm.trans hdecode')
  exact Except.ok.inj (hformat.symm.trans hformat')

theorem Rewrites.writes (h : Rewrites mode fs location text) : mode.writes = true := by
  obtain ⟨-, -, -, -, -, -, hwrites⟩ := h
  exact hwrites

/-- What a task plans depends on nothing but the file it reads. -/
theorem planned_congr {other : FileSystem} (hshape : other.SameShape fs)
    (hsight : ∀ location, fs.resolve path = .ok location →
      other.sight location = fs.sight location) :
    planned mode other path = planned mode fs path := by
  rw [planned, planned, FileSystem.read_congr hshape hsight]

theorem rewrites_congr {other : FileSystem} (h : other.sight location = fs.sight location) :
    Rewrites mode other location text ↔ Rewrites mode fs location text := by
  rw [Rewrites, Rewrites, h]

/-! ## Crashes and outcomes -/

theorem plan_eq_overrun_iff (path : Text) {sql : Text} :
    plan mode path sql = .overrun ↔ formatChecked mode sql = .error .walkOverrun := by
  unfold plan
  cases formatChecked mode sql with
  | error e => cases e <;> simp
  | ok out =>
    simp only [reduceCtorEq, iff_false]
    split
    · simp
    · split <;> simp

theorem planned_eq_crashed_iff :
    planned mode fs path = .crashed ↔
      ∃ sql, fs.read path = .ok sql ∧ formatChecked mode sql = .error .walkOverrun := by
  rw [planned]
  cases fs.read path with
  | error fault => simp [Phase.ofRead]
  | ok sql =>
    simp only [Phase.ofRead, Except.ok.injEq, exists_eq_left', ← plan_eq_overrun_iff path]
    cases plan mode path sql <;> simp

/-- What a run says about a file. -/
inductive Judges (mode : Mode) (fs : FileSystem) (path : Text) : Outcome → Prop
  | unreadable {fault : ReadFault} (hread : fs.read path = .error fault) :
      Judges mode fs path (unreadable fault)
  | refused {sql : Text} {e : Error} (hread : fs.read path = .ok sql)
      (hformat : formatChecked mode sql = .error e) : Judges mode fs path (.failed e.message)
  | unchanged {sql : Text} (hread : fs.read path = .ok sql)
      (hformat : formatChecked mode sql = .ok sql) : Judges mode fs path .unchanged
  | changed {sql out : Text} (hread : fs.read path = .ok sql)
      (hformat : formatChecked mode sql = .ok out) (hne : out ≠ sql) :
      Judges mode fs path
        (.changed (if mode.diff then some (Diff.render path sql out) else none))

/-- The task of a path at its end, when it has read its file in the given file system. -/
def settled (mode : Mode) (fs : FileSystem) (path : Text) : Task :=
  ⟨path, (planned mode fs path).ended⟩

theorem left_settled (mode : Mode) (fs : FileSystem) (path : Text) :
    (settled mode fs path).phase.left = 0 := by
  rw [settled]
  cases hp : planned mode fs path with
  | waiting => exact absurd hp (planned_ne_waiting mode fs path)
  | writing _ | done _ | crashed => rfl

theorem isSome_result? {task : Task} (h : task.phase.left = 0) : task.result?.isSome = true := by
  rw [Task.result?]
  cases hp : task.phase <;> rw [hp] at h <;> first | rfl | cases h

theorem Task.step_path (mode : Mode) (fs : FileSystem) (task : Task) :
    (task.step mode fs).1.path = task.path := by
  unfold Task.step
  split <;> rfl

theorem Task.left_step_le (mode : Mode) (fs : FileSystem) (task : Task) :
    (task.step mode fs).1.phase.left ≤ task.phase.left - 1 := by
  unfold Task.step
  split
  · next h => rw [h]; exact Phase.left_ofRead_le _ _ _
  · next h => rw [h]; exact Nat.le_refl _
  · next h => rw [h]; exact Nat.le_refl _
  · next h => rw [h]; exact Nat.le_refl _

/-- A task at its end takes no more steps. -/
theorem Task.step_of_left (mode : Mode) (fs : FileSystem) {task : Task} (h : task.phase.left = 0) :
    task.step mode fs = (task, fs) := by
  unfold Task.step
  split
  · next hp => rw [hp] at h; cases h
  · next hp => rw [hp] at h; cases h
  · rfl
  · rfl

/-- The outcome of a task that does not crash. -/
theorem exists_judges (h : planned mode fs path ≠ .crashed) :
    ∃ outcome, (settled mode fs path).result? = some ⟨path, outcome⟩ ∧
      Judges mode fs path outcome := by
  simp only [settled, planned] at h ⊢
  cases hread : fs.read path with
  | error fault => exact ⟨_, rfl, .unreadable hread⟩
  | ok sql =>
    rw [hread] at h
    simp only [Phase.ofRead, plan] at h ⊢
    cases hformat : formatChecked mode sql with
    | error e =>
      rw [hformat] at h
      cases e with
      | walkOverrun => exact absurd rfl h
      | _ => exact ⟨_, rfl, .refused hread hformat⟩
    | ok out =>
      by_cases hsame : sql = out
      · subst hsame
        exact ⟨.unchanged, by simp [Task.result?, Phase.ended], .unchanged hread hformat⟩
      · refine ⟨_, ?_, .changed hread hformat (Ne.symm hsame)⟩
        cases hwrites : mode.writes with
        | false => simp [hsame, Task.result?, Phase.ended]
        | true =>
          have hdiff : mode.diff = false := by
            simp only [Mode.writes, Bool.and_eq_true, Bool.not_eq_true'] at hwrites
            exact hwrites.2
          simp [hsame, Task.result?, Phase.ended, hdiff]

/-- A task that reports a change has laid out its file anew. -/
theorem Judges.exists_of_changed {outcome : Outcome} {diff : Option Text}
    (h : Judges mode fs path outcome) (hchanged : outcome = .changed diff) :
    ∃ sql out, fs.read path = .ok sql ∧ formatChecked mode sql = .ok out ∧ out ≠ sql := by
  cases h with
  | unreadable _ | refused _ _ | unchanged _ _ => cases hchanged
  | changed hread hformat hne => exact ⟨_, _, hread, hformat, hne⟩

/-- Where files are written, a task that reports a change has written. -/
theorem exists_planned_of_changed (hwrites : mode.writes = true)
    (h : (settled mode fs path).result? = some ⟨path, .changed none⟩) :
    ∃ new, planned mode fs path = .writing new := by
  have hcrash : planned mode fs path ≠ .crashed := by
    intro hcrash
    rw [settled, hcrash] at h
    cases h
  obtain ⟨outcome, hresult, hjudges⟩ := exists_judges hcrash
  rw [h, Option.some.injEq, FileResult.mk.injEq] at hresult
  obtain ⟨sql, out, hread, hformat, hne⟩ := hjudges.exists_of_changed hresult.2.symm
  exact ⟨out, ofRead_eq_writing_iff.mpr ⟨sql, hread, plan_eq_write_iff.mpr ⟨hformat, hne, hwrites⟩⟩⟩

end SqlLayout.Run
