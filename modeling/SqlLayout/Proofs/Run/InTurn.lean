import SqlLayout.Proofs.Run.Pool

/-!
Files processed one after the other.  Each task sees the files that the tasks before it left; as
long as no file that is rewritten has two tasks, those that it reads are as before the run.
-/

namespace SqlLayout.Run

variable {mode : Mode} {fs next after : FileSystem} {path : Text} {paths : List Text}

/-- The file system after the task of one file. -/
def afterTask (mode : Mode) (fs : FileSystem) (path : Text) : FileSystem :=
  (Task.finish mode fs { path }).2

theorem finish_eq (mode : Mode) (fs : FileSystem) (path : Text) :
    Task.finish mode fs { path } = (settled mode fs path, afterTask mode fs path) ∧
      Settles mode fs [path] (afterTask mode fs path) := by
  have hpool : (Pool.start fs [path]).follow mode [0, 0] =
      ⟨[(Task.finish mode fs { path }).1], afterTask mode fs path⟩ := rfl
  have hapart : Apart mode fs [path] := List.pairwise_singleton _ path
  have hturns : ∀ i < [path].length, 2 ≤ [0, 0].count i := by simp
  obtain ⟨htasks, hsettles⟩ := settles_follow hapart hturns
  rw [hpool] at htasks hsettles
  exact ⟨Prod.ext (List.singleton_inj.mp htasks) rfl, hsettles⟩

theorem processInTurn_cons_of_crashed (h : planned mode fs path = .crashed) :
    (processInTurn mode fs (path :: paths)).1 = none := by
  rw [processInTurn, (finish_eq mode fs path).1, settled, h]
  rfl

theorem processInTurn_cons (paths : List Text) (h : planned mode fs path ≠ .crashed) :
    ∃ result, (settled mode fs path).result? = some result ∧
      processInTurn mode fs (path :: paths) =
        ((processInTurn mode (afterTask mode fs path) paths).1.map (result :: ·),
          (processInTurn mode (afterTask mode fs path) paths).2) := by
  obtain ⟨outcome, houtcome⟩ := exists_ended_eq_done h
  refine ⟨⟨path, outcome⟩, by simp [Task.result?, settled, houtcome], ?_⟩
  rw [processInTurn, (finish_eq mode fs path).1, settled, houtcome]

/-- Where the first file is rewritten, none of the other tasks has to do with it. -/
def Clear (mode : Mode) (fs : FileSystem) (path : Text) (paths : List Text) : Prop :=
  ∀ other ∈ paths, ∀ location, fs.resolve path = .ok location →
    fs.resolve other = .ok location → ∀ text, ¬ Rewrites mode fs location text

theorem apart_cons : Apart mode fs (path :: paths) ↔
    Clear mode fs path paths ∧ Apart mode fs paths := List.pairwise_cons

/-- The other tasks do not see that the first has come before them. -/
theorem Settles.sight_of_clear (h : Settles mode fs [path] next)
    (hclear : Clear mode fs path paths) {other : Text} (hother : other ∈ paths)
    {location : Location} (hpath : fs.resolve other = .ok location) :
    next.sight location = fs.sight location := by
  refine h.untouched location fun first hfirst text hfirstPath => ?_
  obtain rfl := List.mem_singleton.mp hfirst
  exact hclear other hother location hfirstPath hpath text

theorem Settles.planned_eq (h : Settles mode fs [path] next)
    (hclear : Clear mode fs path paths) {other : Text} (hother : other ∈ paths) :
    planned mode next other = planned mode fs other :=
  planned_congr h.shape fun _ hpath => h.sight_of_clear hclear hother hpath

theorem Settles.apart_iff (h : Settles mode fs [path] next)
    (hclear : Clear mode fs path paths) :
    Apart mode next paths ↔ Apart mode fs paths := by
  refine List.Pairwise.iff_of_mem fun {p q} hp _ => ?_
  simp only [FileSystem.resolve_congr h.shape]
  refine forall_congr' fun location => forall_congr' fun hpath => ?_
  simp only [rewrites_congr (h.sight_of_clear hclear hp hpath)]

/-- The tasks of the first path and of the others settle one after the other. -/
theorem Settles.cons (h : Settles mode fs [path] next) (hclear : Clear mode fs path paths)
    (hrest : Settles mode next paths after) : Settles mode fs (path :: paths) after where
  shape := hrest.shape.trans h.shape
  written other hother location text hpath hrewrites := by
    obtain rfl | hother := List.mem_cons.mp hother
    · rw [← h.written other (List.mem_singleton_self _) location text hpath hrewrites]
      refine hrest.untouched location fun later hlater _ hlaterPath => ?_
      rw [FileSystem.resolve_congr h.shape] at hlaterPath
      exact absurd hrewrites (hclear later hlater location hpath hlaterPath text)
    · refine hrest.written other hother location text ?_ ?_
      · rw [FileSystem.resolve_congr h.shape, hpath]
      · rwa [rewrites_congr (h.sight_of_clear hclear hother hpath)]
  untouched location hnone := by
    have hfirst : next.sight location = fs.sight location := by
      refine h.untouched location fun other hother => ?_
      obtain rfl := List.mem_singleton.mp hother
      exact hnone other List.mem_cons_self
    rw [← hfirst]
    refine hrest.untouched location fun other hother text hpath => ?_
    rw [rewrites_congr hfirst]
    rw [FileSystem.resolve_congr h.shape] at hpath
    exact hnone other (List.mem_cons_of_mem _ hother) text hpath

/-- One after the other the tasks settle, when none of them crashes. -/
theorem processInTurn_settles (hapart : Apart mode fs paths)
    (hcrash : ∀ path ∈ paths, planned mode fs path ≠ .crashed) :
    (processInTurn mode fs paths).1 =
        some ((paths.map (settled mode fs)).filterMap Task.result?) ∧
      Settles mode fs paths (processInTurn mode fs paths).2 := by
  induction paths generalizing fs with
  | nil => exact ⟨rfl, .refl fs, by simp, fun _ _ => rfl⟩
  | cons path paths ih =>
    obtain ⟨hclear, hothers⟩ := apart_cons.mp hapart
    obtain ⟨-, hfirst⟩ := finish_eq mode fs path
    obtain ⟨result, hresult, hcons⟩ := processInTurn_cons paths
      (hcrash path List.mem_cons_self)
    have hplanned : ∀ other ∈ paths, planned mode (afterTask mode fs path) other =
        planned mode fs other := fun other hother => hfirst.planned_eq hclear hother
    obtain ⟨hresults, hsettles⟩ := ih ((hfirst.apart_iff hclear).mpr hothers) fun other hother => by
      rw [hplanned other hother]
      exact hcrash other (List.mem_cons_of_mem _ hother)
    have hsettled : paths.map (settled mode (afterTask mode fs path)) =
        paths.map (settled mode fs) :=
      List.map_congr_left fun other hother => by rw [settled, hplanned other hother, settled]
    rw [hcons]
    refine ⟨?_, hfirst.cons hclear hsettles⟩
    rw [hresults, hsettled, List.map_cons, List.filterMap_cons_some hresult]
    rfl

end SqlLayout.Run
