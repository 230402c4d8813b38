import SqlLayout.Diff
import SqlLayout.Discovery
import SqlLayout.Layout
import SqlLayout.Report

/-!
A run lays out every SQL file that its paths name.  Each file has a task: it reads the whole file,
plans and, when the plan says so, writes; an error of one file does not stop the others.  The tasks
are carried out one after the other, or by a pool of workers that takes their steps in any order.
-/

namespace SqlLayout

/-- The text laid out in the style of the mode, checked for equivalence when the mode asks. -/
def formatChecked (mode : Mode) (sql : Text) : Except Error Text :=
  match format Dialect.standard mode.style sql with
  | none => .error .walkOverrun
  | some out =>
    if mode.checksEquivalence then
      match Equivalence.check sql out with
      | some mismatch => .error (.notEquivalent mismatch)
      | none => .ok out
    else .ok out

namespace Run

/-- What remains to be done for a file once its text is laid out. -/
inductive Plan where
  | done (outcome : Outcome)
  | write (text : Text)
  /-- The walk over the tokens ran past the last one, which stops the task for good. -/
  | overrun
  deriving DecidableEq, Repr

/-- The plan for a file with the given text. -/
def plan (mode : Mode) (path sql : Text) : Plan :=
  match formatChecked mode sql with
  | .error .walkOverrun => .overrun
  | .error e => .done (.failed e.message)
  | .ok out =>
    if sql = out then .done .unchanged
    else if mode.writes then .write out
    else .done (.changed (if mode.diff then some (Diff.render path sql out) else none))

/-! ## Tasks -/

/-- How far the task for a file has come. -/
inductive Phase where
  | waiting
  /-- The file is read and planned; this text is to be written. -/
  | writing (text : Text)
  | done (outcome : Outcome)
  | crashed
  deriving DecidableEq, Repr

/-- The outcome for a file that cannot be read. -/
def unreadable (fault : ReadFault) : Outcome := .failed ("Read error: ".toList ++ fault.message)

/-- The phase of a task that has read its file. -/
def Phase.ofRead (mode : Mode) (path : Text) : Except ReadFault Text → Phase
  | .error fault => .done (unreadable fault)
  | .ok sql =>
    match plan mode path sql with
    | .done outcome => .done outcome
    | .write text => .writing text
    | .overrun => .crashed

/-- The task for one file. -/
structure Task where
  path : Text
  phase : Phase := .waiting
  deriving DecidableEq, Repr

namespace Task

/-- The next step of a task: it reads and plans, then it writes. -/
def step (mode : Mode) (fs : FileSystem) (task : Task) : Task × FileSystem :=
  match task.phase with
  | .waiting => ({ task with phase := .ofRead mode task.path (fs.read task.path) }, fs)
  | .writing text => ({ task with phase := .done (.changed none) }, fs.write task.path text)
  | .done _ | .crashed => (task, fs)

/-- Carries a task to its end. -/
def finish (mode : Mode) (fs : FileSystem) (task : Task) : Task × FileSystem :=
  let first := task.step mode fs
  first.1.step mode first.2

/-- What a task says about its file, once it is at its end. -/
def result? (task : Task) : Option FileResult :=
  match task.phase with
  | .done outcome => some ⟨task.path, outcome⟩
  | .crashed => some ⟨task.path, .failed "formatting task failed".toList⟩
  | .waiting | .writing _ => none

end Task

/-- Processes files one after the other.  A task that crashes takes the run with it: there is no
result then. -/
def processInTurn (mode : Mode) (fs : FileSystem) : List Text → Option (List FileResult) × FileSystem
  | [] => (some [], fs)
  | path :: paths =>
    match Task.finish mode fs { path } with
    | (⟨_, .done outcome⟩, next) =>
      let rest := processInTurn mode next paths
      (rest.1.map (⟨path, outcome⟩ :: ·), rest.2)
    | (_, next) => (none, next)

/-! ## The pool -/

/-- Tasks under way in a file system. -/
structure Pool where
  tasks : List Task
  fs : FileSystem

namespace Pool

/-- The pool for the files at the given paths, before the first step. -/
def start (fs : FileSystem) (paths : List Text) : Pool := ⟨paths.map fun path => { path }, fs⟩

/-- The task of the given number takes its next step. -/
def step (mode : Mode) (pool : Pool) (i : Nat) : Pool :=
  match pool.tasks[i]? with
  | none => pool
  | some task =>
    let next := task.step mode pool.fs
    ⟨pool.tasks.set i next.1, next.2⟩

/-- The tasks take steps in the given order. -/
def follow (mode : Mode) (pool : Pool) (turns : List Nat) : Pool := turns.foldl (step mode) pool

end Pool

/-- Processes files at the same time: the tasks take steps in the order of the schedule, and then
each of them as many as it still needs. -/
def processTogether (mode : Mode) (schedule : List Nat) (fs : FileSystem) (paths : List Text) :
    List FileResult × FileSystem :=
  let all := List.range paths.length
  let pool := (Pool.start fs paths).follow mode (schedule ++ all ++ all)
  (pool.tasks.filterMap Task.result?, pool.fs)

/-- Processes files under a schedule for the pool, which only several files get. -/
def process (mode : Mode) (schedule : List Nat) (fs : FileSystem) (paths : List Text) :
    Option (List FileResult) × FileSystem :=
  if mode.singleProcess || paths.length ≤ 1 then processInTurn mode fs paths
  else
    let together := processTogether mode schedule fs paths
    (some together.1, together.2)

end Run

/-- Lays out the SQL files that the paths name, under a schedule for the pool.  The result is the
report, or why there is none, and the file system after the run. -/
def runUnder (schedule : List Nat) (mode : Mode) (fs : FileSystem) (paths : List Text) :
    Except Error Report × FileSystem :=
  match Discovery.matching fs mode paths with
  | .error e => (.error e, fs)
  | .ok files =>
    match Run.process mode schedule fs files with
    | (some results, after) => (.ok ⟨results⟩, after)
    | (none, after) => (.error .walkOverrun, after)

/-- Lays out the SQL files that the paths name; where there is a pool, all its tasks read before
one of them writes. -/
def run (mode : Mode) (fs : FileSystem) (paths : List Text) : Except Error Report × FileSystem :=
  runUnder [] mode fs paths

end SqlLayout
