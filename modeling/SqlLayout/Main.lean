import SqlLayout.CommandLine.Invocation

/-!
The outer layer: takes the current folder, the settings of the user and the standard input as
values, carries out the request on them, and puts what changed back.  Of the file system only the
current folder is taken, at its place.  Links are not followed.
-/

namespace SqlLayout.Program

/-- The current folder as a value.  Files that cannot be read are left out. -/
partial def snapshot (entries : Array IO.FS.DirEntry) : IO Folder := do
  let mut folder := Folder.empty
  for entry in entries do
    let name := entry.fileName.toList
    try
      let data ← entry.path.symlinkMetadata
      match data.type with
      | .dir => folder := .folder name (← snapshot (← entry.path.readDir)) folder
      | .file => folder := .file name (← IO.FS.readBinFile entry.path) folder
      | _ => pure ()
    catch _ => pure ()
  return folder

/-- The settings of the user, from the folder that the environment names. -/
def userSettings : IO (Option ByteArray) := do
  let folder ← match ← IO.getEnv "XDG_CONFIG_HOME" with
    | some folder => pure (some folder)
    | none => pure ((← IO.getEnv "HOME").map (· ++ "/.config"))
  match folder with
  | none => return none
  | some folder =>
    try
      return some (← IO.FS.readBinFile (folder ++ "/sqltidy/sqltidy.toml"))
    catch _ => return none

/-- All bytes of a stream. -/
partial def readAll (stream : IO.FS.Stream) (sofar : ByteArray) : IO ByteArray := do
  let chunk ← stream.read 65536
  if chunk.isEmpty then return sofar else readAll stream (sofar ++ chunk)

/-- The standard input, when a request reads it. -/
def standardInput (arguments : List Text) : IO ByteArray := do
  match CommandLine.Request.parse arguments with
  | .ok request =>
    if request.files = [['-']] then readAll (← IO.getStdin) ByteArray.empty
    else return ByteArray.empty
  | .error _ => return ByteArray.empty

/-- Carries out the arguments and returns the exit code. -/
def run (arguments : List Text) : IO UInt32 := do
  let here ← IO.currentDir
  let folder ← snapshot (← here.readDir)
  let fs := FileSystem.ofFolder (Folder.locationOf here.toString.toList) folder
  let input ← standardInput arguments
  let noColorSet := (← IO.getEnv "NO_COLOR").isSome
  let result := CommandLine.invoke arguments ⟨⟨fs, ← userSettings⟩, input, noColorSet⟩
  for change in Folder.changes fs.root result.fs.root do
    IO.FS.writeBinFile (String.ofList ('/' :: change.1)) change.2
  IO.print (String.ofList result.output)
  IO.eprint (String.ofList result.messages)
  return UInt32.ofNat result.code

end SqlLayout.Program

/-- The command line program. -/
def main (arguments : List String) : IO UInt32 :=
  SqlLayout.Program.run (arguments.map String.toList)
