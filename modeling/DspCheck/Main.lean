import DspCheck.Command.Run

/-!
# The command line

`main` reads the arguments and gives the command access to the file system.  It ends with 0 if the
command succeeded, with 1 if it failed, and with 2 if the arguments name no command.
-/

namespace DspCheck
namespace Shell

/-- How the arguments are to be given. -/
def usage : Text :=
  Text.unlines [
    "Usage: " ++ programName ++ " [-c FILE] [--log-level LEVEL] COMMAND",
    "Commands:",
    "  build-catalog DIRECTORY [-o FILE]",
    "  build-error-catalog [DIRECTORY] [-o FILE]",
    "  validate FILE [--catalog FILE] [--format text|llm|json]",
    "  translate [FILE]",
    "  lookup NAME [--catalog FILE]"]

/-- The number of an error in the file system; some errors come with its negative. -/
def errorNumber (code : UInt32) : UInt32 :=
  if code < 0x80000000 then code else 0 - code

/-- The reason why the file system refused something. -/
def fileError : IO.Error → FileError
  | .noFileOrDirectory .. => .notFound
  | .alreadyExists .. => .alreadyExists
  | .inappropriateType _ code _ => if errorNumber code = 21 then .isDirectory else .notDirectory
  | .invalidArgument _ code _ => if errorNumber code = 36 then .nameTooLong else .nulInName
  | .permissionDenied .. => .other "Permission denied (os error 13)"
  | e => .other (toString e)

/-- An action on the file system that may be refused. -/
def attempt {α : Type} (action : IO α) : IO (Except FileError α) := do
  match ← action.toBaseIO with
  | .ok a => return .ok a
  | .error e => return .error (fileError e)

/-- The entry of the file system under a path. -/
def entryOf (p : Text) : IO.FS.DirEntry :=
  ⟨String.ofList p, "."⟩

/-- The name of an entry of a directory. -/
def nameOf (entry : IO.FS.DirEntry) : FileName :=
  .ofText entry.fileName.toList

/-- The entries of a directory in the order of their names. -/
def entriesOf (directory : IO.FS.DirEntry) : IO (List IO.FS.DirEntry) := do
  match ← directory.path.readDir.toBaseIO with
  | .ok entries =>
      return entries.toList.mergeSort fun a b => FileName.le (nameOf a) (nameOf b)
  | .error _ => return []

/-- All files below a directory, given the way that led to it. -/
partial def walk (way : Path) (directory : IO.FS.DirEntry) : IO (List FoundFile) := do
  let found ← (← entriesOf directory).mapM fun entry => do
    let path := way ++ [nameOf entry]
    if ← entry.path.isDir then walk path entry
    else return [⟨path, ← attempt (IO.FS.readBinFile entry.path)⟩]
  return found.flatten

/-- Whether there is a directory under a path. -/
def isDirectory (p : Text) : IO Bool :=
  if p = [] then return false else (entryOf p).path.isDir

/-- The directory where programs keep their configuration. -/
def configHome? : IO (Option Text) := do
  match ← IO.getEnv "XDG_CONFIG_HOME" with
  | some directory => return some directory.toList
  | none => return (← IO.getEnv "HOME").map fun home => home.toList ++ "/.config"

/-- Access to the file system. -/
def files (configHome? : Option Text) : FileAccess IO where
  read p := attempt (IO.FS.readBinFile (String.ofList p))
  isPresent p := do
    return (← isDirectory p) || (← attempt (IO.FS.readBinFile (String.ofList p))).toBool
  isDirectory
  filesBelow p := walk [] (entryOf p)
  createDirectory p := attempt (IO.FS.createDir (String.ofList p))
  write p bytes := attempt (IO.FS.writeBinFile (String.ofList p) bytes)
  print t := attempt do
    let out ← IO.getStdout
    out.putStr (String.ofList t)
    out.flush
  input := do attempt ((← IO.getStdin).readBinToEnd)
  configHome?

/-- Printing lines for the user, apart from the outcome. -/
def report (ls : List Text) : IO Unit := do
  (← IO.getStderr).putStr (String.ofList (Text.unlines ls))

/-- Whether warnings about files are shown. -/
def showsWarnings (logLevel : Text) : Bool :=
  logLevel ≠ "off" && logLevel ≠ "error"

end Shell
end DspCheck

open DspCheck in
/-- Runs the command that the arguments name. -/
def main (arguments : List String) : IO UInt32 := do
  match Invocation.ofArguments? (arguments.map String.toList) with
  | none =>
      IO.eprint (String.ofList Shell.usage)
      return 2
  | some i =>
      match ← (i.run (Shell.files (← Shell.configHome?))).run with
      | .error f =>
          Shell.report (Notice.ofFault f).lines
          return 1
      | .ok outcome =>
          if Shell.showsWarnings i.logLevel then
            Shell.report (outcome.warnings.map BuildWarning.display)
          return if outcome.success then 0 else 1
