import DspCheck.Files.Path

/-!
# Access to files

What the program does with files, whatever holds them: the file system, or a tree of files in
memory.  Its input and what it writes for the user belong to it, too.
-/

namespace DspCheck

/-- Why an access to a file failed. -/
inductive FileError
  | notFound
  | alreadyExists
  | notDirectory
  | isDirectory
  | nameTooLong
  /-- A name has a character in it that ends the names of the system. -/
  | nulInName
  /-- The bytes of the file are no text. -/
  | notText
  /-- Any other reason, in the words of the system. -/
  | other (reason : Text)
  deriving DecidableEq, Repr

namespace FileError

/-- The reason in words. -/
def message : FileError → Text
  | notFound => "No such file or directory (os error 2)"
  | alreadyExists => "File exists (os error 17)"
  | notDirectory => "Not a directory (os error 20)"
  | isDirectory => "Is a directory (os error 21)"
  | nameTooLong => "File name too long (os error 36)"
  | nulInName => "file name contained an unexpected NUL byte"
  | notText => "stream did not contain valid UTF-8"
  | other reason => reason

end FileError

/-- A file below a directory. -/
structure FoundFile where
  /-- The way from the directory to the file. -/
  path : Path
  /-- The bytes of the file, if they can be read. -/
  content : Except FileError ByteArray

/-- The text of bytes. -/
def decodeText (content : Except FileError ByteArray) : Except FileError Text :=
  content.bind fun bytes =>
    match Text.ofUtf8? bytes with
    | none => .error .notText
    | some t => .ok t

/-- Access to files. -/
structure FileAccess (m : Type → Type) where
  /-- The bytes of a file. -/
  read : Text → m (Except FileError ByteArray)
  /-- Whether there is a file or a directory. -/
  isPresent : Text → m Bool
  /-- Whether there is a directory. -/
  isDirectory : Text → m Bool
  /-- All files below a directory: name by name in the order of their bytes, those of an inner
  directory at its place. -/
  filesBelow : Text → m (List FoundFile)
  /-- Creating a directory in another one that is there. -/
  createDirectory : Text → m (Except FileError Unit)
  /-- Replacing the bytes of a file, or creating it. -/
  write : Text → ByteArray → m (Except FileError Unit)
  /-- Writing a text for the user. -/
  print : Text → m (Except FileError Unit)
  /-- The bytes that the program is given as its input. -/
  input : m (Except FileError ByteArray)
  /-- The directory where programs keep their configuration. -/
  configHome? : Option Text

namespace FileAccess

variable {m : Type → Type} [Monad m]

/-- The result of creating a directory that may have been there before. -/
def settle (files : FileAccess m) (path : Text) : Except FileError Unit → m (Except FileError Unit)
  | .ok () => return .ok ()
  | .error e => return if ← files.isDirectory path then .ok () else .error e

/-- Creating the first one of some directories, which the others lead to from the last one on, and
those of the others that are missing. -/
def createDirectories (files : FileAccess m) : List Text → m (Except FileError Unit)
  | [] => return .ok ()
  | path :: outer => do
      match ← files.createDirectory path with
      | .error .notFound =>
          match ← files.createDirectories outer with
          | .error e => return .error e
          | .ok () => files.settle path (← files.createDirectory path)
      | result => files.settle path result

end FileAccess
end DspCheck
