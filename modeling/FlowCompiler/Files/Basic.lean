import FlowCompiler.Files.Path

namespace FlowCompiler

/-! Operations on text files, as a record. What is built from them works on a disk as well as
on files in memory. -/

inductive FileError where
  | notFound
  | alreadyExists
  | notDirectory
  | isDirectory
  | nameTooLong
  | nullInPath
  | other (reason : String)
deriving DecidableEq

def FileError.message : FileError → String
  | .notFound => "No such file or directory"
  | .alreadyExists => "File exists"
  | .notDirectory => "Not a directory"
  | .isDirectory => "Is a directory"
  | .nameTooLong => "File name too long"
  | .nullInPath => "file name contained an unexpected NUL byte"
  | .other reason => reason

structure FileSystem (m : Type → Type) where
  read : (path : String) → ExceptT FileError m String
  write : (path text : String) → ExceptT FileError m Unit
  createDirectory : (path : String) → ExceptT FileError m Unit
  isDirectory : (path : String) → m Bool

namespace FileSystem

variable {m : Type → Type} [Monad m] (files : FileSystem m)

def unlessDirectory (path : String) (error : FileError) : ExceptT FileError m Unit := do
  unless ← files.isDirectory path do throw error

/-- Make the first of these directories, each of which lies in the next. Those that are missing
above it are made before it. -/
def createAlong : List String → ExceptT FileError m Unit
  | [] => return ()
  | path :: above =>
      tryCatch (files.createDirectory path) fun error =>
        if error = .notFound then do
          createAlong above
          tryCatch (files.createDirectory path) (files.unlessDirectory path)
        else files.unlessDirectory path error

def createDirectories (path : String) : ExceptT FileError m Unit :=
  if path.isEmpty then return () else files.createAlong (Path.upwards path)

end FileSystem

end FlowCompiler
