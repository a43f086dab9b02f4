import FlowCompiler.Files.Basic
import FlowCompiler.Program.Wire

namespace FlowCompiler

/-! Storing compiled programs, each as a file of its own. -/

structure Submission where
  name : String
  location : String
deriving DecidableEq

structure SubmitError where
  name : String
  cause : FileError
deriving DecidableEq

def SubmitError.message (error : SubmitError) : String :=
  "Failed to write program '" ++ error.name ++ "': " ++ error.cause.message

def submit {m : Type → Type} [Monad m] (files : FileSystem m) (directory name : String)
    (program : Program) : ExceptT SubmitError m Submission :=
  let location := Path.join directory (name ++ ".json")
  ExceptT.adapt (SubmitError.mk name) do
    files.createDirectories directory
    files.write location program.toText
    return ⟨name, location⟩

end FlowCompiler
