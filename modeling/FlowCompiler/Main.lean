import FlowCompiler.CommandLine

namespace FlowCompiler

/-! The program that runs the command line on the files of a disk. -/

/-- The cause of a failed operation. Where the kind of the error leaves it open, its code
tells. -/
def diskError : IO.Error → FileError
  | .noFileOrDirectory .. => .notFound
  | .alreadyExists .. => .alreadyExists
  | .inappropriateType _ 20 _ => .notDirectory
  | .inappropriateType _ 21 _ => .isDirectory
  | .invalidArgument _ 36 _ => .nameTooLong
  | other => .other (toString other)

def onDisk {α : Type} (operation : IO α) : ExceptT FileError IO α :=
  ExceptT.mk (tryCatch (Except.ok <$> operation) fun error => return .error (diskError error))

def diskFiles : FileSystem IO where
  read path := onDisk (IO.FS.readFile path)
  write path text := onDisk (IO.FS.writeFile path text)
  createDirectory path := onDisk (IO.FS.createDir path)
  isDirectory path := tryCatch (do (← IO.FS.realPath path).isDir) fun _ => return false

end FlowCompiler

def main (arguments : List String) : IO UInt32 := do
  let outcome ← FlowCompiler.CommandLine.run FlowCompiler.diskFiles arguments
  IO.print outcome.output
  for message in outcome.messages do
    IO.eprintln message
  return outcome.code
