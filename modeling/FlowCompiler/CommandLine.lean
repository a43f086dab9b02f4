import FlowCompiler.Compile
import FlowCompiler.Program.Tree
import FlowCompiler.Storage

namespace FlowCompiler.CommandLine

/-! The command line: compile one flow file and print or store its program. -/

/-! ## Options -/

structure Options where
  flowPath : String
  branches : Option String
  config : Option String
  /-- The directory in which the program is stored instead of being printed. -/
  out : Option String
  tree : Bool
  /-- Aliases of node types, as they are written. -/
  aliases : List String
deriving DecidableEq

structure Given where
  flowPath : Option String
  branches : Option String
  config : Option String
  out : Option String
  tree : Bool
  aliases : List String

inductive ValueOption where
  | branches
  | config
  | out
  | alias
deriving DecidableEq

def ValueOption.ofLong? : String → Option ValueOption
  | "branches" => some .branches
  | "config" => some .config
  | "out" => some .out
  | "alias" => some .alias
  | _ => none

def ValueOption.ofShort? : Char → Option ValueOption
  | 'b' => some .branches
  | 'c' => some .config
  | 'o' => some .out
  | _ => none

namespace Given

def empty : Given :=
  ⟨none, none, none, none, false, []⟩

def once {α : Type} (current : Option α) (value : α) : Option (Option α) :=
  if current.isSome then none else some (some value)

def set (given : Given) (option : ValueOption) (value : String) : Option Given :=
  match option with
  | .branches =>
      (once given.branches value).map fun branches => { given with branches }
  | .config =>
      (once given.config value).map fun config => { given with config }
  | .out => (once given.out value).map fun out => { given with out }
  | .alias => some { given with aliases := given.aliases ++ [value] }

def setTree (given : Given) : Option Given :=
  if given.tree then none else some { given with tree := true }

def setPath (given : Given) (path : String) : Option Given :=
  (once given.flowPath path).map fun flowPath => { given with flowPath }

def complete (given : Given) : Option Options := do
  let flowPath ← given.flowPath
  return {
    flowPath
    branches := given.branches
    config := given.config
    out := given.out
    tree := given.tree
    aliases := given.aliases }

end Given

def splitAssignment (text : List Char) : List Char × Option (List Char) :=
  let name := text.takeWhile (· ≠ '=')
  match text.dropWhile (· ≠ '=') with
  | [] => (name, none)
  | _ :: value => (name, some value)

def isValue (argument : String) : Bool :=
  match argument.toList with
  | '-' :: _ :: _ => false
  | _ => true

/-- Read arguments one after the other; `none` if they are not understood. Behind `--` every
argument is a path. -/
def parseFrom (options : Given) : List String → Option Given
  | [] => some options
  | argument :: rest =>
      match argument.toList with
      | ['-', '-'] => rest.foldlM Given.setPath options
      | '-' :: '-' :: body =>
          let (name, value) := splitAssignment body
          match ValueOption.ofLong? (String.ofList name), value with
          | some option, some value => do
              parseFrom (← options.set option (String.ofList value)) rest
          | some option, none =>
              match rest with
              | [] => none
              | value :: rest =>
                  if isValue value then do parseFrom (← options.set option value) rest else none
          | none, none =>
              if String.ofList name = "tree" then do parseFrom (← options.setTree) rest else none
          | none, some _ => none
      | '-' :: letter :: value =>
          match ValueOption.ofShort? letter, value with
          | none, _ => none
          | some option, [] =>
              match rest with
              | [] => none
              | value :: rest =>
                  if isValue value then do parseFrom (← options.set option value) rest else none
          | some option, '=' :: value => do
              parseFrom (← options.set option (String.ofList value)) rest
          | some option, value => do
              parseFrom (← options.set option (String.ofList value)) rest
      | _ => do parseFrom (← options.setPath argument) rest

def parse (arguments : List String) : Option Options := do
  (← parseFrom .empty arguments).complete

/-! ## Failures -/

inductive Failure where
  | unreadableFlow (path : String) (error : FileError)
  | malformedAlias (written : String)
  | load (error : LoadError)
  | unreadableBranches (path : String) (error : FileError)
  | branches (error : DecodeError)
  | unreadableSettings (path : String) (error : FileError)
  | settings (path : String) (error : DecodeError)
  | compile (error : CompileError)
  | submit (error : SubmitError)
deriving DecidableEq

namespace Failure

def branchesMessage (reason : String) : String :=
  "Failed to load branches: " ++ (LookupError.store reason).message

def settingsMessage (path reason : String) : String :=
  "Failed to load config '" ++ path ++ "': " ++ reason

def message : Failure → String
  | .unreadableFlow path error => "Failed to read flow file '" ++ path ++ "': " ++ error.message
  | .malformedAlias written => "Invalid alias '" ++ written ++ "', expected CUSTOM=BUILTIN"
  | .load error => "Failed to load flow: " ++ error.message
  | .unreadableBranches path error =>
      branchesMessage ("Could not read '" ++ path ++ "': " ++ error.message)
  | .branches error => branchesMessage error.message
  | .unreadableSettings path error => settingsMessage path error.message
  | .settings path error => settingsMessage path error.message
  | .compile error => "Compilation failed: " ++ error.message
  | .submit error => error.message

end Failure

/-! ## Runs -/

inductive Outcome where
  | misused
  | failed (failure : Failure)
  | printed (program : Program) (text : String)
  | stored (program : Program) (submission : Submission)
deriving DecidableEq

namespace Outcome

def code : Outcome → UInt32
  | .misused => 2
  | .failed _ => 1
  | .printed .. | .stored .. => 0

def output : Outcome → String
  | .printed _ text => text ++ "\n"
  | .misused | .failed _ | .stored .. => ""

def summary (program : Program) : List String := [
  "",
  "--- Summary ---",
  "Routines:     " ++ toString program.size,
  "Steps:        " ++ toString program.stepCount]

def messages : Outcome → List String
  | .misused => []
  | .failed failure => ["", "Error: " ++ failure.message]
  | .printed program _ => summary program
  | .stored program submission =>
      ("Program '" ++ submission.name ++ "' written to " ++ submission.location) ::
        summary program

end Outcome

def addAlias (aliases : Table String) (written : String) : Except Failure (Table String) :=
  match splitAssignment written.toList with
  | (custom, some builtin) =>
      .ok (aliases.insert (String.ofList custom) (String.ofList builtin))
  | (_, none) => .error (.malformedAlias written)

section Run

variable {m : Type → Type} [Monad m] (files : FileSystem m)

def orFail {ε α : Type} (failure : ε → Failure) (result : Except ε α) : ExceptT Failure m α :=
  ExceptT.mk (pure (result.mapError failure))

def readFlow (options : Options) : ExceptT Failure m Flow := do
  let text ← ExceptT.adapt (Failure.unreadableFlow options.flowPath)
    (files.read options.flowPath)
  let aliases ← orFail id (options.aliases.foldlM addAlias .empty)
  orFail .load (Flow.parse aliases text)

/-- Read the branches; without a file for them the id of the branch is its name. -/
def readBranches (flow : Flow) (path : Option String) : ExceptT Failure m BranchDirectory :=
  match path with
  | none => return BranchDirectory.add .empty flow.branchId flow.branchId
  | some path => do
      let text ← ExceptT.adapt (Failure.unreadableBranches path) (files.read path)
      orFail .branches (BranchDirectory.parse text)

def readSettings (path : Option String) : ExceptT Failure m Settings :=
  match path with
  | none => return .standard
  | some path => do
      let text ← ExceptT.adapt (Failure.unreadableSettings path) (files.read path)
      orFail (.settings path) (Settings.parse text)

def deliver (options : Options) (name : String) (program : Program) :
    ExceptT Failure m Outcome :=
  match options.out with
  | some directory => do
      let submission ← ExceptT.adapt Failure.submit (submit files directory name program)
      return .stored program submission
  | none => return .printed program (if options.tree then program.tree else program.toText)

def runWith (options : Options) : ExceptT Failure m Outcome := do
  let flow ← readFlow files options
  let branches ← readBranches files flow options.branches
  let settings ← readSettings files options.config
  let program ← orFail .compile (compile settings branches.lookup flow)
  deliver files options flow.programName program

def run (arguments : List String) : m Outcome :=
  match parse arguments with
  | none => pure .misused
  | some options => do
      match ← (runWith files options).run with
      | .ok outcome => return outcome
      | .error failure => return .failed failure

end Run

end FlowCompiler.CommandLine
