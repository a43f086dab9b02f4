import FlowCompiler.Decode.Document
import FlowCompiler.Decode.Record

namespace FlowCompiler

/-! Branches of an organisation, and the directory in which the compiler looks them up. -/

structure Branch where
  name : String
deriving DecidableEq

inductive LookupError where
  | branchNotFound (id : String)
  | store (reason : String)
deriving DecidableEq

def LookupError.message : LookupError → String
  | .branchNotFound id => "Branch '" ++ id ++ "' not found"
  | .store reason => "Branch store error: " ++ reason

abbrev BranchLookup : Type :=
  String → Except LookupError Branch

def Branch.decode {σ : Type} [Source σ] : Decoder σ Branch :=
  Decode.Record.decoder "Branch" (Branch.mk <$> Decode.Record.required "name" Decode.text)

abbrev BranchDirectory : Type :=
  Table Branch

namespace BranchDirectory

def parse (text : String) : Except DecodeError BranchDirectory :=
  Decode.document (Decode.table Branch.decode) text

def add (directory : BranchDirectory) (id name : String) : BranchDirectory :=
  directory.insert id ⟨name⟩

def lookup (directory : BranchDirectory) : BranchLookup := fun id =>
  match directory.get? id with
  | some branch => .ok branch
  | none => .error (.branchNotFound id)

end BranchDirectory

end FlowCompiler
