import FlowCompiler.Files.Basic
import FlowCompiler.Table

namespace FlowCompiler

/-! Files in memory: a tree of directories, in which paths are followed name by name. -/

inductive FileTree where
  | file (text : String)
  | directory (entries : List (String × FileTree))

namespace FileTree

def empty : FileTree :=
  .directory []

def isDirectory : FileTree → Bool
  | .file _ => false
  | .directory _ => true

def put (added : FileTree) : (place : List String) → FileTree → FileTree
  | [], _ => added
  | _ :: _, .file text => .file text
  | name :: rest, .directory entries =>
      let inner := (Entries.get? name entries).getD .empty
      .directory (Entries.insert name (put added rest inner) entries)

end FileTree

structure FileStore where
  root : FileTree

namespace FileStore

def empty : FileStore :=
  ⟨.empty⟩

/-! ## Following paths -/

abbrev Trail : Type :=
  List (String × FileTree)

def reached (store : FileStore) : Trail → FileTree
  | [] => store.root
  | (_, tree) :: _ => tree

def place (trail : Trail) : List String :=
  (trail.map Prod.fst).reverse

/-! Names and paths are limited in bytes. -/

def nameLimit : Nat := 255

def pathLimit : Nat := 4095

/-- Follow names from the end of a trail. Above the directory in which paths start there is
only that directory itself. -/
def follow (store : FileStore) (trail : Trail) : List String → Except FileError Trail
  | [] => .ok trail
  | name :: rest =>
      match store.reached trail with
      | .file _ => .error .notDirectory
      | .directory entries =>
          if name = "." then store.follow trail rest
          else if name = ".." then store.follow trail.tail rest
          else if nameLimit < name.utf8ByteSize then .error .nameTooLong
          else
            match Entries.get? name entries with
            | some tree => store.follow ((name, tree) :: trail) rest
            | none => .error .notFound

def checkedNames (path : String) : Except FileError (List String) :=
  if '\x00' ∈ path.toList then .error .nullInPath
  else if path.isEmpty then .error .notFound
  else if pathLimit < path.utf8ByteSize then .error .nameTooLong
  else .ok (Path.names path)

def find (store : FileStore) (path : String) : Except FileError FileTree := do
  let names ← checkedNames path
  let trail ← store.follow [] (if Path.endsWithSlash path then names ++ ["."] else names)
  return store.reached trail

structure Slot where
  place : List String
  present : Option FileTree

def slot (store : FileStore) (path : String) : Except FileError Slot := do
  let names ← checkedNames path
  match names.getLast? with
  | none => return ⟨[], some store.root⟩
  | some name =>
      let trail ← store.follow [] names.dropLast
      match store.reached trail with
      | .file _ => throw .notDirectory
      | .directory entries =>
          if name = "." ∨ name = ".." then return ⟨place trail, some (.directory entries)⟩
          else if nameLimit < name.utf8ByteSize then throw .nameTooLong
          else return ⟨place trail ++ [name], Entries.get? name entries⟩

/-! ## Operations -/

def put (store : FileStore) (place : List String) (tree : FileTree) : FileStore :=
  ⟨FileTree.put tree place store.root⟩

def read (store : FileStore) (path : String) : Except FileError String := do
  match ← store.find path with
  | .file text => return text
  | .directory _ => throw .isDirectory

def write (store : FileStore) (path text : String) : Except FileError FileStore := do
  let slot ← store.slot path
  if slot.present.any FileTree.isDirectory || Path.endsWithSlash path then throw .isDirectory
  return store.put slot.place (.file text)

def createDirectory (store : FileStore) (path : String) : Except FileError FileStore := do
  let slot ← store.slot path
  if slot.present.isSome then throw .alreadyExists
  return store.put slot.place .empty

def isDirectory (store : FileStore) (path : String) : Bool :=
  match store.find path with
  | .ok tree => tree.isDirectory
  | .error _ => false

def advance (operation : FileStore → Except FileError FileStore) :
    ExceptT FileError (StateM FileStore) Unit := fun store =>
  match operation store with
  | .ok store => (.ok (), store)
  | .error error => (.error error, store)

def fileSystem : FileSystem (StateM FileStore) where
  read path := fun store => (store.read path, store)
  write path text := advance fun store => store.write path text
  createDirectory path := advance fun store => store.createDirectory path
  isDirectory path := fun store => (store.isDirectory path, store)

end FileStore

end FlowCompiler
