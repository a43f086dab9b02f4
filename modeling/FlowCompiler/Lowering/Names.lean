import FlowCompiler.Flow.Basic
import FlowCompiler.Lowering.Walk

namespace FlowCompiler

/-! Names for the visits of a walk. Visits are numbered in the order of the walk, so that the
same flow always gets the same names, and a number never occurs twice. -/

structure Names where
  number : Nat
  /-- The variable with the result of the node; also names the block of the node. -/
  result : String
  /-- The word that leads the names of routines. -/
  stem : String
deriving DecidableEq

namespace Names

def step (names : Names) (suffix : String) : String :=
  names.result ++ "_" ++ suffix

def routine (names : Names) (slug : String) : String :=
  names.stem ++ "_" ++ toString names.number ++ "_" ++ slug

def ofNode (number : Nat) (node : Node) : Names where
  number := number
  result := Text.identifierOr node.kind.stem node.title ++ "_" ++ toString number
  stem := node.kind.stem

end Names

structure Visit where
  node : Node
  names : Names

/-- The state of name generation: the last number that was given away, and the names that are kept
for the next visit of a node, by the id of the node. Numbers are taken to be unbounded: fewer than
`2 ^ 32` names are given away. -/
structure NameSource where
  last : Nat
  reserved : Table Names

namespace NameSource

def start : NameSource :=
  ⟨0, .empty⟩

def fresh (source : NameSource) (node : Node) : Names × NameSource :=
  (Names.ofNode (source.last + 1) node, { source with last := source.last + 1 })

def reserve (source : NameSource) (node : Node) : Names × NameSource :=
  match source.reserved.get? node.id with
  | some names => (names, source)
  | none =>
      let (names, source) := source.fresh node
      (names, { source with reserved := source.reserved.insert node.id names })

def take (source : NameSource) (node : Node) : Names × NameSource :=
  match source.reserved.get? node.id with
  | some names => (names, { source with reserved := source.reserved.erase node.id })
  | none => source.fresh node

def visit (source : NameSource) (node : Node) : Visit × NameSource :=
  let (names, source) := source.take node
  (⟨node, names⟩, source)

end NameSource

namespace Walk

mutual
def name (source : NameSource) : Walk Node → Walk Visit × NameSource
  | .done => (.done, source)
  | .terminal node =>
      let (visit, source) := source.visit node
      (.terminal visit, source)
  | .action node settings next =>
      let (visit, source) := source.visit node
      let (next, source) := name source next
      (.action visit settings next, source)
  | .fork node settings exits =>
      let (visit, source) := source.visit node
      let (exits, source) := nameExits source exits
      (.fork visit settings exits, source)
  | .subflow node settings exits next =>
      let (visit, source) := source.visit node
      let (exits, source) := nameExits source exits
      let (next, source) := name source next
      (.subflow visit settings exits next, source)
  | .loop node settings body next =>
      let (visit, source) := source.visit node
      let (body, source) := name source body
      let (next, source) := name source next
      (.loop visit settings body next, source)

def nameExits (source : NameSource) :
    List (Exit × Option (Walk Node)) → List (Exit × Option (Walk Visit)) × NameSource
  | [] => ([], source)
  | (exit, none) :: rest =>
      let (rest, source) := nameExits source rest
      ((exit, none) :: rest, source)
  | (exit, some walk) :: rest =>
      let (walk, source) := name source walk
      let (rest, source) := nameExits source rest
      ((exit, some walk) :: rest, source)
end

end Walk

end FlowCompiler
