import FlowCompiler.Flow.Graph
import FlowCompiler.Lowering.Walk

namespace FlowCompiler

/-! Unfolding a graph into a walk. Along a path no id may occur twice, so the ids that are
still unused on the path bound the depth of the recursion. -/

inductive WalkError where
  | cycleDetected (nodeId : String)
  | nestedLoop (loopId nestedId : String)
  | unterminatedLoop (loopId : String)
deriving DecidableEq

def WalkError.message : WalkError → String
  | .cycleDetected nodeId =>
      "Node '" ++ nodeId ++ "' is reached again from its own continuation outside of a loop"
  | .nestedLoop loopId nestedId =>
      "Loop '" ++ loopId ++ "' contains the nested loop '" ++ nestedId ++
        "', which is not supported"
  | .unterminatedLoop loopId => "Loop '" ++ loopId ++ "' never reaches a loop end marker"

theorem length_erase_lt {id : String} {ids : List String} (member : id ∈ ids) :
    (ids.erase id).length < ids.length := by
  rw [List.length_erase_of_mem member]
  exact Nat.sub_lt (List.length_pos_of_mem member) Nat.one_pos

namespace Graph

/-! ## Loop bodies -/

/-! What a search through a loop body has found: the ids it has met, the nodes of the body in the
order of their first visits, and the first end marker. -/

structure BodySearch where
  visited : List String
  body : List Node
  finish : Option Node

/-- Search a loop body depth first from `node` on, through all outlets. End markers close the
loop; a second one is passed by. `unused` holds the ids that are neither the start of the loop
nor on the path to `node`; paths that meet again share what follows. -/
def searchBody (graph : Graph) (loopId : String) (unused : List String) (found : BodySearch)
    (node : Node) : Except WalkError BodySearch :=
  if _fresh : node.id ∈ unused then
    if node.id ∈ found.visited then .ok found
    else
      let visited := node.id :: found.visited
      match node.kind with
      | .loopEnd => .ok { found with visited, finish := found.finish.or (some node) }
      | .loopStart _ => .error (.nestedLoop loopId node.id)
      | _ =>
          (graph.followed node).foldlM
            (fun found next => graph.searchBody loopId (unused.erase node.id) found next)
            { found with visited, body := found.body ++ [node] }
  else .error (.cycleDetected node.id)
termination_by unused.length
decreasing_by exact length_erase_lt _fresh

structure LoopChain where
  body : List Node
  finish : Node

def loopChain (graph : Graph) (start : Node) : Except WalkError LoopChain := do
  let nothing : BodySearch := ⟨[], [], none⟩
  let found ← match graph.next? start.id .nextStep with
    | some first => graph.searchBody start.id (graph.ids.erase start.id) nothing first
    | none => .ok nothing
  match found.finish with
  | some finish => return ⟨found.body, finish⟩
  | none => throw (.unterminatedLoop start.id)

/-! ## Unfolding -/

/-- The loop whose body is being unfolded: the ids of its start and of its end marker. -/
structure LoopBounds where
  start : String
  finish : String

def behind (graph : Graph) (id : String) (outlet : Outlet)
    (unfold : Node → Except WalkError (Walk Node)) : Except WalkError (Walk Node) :=
  match graph.next? id outlet with
  | some next => unfold next
  | none => .ok .done

def behindExits (graph : Graph) (id : String) (exits : List Exit)
    (unfold : Node → Except WalkError (Walk Node)) :
    Except WalkError (List (Exit × Option (Walk Node))) :=
  exits.mapM fun exit =>
    match graph.next? id exit.outlet with
    | some next => do return (exit, some (← unfold next))
    | none => .ok (exit, none)

def subflowExits (graph : Graph) (id : String) : List Exit :=
  if (graph.findEdge? id Exit.failure.outlet).isSome then [.failure] else []

/-- The walk that begins at `node`, inside the loop with the given bounds if there is one.
`unused` holds the ids that are not on the path to `node`. Inside a loop the end marker of the
loop ends the walk, and delays are passed over. -/
def unfold (graph : Graph) (bounds : Option LoopBounds) (unused : List String) (node : Node) :
    Except WalkError (Walk Node) :=
  if bounds.any fun loop => loop.finish = node.id then .ok .done
  else if _fresh : node.id ∈ unused then
    let unfoldNext := fun next => graph.unfold bounds (unused.erase node.id) next
    match node.kind.role with
    | .terminal => .ok (.terminal node)
    | .action action => do
        let next ← graph.behind node.id .nextStep unfoldNext
        if action.isDelay && bounds.isSome then return next
        else return .action node action next
    | .fork fork => do
        return .fork node fork (← graph.behindExits node.id fork.exits unfoldNext)
    | .subflow subflow => do
        let exits ← graph.behindExits node.id (graph.subflowExits node.id) unfoldNext
        let next ← graph.behind node.id .nextStep unfoldNext
        return .subflow node subflow exits next
    | .loop loop =>
        match bounds with
        | some outer => .error (.nestedLoop outer.start node.id)
        | none => do
            let chain ← graph.loopChain node
            let inner : LoopBounds := ⟨node.id, chain.finish.id⟩
            let body ← match chain.body.head? with
              | some first => graph.unfold (some inner) (unused.erase node.id) first
              | none => .ok .done
            let next ← graph.behind chain.finish.id .nextStep unfoldNext
            return .loop node loop body next
  else .error (.cycleDetected node.id)
termination_by unused.length
decreasing_by all_goals exact length_erase_lt _fresh

end Graph

end FlowCompiler
