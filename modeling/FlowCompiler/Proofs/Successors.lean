import FlowCompiler.Proofs.Course
import FlowCompiler.Proofs.Visits
import Mathlib.Logic.Relation

namespace FlowCompiler

/-! Where a run may go on from a node of a graph, the nodes in the body of a loop, and what makes
a graph impossible to unfold. All of this is said by relations on the graph, without a search. -/

/-! ## Roles and outlets -/

namespace Kind

variable {kind : Kind}

theorem outlets_of_action {action : Action} (role : kind.role = .action action) :
    kind.outlets = [.nextStep] := by
  cases kind with
  | sendText message =>
      rw [Kind.role] at role
      rw [outlets]
      cases waits : message.waitForResponse with
      | true =>
          rw [waits] at role
          cases role
      | false => rfl
  | delay | saveData | saveVariable | apiCall | webhook | alert | utilityFunction => rfl
  | _ => cases role

theorem outlets_of_subflow {subflow : Subflow} (role : kind.role = .subflow subflow) :
    kind.outlets = [.failure, .nextStep] := by
  cases kind with
  | subflow => rfl
  | sendText message =>
      rw [Kind.role] at role
      cases waits : message.waitForResponse <;>
      · rw [waits] at role
        cases role
  | _ => cases role

theorem role_eq_loop_iff {start : LoopStart} : kind.role = .loop start ↔ kind = .loopStart start := by
  constructor
  · intro role
    cases kind with
    | loopStart => rw [Role.loop.inj role]
    | sendText message =>
        rw [Kind.role] at role
        cases waits : message.waitForResponse <;>
        · rw [waits] at role
          cases role
    | _ => cases role
  · intro equal
    rw [equal]
    rfl

theorem role_loopEnd (ended : kind = .loopEnd) : kind.role = .terminal := by
  rw [ended]
  rfl

end Kind

namespace Graph

/-! ## Successors -/

def Follows (graph : Graph) (node next : Node) : Prop :=
  next ∈ graph.followed node

/-- The nodes at which a run may go on behind a node: none behind a node that ends the run, the
body and what is behind the end marker for the start of a loop, and otherwise what is behind the
outlets of the node. -/
def successors (graph : Graph) (node : Node) : List Node :=
  match node.kind with
  | .trigger _ | .loopEnd | .unsupported _ => []
  | .loopStart _ =>
      (graph.next? node.id .nextStep).toList ++
        match graph.loopChain node with
        | .ok chain => (graph.next? chain.finish.id .nextStep).toList
        | .error _ => []
  | _ => graph.followed node

def LeadsTo (graph : Graph) (node next : Node) : Prop :=
  next ∈ graph.successors node

def Reachable (graph : Graph) : Node → Node → Prop :=
  Relation.ReflTransGen graph.LeadsTo

variable {graph : Graph} {node next : Node}

theorem follows_iff :
    graph.Follows node next ↔
      ∃ outlet ∈ node.kind.outlets, graph.next? node.id outlet = some next :=
  List.mem_filterMap

theorem not_leadsTo_of_terminal (role : node.kind.role = .terminal) :
    ¬ graph.LeadsTo node next := by
  rw [LeadsTo, successors]
  cases kind : node.kind with
  | trigger | loopEnd | unsupported => exact List.not_mem_nil
  | sendText message =>
      rw [kind, Kind.role] at role
      cases waits : message.waitForResponse <;>
      · rw [waits] at role
        cases role
  | _ =>
      rw [kind] at role
      cases role

theorem leadsTo_loop_iff {start : LoopStart} (role : node.kind.role = .loop start) :
    graph.LeadsTo node next ↔ graph.next? node.id .nextStep = some next ∨
      ∃ chain, graph.loopChain node = .ok chain ∧
        graph.next? chain.finish.id .nextStep = some next := by
  rw [LeadsTo, successors, Kind.role_eq_loop_iff.mp role]
  cases collected : graph.loopChain node with
  | error error => simp
  | ok chain => simp

/-- Except at the start of a loop and at the end of a run, what a node leads to is what is behind
its outlets. -/
theorem leadsTo_iff_follows (running : node.kind.role ≠ .terminal)
    (outside : ∀ start, node.kind.role ≠ .loop start) :
    graph.LeadsTo node next ↔ graph.Follows node next := by
  rw [LeadsTo, Follows, successors]
  cases kind : node.kind with
  | trigger | loopEnd | unsupported =>
      rw [kind] at running
      exact absurd rfl running
  | loopStart start =>
      rw [kind] at outside
      exact absurd rfl (outside start)
  | _ => rfl

theorem leadsTo_action_iff {action : Action} (role : node.kind.role = .action action) :
    graph.LeadsTo node next ↔ graph.next? node.id .nextStep = some next := by
  rw [leadsTo_iff_follows (by simp [role]) (by simp [role]), follows_iff,
    Kind.outlets_of_action role]
  simp

theorem leadsTo_fork_iff {fork : Fork} (role : node.kind.role = .fork fork) :
    graph.LeadsTo node next ↔
      ∃ exit ∈ fork.exits, graph.next? node.id exit.outlet = some next := by
  rw [leadsTo_iff_follows (by simp [role]) (by simp [role]), follows_iff,
    ← Kind.map_outlet_exits role]
  simp

theorem leadsTo_subflow_iff {subflow : Subflow} (role : node.kind.role = .subflow subflow) :
    graph.LeadsTo node next ↔
      (∃ exit ∈ graph.subflowExits node.id, graph.next? node.id exit.outlet = some next) ∨
        graph.next? node.id .nextStep = some next := by
  have failure : (∃ exit ∈ graph.subflowExits node.id,
      graph.next? node.id exit.outlet = some next) ↔
        graph.next? node.id .failure = some next := by
    constructor
    · rintro ⟨exit, member, found⟩
      exact outlet_of_mem_subflowExits member ▸ found
    · intro found
      rcases Option.bind_eq_some_iff.mp found with ⟨edge, isEdge, _⟩
      have connected : (graph.findEdge? node.id Exit.failure.outlet).isSome :=
        Option.isSome_of_eq_some isEdge
      rw [subflowExits, if_pos connected]
      exact ⟨.failure, List.mem_singleton_self _, found⟩
  rw [leadsTo_iff_follows (by simp [role]) (by simp [role]), follows_iff,
    Kind.outlets_of_subflow role, failure]
  simp

theorem follows_loop_iff (loop : ∃ start, node.kind = .loopStart start) :
    graph.Follows node next ↔ graph.next? node.id .nextStep = some next := by
  rcases loop with ⟨start, kind⟩
  rw [follows_iff, kind]
  simp [Kind.outlets]

theorem follows_loopEnd_iff (ended : node.kind = .loopEnd) :
    graph.Follows node next ↔ graph.next? node.id .nextStep = some next := by
  rw [follows_iff, ended]
  simp [Kind.outlets]

/-! ## Bodies of loops -/

/-- The nodes that are met between the start of a loop and the first end markers behind it, these
included. -/
inductive InBody (graph : Graph) (start : Node) : Node → Prop
  | entry {node : Node} (entered : graph.next? start.id .nextStep = some node) :
      InBody graph start node
  | step {node next : Node} (inside : InBody graph start node)
      (continues : node.kind ≠ .loopEnd) (follows : graph.Follows node next) :
      InBody graph start next

theorem InBody.exists_entry {start : Node} (inside : graph.InBody start node) :
    ∃ entry, graph.next? start.id .nextStep = some entry := by
  induction inside with
  | entry entered => exact ⟨_, entered⟩
  | step _ _ _ induction => exact induction

theorem InBody.follows {start : Node} (loop : ∃ settings, start.kind = .loopStart settings)
    (inside : graph.InBody start node) : Relation.TransGen graph.Follows start node := by
  induction inside with
  | entry entered => exact .single ((follows_loop_iff loop).mpr entered)
  | step _ _ follows induction => exact induction.tail follows

/-! ## Defects -/

inductive Defect (graph : Graph) (first : Node) : WalkError → Prop
  /-- A node is met again behind its own outlets. -/
  | cycle {node : Node} (met : Relation.ReflTransGen graph.Follows first node)
      (cycle : Relation.TransGen graph.Follows node node) :
      Defect graph first (.cycleDetected node.id)
  /-- The body of a loop holds the start of another one. -/
  | nested {start nested : Node} (reachable : graph.Reachable first start)
      (loop : ∃ settings, start.kind = .loopStart settings)
      (inside : graph.InBody start nested)
      (inner : ∃ settings, nested.kind = .loopStart settings) :
      Defect graph first (.nestedLoop start.id nested.id)
  /-- No end marker is met behind the start of a loop. -/
  | unterminated {start : Node} (reachable : graph.Reachable first start)
      (loop : ∃ settings, start.kind = .loopStart settings)
      (endless : ∀ node, graph.InBody start node → node.kind ≠ .loopEnd) :
      Defect graph first (.unterminatedLoop start.id)

structure Admissible (graph : Graph) (first : Node) : Prop where
  collected : ∀ start, graph.Reachable first start →
    (∃ settings, start.kind = .loopStart settings) → ∃ chain, graph.loopChain start = .ok chain
  acyclic : ∀ node, graph.Reachable first node → ¬ Relation.TransGen graph.LeadsTo node node

end Graph

end FlowCompiler
