import FlowCompiler.Proofs.Control
import FlowCompiler.Proofs.Unfolding

namespace FlowCompiler

/-! The course of a flow: what is to be done from a node on, by recursion on the graph alone. The
walk that is unfolded from the graph has this course. -/

/-! ## Nodes -/

namespace Control

def prompt (again : Bool) : List Control :=
  (if again then [.assign] else []) ++
    [.operation Primitive.httpPost, .operation Primitive.awaitCallback]

def request : List Control :=
  [.operation Primitive.httpPost, .assign]

/-- The cases of a choice between outlets. What counts how often a prompt asks again comes in
front of the outlet for no response. -/
def cases (again : Bool) (branches : List (Outlet × List Control)) : List (List Control) :=
  branches.flatMap fun branch =>
    (if again ∧ branch.1 = .noResponse then [[.assign]] else []) ++ [[.routine branch.2]]

def abort : List (Outlet × List Control) → List Control
  | [] => [.raise]
  | (_, inside) :: _ => [.routine inside, .operation Primitive.httpPost, .return .own]

def subflow (failures : List (Outlet × List Control)) : List Control :=
  [.operation Primitive.getEnv, .operation Primitive.httpPost, .assign,
    .operation Primitive.httpGet,
    .choice [[], abort failures, abort failures, [.assign, .operation Primitive.sleep]], .assign,
    .operation Primitive.httpDelete, .operation Primitive.httpPost]

def loop (guarded : Bool) (body : List Control) : List Control :=
  [.assign, .iteration ((if guarded then [.choice [[]]] else []) ++ [.routine body])]

end Control

inductive Part where
  | leaf
  | linear (own : List Control)
  /-- It waits in front of its next step, but not in a loop. -/
  | pause
  /-- It does this in front of a choice between its outlets. -/
  | fork (opening : List Control) (again : Bool)
  | subflow
  | loop (guarded : Bool)

def LoopStart.isGuarded (start : LoopStart) : Bool :=
  match start.loopValue with
  | .list _ => true
  | .count _ => false

def Kind.part : Kind → Part
  | .trigger _ | .loopEnd | .unsupported _ => .leaf
  | .sendText message =>
      if message.waitForResponse then
        .fork (Control.prompt message.responseFormat.isSome) message.responseFormat.isSome
      else .linear Control.request
  | .sendButtons prompt => .fork (Control.prompt prompt.retryInvalid) prompt.retryInvalid
  | .sendList prompt => .fork (Control.prompt prompt.retryInvalid) prompt.retryInvalid
  | .conditionalSplit _ | .conditionalBranch _ => .fork Control.request false
  | .delay _ => .pause
  | .saveData _ | .saveVariable _ | .alert _ | .utilityFunction _ => .linear Control.request
  | .apiCall _ => .linear [.operation Primitive.httpRequest, .assign]
  | .webhook _ => .linear [.operation Primitive.awaitCallback, .assign]
  | .subflow _ => .subflow
  | .loopStart start => .loop start.isGuarded

def Node.heading (node : Node) : String :=
  Text.identifierOr node.kind.stem node.title

/-! ## Graphs -/

namespace Graph

def courseBehind? (graph : Graph) (id : String) (outlet : Outlet)
    (course : Node → Option (List Control)) : Option (List Control) :=
  match graph.next? id outlet with
  | some next => course next
  | none => some []

def branchBehind? (graph : Graph) (id : String) (outlet : Outlet)
    (course : Node → Option (List Control)) : Option (Outlet × List Control) :=
  match graph.next? id outlet with
  | some next => do return (outlet, (← course next) ++ [.return .finish])
  | none => some (outlet, [.return .stub])

def failureOutlets (graph : Graph) (id : String) : List Outlet :=
  if (graph.findEdge? id .failure).isSome then [.failure] else []

/-- What is to be done from a node on, where `finish` is the id of the end marker of the loop that
the node is in. There is no result where the recursion goes deeper than the given depth, or a
loop does not end. -/
def course? (graph : Graph) : Nat → Option String → Node → Option (List Control)
  | 0, _, _ => none
  | depth + 1, finish, node =>
      if finish = some node.id then some []
      else
        match node.kind.part with
        | .leaf => some [.return .own]
        | .linear own => do
            let rest ← graph.courseBehind? node.id .nextStep (graph.course? depth finish)
            return [.block node.heading (own ++ rest)]
        | .pause => do
            let rest ← graph.courseBehind? node.id .nextStep (graph.course? depth finish)
            if finish.isSome then return rest
            else return [.block node.heading (.operation Primitive.sleep :: rest)]
        | .fork opening again => do
            let branches ← node.kind.outlets.mapM fun outlet =>
              graph.branchBehind? node.id outlet (graph.course? depth finish)
            return [.block node.heading (opening ++ [.choice (Control.cases again branches)])]
        | .subflow => do
            let failures ← (graph.failureOutlets node.id).mapM fun outlet =>
              graph.branchBehind? node.id outlet (graph.course? depth finish)
            let rest ← graph.courseBehind? node.id .nextStep (graph.course? depth finish)
            return [.block node.heading (Control.subflow failures ++ rest)]
        | .loop guarded => do
            let chain ← (graph.loopChain node).toOption
            let body ← graph.courseBehind? node.id .nextStep
              (graph.course? depth (some chain.finish.id))
            let rest ← graph.courseBehind? chain.finish.id .nextStep (graph.course? depth finish)
            return [.block node.heading
              (Control.loop guarded (body ++ [.return .finish]) ++ rest)]

end Graph

/-! ## Walks -/

def Action.control : Action → List Control
  | .delay _ => [.operation Primitive.sleep]
  | .apiCall _ => [.operation Primitive.httpRequest, .assign]
  | .webhook _ => [.operation Primitive.awaitCallback, .assign]
  | .message _ | .saveFields _ | .saveVariable _ | .alert _ | .utility _ => Control.request

def Fork.openingControl : Fork → List Control
  | .split _ | .branch _ => Control.request
  | fork => Control.prompt fork.asksAgain

namespace Walk

variable {α : Type} (node : α → Node)

mutual
def outline : Walk α → List Control
  | .done => []
  | .terminal _ => [.return .own]
  | .action visit act next => [.block (node visit).heading (act.control ++ outline next)]
  | .fork visit choice exits =>
      [.block (node visit).heading
        (choice.openingControl ++ [.choice (Control.cases choice.asksAgain (branches exits))])]
  | .subflow visit _ exits next =>
      [.block (node visit).heading (Control.subflow (branches exits) ++ outline next)]
  | .loop visit start body next =>
      [.block (node visit).heading
        (Control.loop start.isGuarded (outline body ++ [.return .finish]) ++ outline next)]

def branches : List (Exit × Option (Walk α)) → List (Outlet × List Control)
  | [] => []
  | (exit, none) :: rest => (exit.outlet, [.return .stub]) :: branches rest
  | (exit, some walk) :: rest =>
      (exit.outlet, outline walk ++ [.return .finish]) :: branches rest
end

end Walk

/-! ## Roles -/

def Role.part : Role → Part
  | .terminal => .leaf
  | .action act => if act.isDelay then .pause else .linear act.control
  | .fork choice => .fork choice.openingControl choice.asksAgain
  | .subflow _ => .subflow
  | .loop start => .loop start.isGuarded

theorem Kind.part_eq_role (kind : Kind) : kind.part = kind.role.part := by
  cases kind with
  | sendText message =>
      rw [part, role]
      cases message.waitForResponse <;> rfl
  | _ => rfl

theorem map_outlet_mapIdx {α : Type} (values : List α) (make : Nat → α → Exit)
    (outlet : α → Outlet) (leads : ∀ index value, (make index value).outlet = outlet value) :
    (values.mapIdx make).map Exit.outlet = values.map outlet := by
  apply List.ext_getElem
  · simp
  · intro index left right
    simp [leads]

/-- The exits of a fork lead through the outlets of its node, in the same order. -/
theorem Kind.map_outlet_exits {kind : Kind} {fork : Fork} (role : kind.role = .fork fork) :
    fork.exits.map Exit.outlet = kind.outlets := by
  cases kind with
  | sendText message =>
      rw [Kind.role] at role
      rw [outlets]
      cases waits : message.waitForResponse with
      | true =>
          rw [waits] at role
          cases role
          rfl
      | false =>
          rw [waits] at role
          cases role
  | conditionalSplit =>
      cases role
      rfl
  | sendButtons prompt =>
      cases role
      rw [Fork.exits, outlets, List.map_append]
      exact congrArg (· ++ [Outlet.noResponse])
        (map_outlet_mapIdx _ _ (fun button : Button => .option button.id) fun _ _ => rfl)
  | sendList prompt =>
      cases role
      rw [Fork.exits, outlets, List.map_append]
      exact congrArg (· ++ [Outlet.noResponse])
        (map_outlet_mapIdx _ _ (fun row : ListRow => .option row.id) fun _ _ => rfl)
  | conditionalBranch choice =>
      cases role
      exact map_outlet_mapIdx _ _ (fun path : BranchPath => .label path.label) fun _ _ => rfl
  | _ => cases role

/-! ## Unfolded walks -/

namespace Graph

variable {graph : Graph}

theorem map_outlet_subflowExits (graph : Graph) (id : String) :
    (graph.subflowExits id).map Exit.outlet = graph.failureOutlets id := by
  rw [subflowExits, failureOutlets]
  change List.map Exit.outlet (if (graph.findEdge? id .failure).isSome then _ else _) = _
  cases (graph.findEdge? id .failure).isSome <;> rfl

theorem length_erase_lt_of_lt {unused : List String} {id : String} {depth : Nat}
    (fresh : id ∈ unused) (deep : unused.length < depth + 1) :
    (unused.erase id).length < depth :=
  Nat.lt_of_lt_of_le (length_erase_lt fresh) (Nat.le_of_lt_succ deep)

theorem finish_ne {bounds : Option LoopBounds} {id : String}
    (inside : ∀ loop ∈ bounds, loop.finish ≠ id) : bounds.map LoopBounds.finish ≠ some id := by
  intro equal
  rcases Option.map_eq_some_iff.mp equal with ⟨loop, isLoop, finish⟩
  exact inside loop isLoop finish

theorem course?_of_action {depth : Nat} {finish : Option String} {node : Node} {act : Action}
    {rest : List Control} (inside : finish ≠ some node.id) (role : node.kind.role = .action act)
    (stays : act.isDelay → finish = none)
    (next : graph.courseBehind? node.id .nextStep (graph.course? depth finish) = some rest) :
    graph.course? (depth + 1) finish node = some [.block node.heading (act.control ++ rest)] := by
  rw [course?, if_neg inside, Kind.part_eq_role, role, Role.part]
  by_cases delay : act.isDelay
  · have outside := stays delay
    subst outside
    rw [if_pos delay]
    simp only [next]
    cases act with
    | delay => rfl
    | _ => cases delay
  · rw [if_neg delay]
    simp only [next]
    rfl

mutual
/-- An unfolded walk has the course of the graph. -/
theorem Unfolds.course?_eq {bounds : Option LoopBounds} {unused : List String} {node : Node}
    {walk : Walk Node} : Unfolds graph bounds unused node walk → ∀ {depth : Nat},
      unused.length < depth →
        graph.course? depth (bounds.map LoopBounds.finish) node = some (walk.outline id)
  -- By induction on the derivation: behind a node its id is no longer unused, so the depth that
  -- is left exceeds the number of unused ids there as well.
  | _, 0, deep => absurd deep (Nat.not_lt_zero _)
  | .ended finish, depth + 1, _ => by
      have ended : (some _).map LoopBounds.finish = some node.id := congrArg some finish
      rw [course?, if_pos ended]
      rfl
  | .terminal inside _ role, depth + 1, _ => by
      rw [course?, if_neg (finish_ne inside), Kind.part_eq_role, role]
      rfl
  | .passed inside fresh role delay rest, depth + 1, deep => by
      have next := rest.course?_eq (length_erase_lt_of_lt fresh deep)
      rw [course?, if_neg (finish_ne (by simpa using inside)), Kind.part_eq_role, role, Role.part,
        if_pos delay]
      simp only [next]
      rfl
  | .action inside fresh role stays rest, depth + 1, deep =>
      course?_of_action (finish_ne inside) role (fun delay => by rw [stays delay]; rfl)
        (rest.course?_eq (length_erase_lt_of_lt fresh deep))
  | .fork inside fresh role behind, depth + 1, deep => by
      have branches := behind.branches_eq (length_erase_lt_of_lt fresh deep)
      rw [course?, if_neg (finish_ne inside), Kind.part_eq_role, role, Role.part]
      rw [Kind.map_outlet_exits role] at branches
      simp only [branches]
      rfl
  | .subflow inside fresh role behind rest, depth + 1, deep => by
      have failures := behind.branches_eq (length_erase_lt_of_lt fresh deep)
      have next := rest.course?_eq (length_erase_lt_of_lt fresh deep)
      rw [map_outlet_subflowExits] at failures
      rw [course?, if_neg (finish_ne inside), Kind.part_eq_role, role, Role.part]
      simp only [failures, next]
      rfl
  | .loop fresh role collected entered rest, depth + 1, deep => by
      have body := entered.course?_eq (length_erase_lt_of_lt fresh deep)
      have next := rest.course?_eq (length_erase_lt_of_lt fresh deep)
      rw [course?, if_neg (by simp), Kind.part_eq_role, role, Role.part, collected]
      simp only [Option.map_some, Option.map_none] at body next
      simp only [Except.toOption, Option.map_none, Option.bind_eq_bind, Option.bind_some, body,
        next]
      rfl

theorem Behind.course?_eq {bounds : Option LoopBounds} {unused : List String} {nodeId : String}
    {outlet : Outlet} {walk : Walk Node} : Behind graph bounds unused nodeId outlet walk →
      ∀ {depth : Nat}, unused.length < depth →
        graph.courseBehind? nodeId outlet (graph.course? depth (bounds.map LoopBounds.finish)) =
          some (walk.outline id)
  | .connected found unfolds, _, deep => by
      rw [courseBehind?, found]
      exact unfolds.course?_eq deep
  | .unconnected missing, _, _ => by
      rw [courseBehind?, missing]
      rfl

theorem BehindExits.branches_eq {bounds : Option LoopBounds} {unused : List String}
    {nodeId : String} {exits : List Exit} {walks : List (Exit × Option (Walk Node))} :
    BehindExits graph bounds unused nodeId exits walks → ∀ {depth : Nat}, unused.length < depth →
      (exits.map Exit.outlet).mapM (fun outlet => graph.branchBehind? nodeId outlet
        (graph.course? depth (bounds.map LoopBounds.finish))) = some (Walk.branches id walks)
  | .nil, _, _ => rfl
  | .connected found unfolds behind, _, deep => by
      rw [List.map_cons, List.mapM_cons, behind.branches_eq deep, branchBehind?, found]
      simp only [unfolds.course?_eq deep]
      rfl
  | .unconnected missing behind, _, deep => by
      rw [List.map_cons, List.mapM_cons, behind.branches_eq deep, branchBehind?, missing]
      rfl
end

end Graph

end FlowCompiler
