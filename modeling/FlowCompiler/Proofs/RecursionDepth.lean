import FlowCompiler.Proofs.Acceptance
import Mathlib.Data.List.Dedup

namespace FlowCompiler

/-! How deeply the calls of a compilation are nested, in any flow: also where ids repeat, where
edges lead nowhere, and where a node leads back to itself. The calls are followed here with the path
on which they stand, and with a limit for their depth. The ids on a path are distinct, so the number
of ids of a flow is such a limit. -/

namespace Graph

/-! ## Nested calls -/

/-! A call for a node, inside the loop with the given bounds if there is one, with the ids of the
nodes whose calls it is nested in. -/

structure NestedCall where
  bounds : Option LoopBounds
  path : List String
  node : Node

structure NestedCall.Passes (call : NestedCall) : Prop where
  inside : ∀ loop ∈ call.bounds, loop.finish ≠ call.node.id
  fresh : call.node.id ∉ call.path

/-- A call makes another one: behind an outlet, into the body of a loop, or behind the end marker of
the loop. The end marker itself is not put on the path. -/
inductive Nests (graph : Graph) (call : NestedCall) : NestedCall → Prop
  | follow {next : Node} (passes : call.Passes)
      (outside : ∀ start, call.node.kind.role ≠ .loop start)
      (leads : graph.LeadsTo call.node next) :
      Nests graph call ⟨call.bounds, call.path ++ [call.node.id], next⟩
  | enter {entry : Node} {start : LoopStart} {chain : LoopChain} (passes : call.Passes)
      (unbounded : call.bounds = none) (role : call.node.kind.role = .loop start)
      (collected : graph.loopChain call.node = .ok chain)
      (opened : chain.body.head? = some entry) :
      Nests graph call
        ⟨some ⟨call.node.id, chain.finish.id⟩, call.path ++ [call.node.id], entry⟩
  | leave {next : Node} {start : LoopStart} {chain : LoopChain} (passes : call.Passes)
      (unbounded : call.bounds = none) (role : call.node.kind.role = .loop start)
      (collected : graph.loopChain call.node = .ok chain)
      (connected : graph.next? chain.finish.id .nextStep = some next) :
      Nests graph call ⟨none, call.path ++ [call.node.id], next⟩

variable {graph : Graph} {call next : NestedCall}

theorem Nests.passes (nests : graph.Nests call next) : call.Passes := by
  cases nests with
  | follow passes | enter passes | leave passes => exact passes

theorem Nests.path (nests : graph.Nests call next) :
    next.path = call.path ++ [call.node.id] := by
  cases nests with
  | follow | enter | leave => rfl

theorem Nests.leadsTo (nests : graph.Nests call next) :
    graph.LeadsTo call.node next.node := by
  cases nests with
  | follow _ _ leads => exact leads
  | enter _ _ role collected opened =>
      exact (leadsTo_loop_iff role).mpr (.inl (next?_of_head? collected opened))
  | leave _ _ role collected connected =>
      exact (leadsTo_loop_iff role).mpr (.inr ⟨_, collected, connected⟩)

structure NestedCall.Sound (graph : Graph) (call : NestedCall) : Prop where
  known : graph.Knows call.node
  distinct : call.path.Nodup
  among : call.path ⊆ graph.ids

theorem NestedCall.Sound.nests (keyed : graph.Keyed) (sound : call.Sound graph)
    (nests : graph.Nests call next) : next.Sound graph := by
  refine ⟨keyed.knows_of_leadsTo nests.leadsTo, ?_, ?_⟩
  · rw [nests.path]
    exact List.concat_eq_append ▸ sound.distinct.concat nests.passes.fresh
  · rw [nests.path]
    exact List.append_subset.mpr ⟨sound.among, by simpa using mem_ids sound.known⟩

theorem NestedCall.Sound.length_path_le (sound : call.Sound graph) :
    call.path.length ≤ graph.ids.length :=
  sound.distinct.length_le_of_subset sound.among

/-- Along a chain of nested calls, the path grows by the nodes of these calls, in their order. -/
theorem NestedCall.Sound.chain (keyed : graph.Keyed) (calls : List NestedCall) :
    ∀ {call : NestedCall}, call.Sound graph → (call :: calls).IsChain graph.Nests →
      ∀ last ∈ (call :: calls).getLast?, last.Sound graph ∧
        last.path = call.path ++ (call :: calls).dropLast.map fun outer => outer.node.id := by
  induction calls with
  | nil =>
      rintro call sound _ last ⟨⟩
      exact ⟨sound, (List.append_nil _).symm⟩
  | cons next rest induction =>
      intro call sound chain last isLast
      rw [List.isChain_cons_cons] at chain
      rw [List.getLast?_cons_cons] at isLast
      rcases induction (sound.nests keyed chain.1) chain.2 last isLast with ⟨later, path⟩
      refine ⟨later, ?_⟩
      rw [path, chain.1.path, List.dropLast_cons_cons, List.map_cons, List.append_assoc]
      rfl

/-- A chain of nested calls is not longer than the graph has ids. -/
theorem NestedCall.Sound.length_chain_le (keyed : graph.Keyed) {calls : List NestedCall}
    (sound : call.Sound graph) (chain : (call :: calls).IsChain graph.Nests) :
    call.path.length + calls.length ≤ graph.ids.length := by
  rcases sound.chain keyed calls chain _
    (List.getLast?_eq_some_getLast (List.cons_ne_nil call calls)) with ⟨later, path⟩
  have bound := later.length_path_le
  rw [path, List.length_append, List.length_map, List.length_dropLast, List.length_cons] at bound
  exact bound

/-! ## Unfolding with a limited depth -/

/-! The unfolding, where calls may be nested only as deeply as a limit says: there is no answer if
one is nested more deeply. The path is kept in place of the unused ids. -/

def answered {α : Type} (answer : Except WalkError α) : ExceptT WalkError Option α :=
  ExceptT.mk (some answer)

def behindWithin (graph : Graph) (id : String) (outlet : Outlet)
    (unfold : Node → ExceptT WalkError Option (Walk Node)) :
    ExceptT WalkError Option (Walk Node) :=
  match graph.next? id outlet with
  | some next => unfold next
  | none => answered (.ok .done)

def behindExitsWithin (graph : Graph) (id : String) (exits : List Exit)
    (unfold : Node → ExceptT WalkError Option (Walk Node)) :
    ExceptT WalkError Option (List (Exit × Option (Walk Node))) :=
  exits.mapM fun exit =>
    match graph.next? id exit.outlet with
    | some next => do return (exit, some (← unfold next))
    | none => answered (.ok (exit, none))

def unfoldWithin (graph : Graph) : Nat → Option LoopBounds → List String → Node →
    ExceptT WalkError Option (Walk Node)
  | 0, _, _, _ => ExceptT.mk none
  | depth + 1, bounds, path, node =>
      if bounds.any fun loop => loop.finish = node.id then answered (.ok .done)
      else if node.id ∈ path then answered (.error (.cycleDetected node.id))
      else
        let unfoldNext := graph.unfoldWithin depth bounds (path ++ [node.id])
        match node.kind.role with
        | .terminal => answered (.ok (.terminal node))
        | .action action => do
            let next ← graph.behindWithin node.id .nextStep unfoldNext
            if action.isDelay && bounds.isSome then return next
            else return .action node action next
        | .fork fork => do
            return .fork node fork (← graph.behindExitsWithin node.id fork.exits unfoldNext)
        | .subflow subflow => do
            let exits ← graph.behindExitsWithin node.id (graph.subflowExits node.id) unfoldNext
            let next ← graph.behindWithin node.id .nextStep unfoldNext
            return .subflow node subflow exits next
        | .loop loop =>
            match bounds with
            | some outer => answered (.error (.nestedLoop outer.start node.id))
            | none => do
                let chain ← answered (graph.loopChain node)
                let inner : LoopBounds := ⟨node.id, chain.finish.id⟩
                let body ← match chain.body.head? with
                  | some first =>
                      graph.unfoldWithin depth (some inner) (path ++ [node.id]) first
                  | none => answered (.ok .done)
                let next ← graph.behindWithin chain.finish.id .nextStep unfoldNext
                return .loop node loop body next

section

theorem bind_eq_answered {α β : Type} {limited : ExceptT WalkError Option α}
    {first : Except WalkError α} {limitedNext : α → ExceptT WalkError Option β}
    {next : α → Except WalkError β} (same : limited = answered first)
    (sameNext : ∀ value, first = .ok value → limitedNext value = answered (next value)) :
    (limited >>= limitedNext) = answered (first >>= next) := by
  rw [same]
  cases first with
  | error error => rfl
  | ok value => exact sameNext value rfl

variable {id : String} {limited : Node → ExceptT WalkError Option (Walk Node)}
  {unfold : Node → Except WalkError (Walk Node)}

theorem behindWithin_eq {outlet : Outlet}
    (same : ∀ next, graph.next? id outlet = some next → limited next = answered (unfold next)) :
    graph.behindWithin id outlet limited = answered (graph.behind id outlet unfold) := by
  rw [behindWithin, behind]
  cases connected : graph.next? id outlet with
  | none => rfl
  | some next => exact same next connected

theorem behindExitsWithin_eq {exits : List Exit}
    (same : ∀ exit ∈ exits, ∀ next, graph.next? id exit.outlet = some next →
      limited next = answered (unfold next)) :
    graph.behindExitsWithin id exits limited = answered (graph.behindExits id exits unfold) := by
  induction exits with
  | nil => rfl
  | cons exit rest induction =>
      rw [behindExitsWithin, behindExits, List.mapM_cons, List.mapM_cons]
      refine bind_eq_answered ?_ fun first _ => bind_eq_answered ?_ fun others _ => rfl
      · cases connected : graph.next? id exit.outlet with
        | none => rfl
        | some next =>
            exact bind_eq_answered (same exit List.mem_cons_self next connected) fun walk _ => rfl
      · exact induction fun other member => same other (List.mem_cons_of_mem _ member)

end

def NestedCall.within (graph : Graph) (depth : Nat) (call : NestedCall) :
    ExceptT WalkError Option (Walk Node) :=
  graph.unfoldWithin depth call.bounds call.path call.node

def NestedCall.unfold (graph : Graph) (call : NestedCall) : Except WalkError (Walk Node) :=
  graph.unfold call.bounds (graph.ids.diff call.path) call.node

theorem mem_diff_path_iff {id : String} {path : List String} :
    id ∈ graph.ids.diff path ↔ id ∈ graph.ids ∧ id ∉ path :=
  graph.nodes.nodup_keys.mem_sdiff_iff

theorem erase_diff_path (id : String) (path : List String) :
    (graph.ids.diff path).erase id = graph.ids.diff (path ++ [id]) := by
  rw [List.diff_append, List.diff_cons, List.diff_nil]

/-- A call is answered within a limit if all calls that it makes are answered within one less. -/
theorem NestedCall.within_succ (known : graph.Knows call.node) {depth : Nat}
    (nested : ∀ next, graph.Nests call next →
      next.within graph depth = answered (next.unfold graph)) :
    call.within graph (depth + 1) = answered (call.unfold graph) := by
  rcases call with ⟨bounds, path, node⟩
  rw [within, NestedCall.unfold, unfoldWithin, Graph.unfold]
  by_cases ended : bounds.any fun loop => loop.finish = node.id
  · rw [if_pos ended, if_pos ended]
  rw [if_neg ended, if_neg ended]
  by_cases used : node.id ∈ path
  · rw [if_pos used, dif_neg fun unused => (mem_diff_path_iff.mp unused).2 used]
  have passes : NestedCall.Passes ⟨bounds, path, node⟩ := ⟨not_any_finish_iff.mp ended, used⟩
  rw [if_neg used, dif_pos (mem_diff_path_iff.mpr ⟨mem_ids known, used⟩)]
  simp only [erase_diff_path]
  -- At a node that is no loop, the calls are those for the nodes behind its outlets.
  have follow : ∀ next, (∀ start, node.kind.role ≠ .loop start) → graph.LeadsTo node next →
      graph.unfoldWithin depth bounds (path ++ [node.id]) next =
        answered (graph.unfold bounds (graph.ids.diff (path ++ [node.id])) next) :=
    fun next outside leads => nested _ (.follow passes outside leads)
  cases role : node.kind.role with
  | terminal => rfl
  | action action =>
      refine bind_eq_answered (behindWithin_eq fun next connected => ?_) fun next _ => ?_
      · exact follow next (by simp [role]) ((leadsTo_action_iff role).mpr connected)
      · split <;> rfl
  | fork fork =>
      refine bind_eq_answered (behindExitsWithin_eq fun exit member next connected => ?_)
        fun exits _ => rfl
      exact follow next (by simp [role]) ((leadsTo_fork_iff role).mpr ⟨exit, member, connected⟩)
  | subflow subflow =>
      refine bind_eq_answered (behindExitsWithin_eq fun exit member next connected => ?_)
        fun exits _ => bind_eq_answered (behindWithin_eq fun next connected => ?_) fun next _ => rfl
      · exact follow next (by simp [role])
          ((leadsTo_subflow_iff role).mpr (.inl ⟨exit, member, connected⟩))
      · exact follow next (by simp [role]) ((leadsTo_subflow_iff role).mpr (.inr connected))
  | loop start =>
      cases bounds with
      | some outer => rfl
      | none =>
          refine bind_eq_answered rfl fun chain collected => ?_
          have left : ∀ body : Walk Node, (do
              let next ← graph.behindWithin chain.finish.id .nextStep
                (graph.unfoldWithin depth none (path ++ [node.id]))
              return Walk.loop node start body next) = answered (do
                let next ← graph.behind chain.finish.id .nextStep
                  fun next => graph.unfold none (graph.ids.diff (path ++ [node.id])) next
                return Walk.loop node start body next) := fun body =>
            bind_eq_answered (behindWithin_eq fun next connected =>
              nested _ (.leave passes rfl role collected connected)) fun next _ => rfl
          cases opened : chain.body.head? with
          | none => exact left .done
          | some entry =>
              exact bind_eq_answered (nested _ (.enter passes rfl role collected opened))
                fun body _ => left body

/-- A call that is not answered within a limit has a chain of calls in it that is as long. -/
theorem NestedCall.exists_chain (keyed : graph.Keyed) (depth : Nat) :
    ∀ {call : NestedCall}, graph.Knows call.node →
      call.within graph depth ≠ answered (call.unfold graph) →
        ∃ calls, calls.length = depth ∧
          (call :: calls).IsChain graph.Nests := by
  induction depth with
  | zero => exact fun _ _ => ⟨[], rfl, .singleton _⟩
  | succ depth induction =>
      intro call known unanswered
      by_contra shorter
      refine unanswered (within_succ known fun next nests => ?_)
      by_contra later
      rcases induction (keyed.knows_of_leadsTo nests.leadsTo) later with ⟨rest, length, chain⟩
      exact shorter ⟨next :: rest, congrArg Nat.succ length,
        List.isChain_cons_cons.mpr ⟨nests, chain⟩⟩

/-- The number of ids is a limit within which all calls are answered, and one more than that for
those that return at once. -/
theorem NestedCall.Sound.within_eq (keyed : graph.Keyed) (sound : call.Sound graph) {depth : Nat}
    (deep : graph.ids.length < call.path.length + depth) :
    call.within graph depth = answered (call.unfold graph) := by
  by_contra unanswered
  rcases NestedCall.exists_chain keyed depth sound.known unanswered with ⟨calls, length, chain⟩
  have bound := sound.length_chain_le keyed chain
  omega

/-! ## Searches with a limited depth -/

def searchEach (search : BodySearch → Node → Option (BodySearch × Option WalkError)) :
    BodySearch → List Node → Option (BodySearch × Option WalkError)
  | found, [] => some (found, none)
  | found, node :: rest =>
      match search found node with
      | some (found, none) => searchEach search found rest
      | stopped => stopped

/-- Search a loop body from `node` on, as `searchBody` does, where calls may be nested only as
deeply as the limit says. What was found is kept next to an error, and the path in place of the
unused ids. -/
def searchWithin (graph : Graph) (loopId : String) : Nat → List String → BodySearch → Node →
    Option (BodySearch × Option WalkError)
  | 0, _, _, _ => none
  | depth + 1, path, found, node =>
      if node.id = loopId ∨ node.id ∈ path then some (found, some (.cycleDetected node.id))
      else if node.id ∈ found.visited then some (found, none)
      else
        let visited := node.id :: found.visited
        match node.kind with
        | .loopEnd => some ({ found with visited, finish := found.finish.or (some node) }, none)
        | .loopStart _ => some ({ found with visited }, some (.nestedLoop loopId node.id))
        | _ =>
            searchEach (graph.searchWithin loopId depth (path ++ [node.id]))
              { found with visited, body := found.body ++ [node] } (graph.followed node)

inductive Ends : Option (BodySearch × Option WalkError) → Except WalkError BodySearch → Prop
  | found (found : BodySearch) : Ends (some (found, none)) (.ok found)
  | failed (found : BodySearch) (error : WalkError) : Ends (some (found, some error)) (.error error)

section

variable {search : BodySearch → Node → Option (BodySearch × Option WalkError)}

theorem ends_searchEach {full : BodySearch → Node → Except WalkError BodySearch}
    (nodes : List Node)
    (ends : ∀ found, ∀ node ∈ nodes, Ends (search found node) (full found node)) :
    ∀ found, Ends (searchEach search found nodes) (nodes.foldlM full found) := by
  induction nodes with
  | nil => exact fun found => .found found
  | cons node rest induction =>
      intro found
      rw [searchEach, List.foldlM_cons]
      have own := ends found node List.mem_cons_self
      revert own
      generalize search found node = limited, full found node = unlimited
      intro own
      cases own with
      | found middle =>
          exact induction (fun found other member =>
            ends found other (List.mem_cons_of_mem _ member)) middle
      | failed middle error => exact .failed middle error

theorem searchEach_preserves (Holds : BodySearch → Prop) (nodes : List Node)
    (kept : ∀ found result, ∀ node ∈ nodes, Holds found → search found node = some result →
      Holds result.1) :
    ∀ {found result}, Holds found → searchEach search found nodes = some result →
      Holds result.1 := by
  induction nodes with
  | nil =>
      rintro found result holds ⟨⟩
      exact holds
  | cons node rest induction =>
      intro found result holds searched
      rw [searchEach] at searched
      split at searched
      · next middle first =>
          exact induction (fun found result other member =>
            kept found result other (List.mem_cons_of_mem _ member))
            (kept found _ node List.mem_cons_self holds first) searched
      · exact kept found result node List.mem_cons_self holds searched

end

theorem ends_searchWithin (keyed : graph.Keyed) (loopId : String) (depth : Nat) :
    ∀ {path : List String} {found : BodySearch} {node : Node}, graph.Knows node →
      (loopId :: path).Nodup → loopId :: path ⊆ graph.ids →
        graph.ids.length < depth + (loopId :: path).length →
          Ends (graph.searchWithin loopId depth path found node)
            (graph.searchBody loopId (graph.ids.diff (loopId :: path)) found node) := by
  induction depth with
  | zero =>
      intro path found node known distinct among deep
      have bound := distinct.length_le_of_subset among
      omega
  | succ depth induction =>
      intro path found node known distinct among deep
      rw [searchWithin, searchBody]
      by_cases used : node.id ∈ loopId :: path
      · rw [if_pos (List.mem_cons.mp used),
          dif_neg fun unused => (mem_diff_path_iff.mp unused).2 used]
        exact .failed found _
      rw [if_neg (mt List.mem_cons.mpr used),
        dif_pos (mem_diff_path_iff.mpr ⟨mem_ids known, used⟩)]
      by_cases seen : node.id ∈ found.visited
      · rw [if_pos seen, if_pos seen]
        exact .found found
      rw [if_neg seen, if_neg seen]
      have behind : ∀ found, Ends
          (searchEach (graph.searchWithin loopId depth (path ++ [node.id])) found
            (graph.followed node))
          ((graph.followed node).foldlM
            (graph.searchBody loopId ((graph.ids.diff (loopId :: path)).erase node.id)) found) := by
        refine ends_searchEach (graph.followed node) fun found next follows => ?_
        rw [erase_diff_path, List.cons_append]
        refine induction (keyed.knows_of_follows follows) ?_ ?_ ?_
        · exact List.concat_eq_append ▸ distinct.concat used
        · exact List.append_subset.mpr ⟨among, by simpa using mem_ids known⟩
        · simp only [List.length_cons, List.length_append, List.length_nil] at deep ⊢
          omega
      cases kind : node.kind with
      | loopEnd => exact .found _
      | loopStart => exact .failed _ _
      | _ => exact behind _

structure BodySearch.Once (graph : Graph) (search : BodySearch) : Prop where
  distinct : (search.body.map Node.id).Nodup
  visited : ∀ node ∈ search.body, node.id ∈ search.visited
  known : ∀ node ∈ search.body, graph.Knows node

/-- A search only goes on from nodes that it puts into the body, each of them once, also if it
fails. -/
theorem BodySearch.Once.searchWithin (keyed : graph.Keyed) (loopId : String) (depth : Nat) :
    ∀ {path : List String} {found : BodySearch} {node : Node}
      {result : BodySearch × Option WalkError}, found.Once graph → graph.Knows node →
        graph.searchWithin loopId depth path found node = some result → result.1.Once graph := by
  induction depth with
  | zero =>
      intro path found node result once known searched
      cases searched
  | succ depth induction =>
      intro path found node result once known searched
      rw [Graph.searchWithin] at searched
      split at searched
      · cases searched
        exact once
      split at searched
      · cases searched
        exact once
      next unseen =>
        have noted : ∀ finish, BodySearch.Once graph
            ⟨node.id :: found.visited, found.body, finish⟩ := fun finish =>
          ⟨once.distinct, fun other member => List.mem_cons_of_mem _ (once.visited other member),
            once.known⟩
        have added : BodySearch.Once graph
            ⟨node.id :: found.visited, found.body ++ [node], found.finish⟩ := by
          refine ⟨?_, ?_, ?_⟩
          · rw [List.map_append, List.map_singleton, ← List.concat_eq_append]
            refine once.distinct.concat fun earlier => ?_
            rcases List.mem_map.mp earlier with ⟨other, member, same⟩
            exact unseen (same ▸ once.visited other member)
          · simpa [forall_and, or_imp] using fun other member => .inr (once.visited other member)
          · simpa [forall_and, or_imp] using ⟨once.known, known⟩
        cases kind : node.kind with
        | loopEnd | loopStart =>
            simp only [kind] at searched
            cases searched
            exact noted _
        | _ =>
            simp only [kind] at searched
            exact searchEach_preserves (BodySearch.Once graph) (graph.followed node)
              (fun found result next follows once stepped =>
                induction once (keyed.knows_of_follows follows) stepped) added searched

/-! ## The ids of a flow -/

theorem ids_subset_of_ofFlow (flow : Flow) : (ofFlow flow).ids ⊆ flow.nodes.map Node.id := by
  intro id member
  rcases List.mem_map.mp member with ⟨entry, among, rfl⟩
  rcases List.mem_map.mp (Table.mem_of_mem_ofList among) with ⟨node, present, rfl⟩
  exact List.mem_map_of_mem present

end Graph

def Flow.distinctIds (flow : Flow) : List String :=
  (flow.nodes.map Node.id).dedup

theorem Flow.length_ids_le (flow : Flow) :
    (Graph.ofFlow flow).ids.length ≤ flow.distinctIds.length := by
  refine List.Nodup.length_le_of_subset (Graph.ofFlow flow).nodes.nodup_keys fun id member => ?_
  exact List.mem_dedup.mpr (Graph.ids_subset_of_ofFlow flow member)

/-! ## Compilations -/

def Graph.NestedCall.root (first : Node) : Graph.NestedCall := ⟨none, [], first⟩

def Compile.buildWithin (depth : Nat) (settings : Settings) (lookup : BranchLookup) (flow : Flow) :
    Option (Except CompileError Program) :=
  match flow.trigger? with
  | none => some (.error (.load (.missingTrigger flow.flowId)))
  | some trigger =>
      let graph := Graph.ofFlow flow
      match graph.next? trigger.id .nextStep with
      | none => some (.ok emptyProgram)
      | some first =>
          match lookup flow.branchId with
          | .error error => some (.error (.lookup error))
          | .ok branch =>
              (graph.unfoldWithin depth none [] first).run.map fun answer =>
                (answer.mapError .walk).map
                  (assemble settings flow branch (triggerChildren graph trigger))

theorem Compile.buildWithin_eq {depth : Nat} {flow : Flow}
    (enough : ∀ first, (Graph.ofFlow flow).Knows first →
      (Graph.NestedCall.root first).within (Graph.ofFlow flow) depth =
        Graph.answered ((Graph.NestedCall.root first).unfold (Graph.ofFlow flow)))
    (settings : Settings) (lookup : BranchLookup) :
    buildWithin depth settings lookup flow = some (build settings lookup flow) := by
  rw [buildWithin]
  cases started : flow.trigger? with
  | none => rw [build_of_unstarted started]
  | some trigger =>
      dsimp only
      cases connected : (Graph.ofFlow flow).next? trigger.id .nextStep with
      | none => rw [build_of_unconnected started connected]
      | some first =>
          dsimp only
          cases found : lookup flow.branchId with
          | error error => rw [build_of_lookup_error started connected found]
          | ok branch =>
              have known := (Graph.keyed_ofFlow flow).node?_of_next? connected
              have answered : (Graph.ofFlow flow).unfoldWithin depth none [] first =
                  Graph.answered _ := enough first known
              rw [build_of_connected started connected found, answered]
              rfl

/-- The search through the body of a loop ends within the limit, and goes on from each id at most
once. -/
theorem Graph.exists_searchWithin {flow : Flow} {start entry : Node}
    (known : (Graph.ofFlow flow).Knows start)
    (entered : (Graph.ofFlow flow).next? start.id .nextStep = some entry) :
    ∃ found error, (Graph.ofFlow flow).searchWithin start.id flow.distinctIds.length []
        ⟨[], [], none⟩ entry = some (found, error) ∧
      (found.body.map Node.id).Nodup ∧ found.body.map Node.id ⊆ flow.nodes.map Node.id ∧
      Graph.Ends (some (found, error)) ((Graph.ofFlow flow).searchBody start.id
        ((Graph.ofFlow flow).ids.erase start.id) ⟨[], [], none⟩ entry) := by
  have keyed := Graph.keyed_ofFlow flow
  have inside : Graph.Knows (Graph.ofFlow flow) entry := keyed.node?_of_next? entered
  have ends : Graph.Ends ((Graph.ofFlow flow).searchWithin start.id flow.distinctIds.length []
      ⟨[], [], none⟩ entry) ((Graph.ofFlow flow).searchBody start.id
        ((Graph.ofFlow flow).ids.diff [start.id]) ⟨[], [], none⟩ entry) :=
    Graph.ends_searchWithin keyed start.id flow.distinctIds.length inside
      (List.nodup_singleton _) (by simpa using Graph.mem_ids known)
      (Nat.lt_succ_of_le flow.length_ids_le)
  rw [List.diff_cons, List.diff_nil] at ends
  cases searched : (Graph.ofFlow flow).searchWithin start.id flow.distinctIds.length []
      ⟨[], [], none⟩ entry with
  | none =>
      rw [searched] at ends
      cases ends
  | some result =>
      rw [searched] at ends
      have begins : BodySearch.Once (Graph.ofFlow flow) ⟨[], [], none⟩ :=
        ⟨List.nodup_nil, by simp, by simp⟩
      have own : result.1.Once (Graph.ofFlow flow) :=
        Graph.BodySearch.Once.searchWithin keyed start.id _ begins inside searched
      refine ⟨result.1, result.2, rfl, own.distinct, fun id member => ?_, ends⟩
      rcases List.mem_map.mp member with ⟨node, among, rfl⟩
      exact Graph.ids_subset_of_ofFlow flow (Graph.mem_ids (own.known node among))

/-- Every compilation comes to an end. Along a chain of nested calls the path holds the ids of the
nodes before, which are distinct ids of the flow. So calls are not nested more deeply than the flow
has ids, and one more, and within this limit the whole flow is compiled. The search through the body
of a loop goes on from each id at most once. -/
theorem compilation_depth_is_bounded (flow : Flow) :
    (∀ first, (Graph.ofFlow flow).Knows first → ∀ calls last,
      (.root first :: calls).IsChain (Graph.ofFlow flow).Nests →
      (.root first :: calls).getLast? = some last →
        last.path = ((.root first :: calls).dropLast.map fun call => call.node.id) ∧
        last.path.Nodup ∧ last.path ⊆ flow.nodes.map Node.id ∧
        (Graph.NestedCall.root first :: calls).length ≤ flow.distinctIds.length + 1) ∧
    (∀ settings lookup, Compile.buildWithin (flow.distinctIds.length + 1) settings lookup flow =
      some (compile settings lookup flow)) ∧
    ∀ start entry, (Graph.ofFlow flow).Knows start →
      (Graph.ofFlow flow).next? start.id .nextStep = some entry →
        ∃ found error, (Graph.ofFlow flow).searchWithin start.id flow.distinctIds.length []
            ⟨[], [], none⟩ entry = some (found, error) ∧
          (found.body.map Node.id).Nodup ∧ found.body.map Node.id ⊆ flow.nodes.map Node.id ∧
          Graph.Ends (some (found, error)) ((Graph.ofFlow flow).searchBody start.id
            ((Graph.ofFlow flow).ids.erase start.id) ⟨[], [], none⟩ entry) := by
  have keyed := Graph.keyed_ofFlow flow
  have count := flow.length_ids_le
  have sound : ∀ first, (Graph.ofFlow flow).Knows first →
      (Graph.NestedCall.root first).Sound (Graph.ofFlow flow) := fun first known =>
    ⟨known, List.nodup_nil, List.nil_subset _⟩
  refine ⟨fun first known calls last chain isLast => ?_, fun settings lookup => ?_,
    fun start entry => Graph.exists_searchWithin⟩
  · rcases (sound first known).chain keyed calls chain last isLast with ⟨later, path⟩
    have bound := (sound first known).length_chain_le keyed chain
    refine ⟨path, later.distinct, List.Subset.trans later.among (Graph.ids_subset_of_ofFlow flow),
      ?_⟩
    exact Nat.succ_le_succ (Nat.le_trans (Nat.le_add_left _ _) (Nat.le_trans bound count))
  · rw [compile_eq_build]
    refine Compile.buildWithin_eq (fun first known => ?_) settings lookup
    exact (sound first known).within_eq keyed
      (Nat.lt_of_le_of_lt count (by simp [Graph.NestedCall.root]))

namespace Compile

def tangledFlow : Flow where
  flowId := "tangle"
  title := "Tangle"
  organisationId := "shop"
  branchId := "north"
  nodes := [
    ⟨"start", "Start", .trigger ⟨none⟩⟩,
    ⟨"note", "First", .sendText ⟨"Hello", false, none, none⟩⟩,
    ⟨"note", "Second", .sendText ⟨"Bye", false, none, none⟩⟩,
    ⟨"each", "Each", .loopStart ⟨.count 3, none⟩⟩]
  edges := [
    ⟨"1", "start", "note", "next-step"⟩,
    ⟨"2", "note", "note", "next-step"⟩,
    ⟨"3", "each", "each", "next-step"⟩,
    ⟨"4", "each", "nowhere", "next-step"⟩]

end Compile

/-- The tangled flow has three ids, so four nested calls are enough. The second call for the note
stands on a path with its id, and the loop is searched although it leads back to itself. -/
theorem compilation_depth_is_bounded_sample :
    let note : Node := ⟨"note", "Second", .sendText ⟨"Bye", false, none, none⟩⟩
    let each : Node := ⟨"each", "Each", .loopStart ⟨.count 3, none⟩⟩
    let graph := Graph.ofFlow Compile.tangledFlow
    let again : Graph.NestedCall := ⟨none, ["note"], note⟩
    graph.Knows note ∧ [.root note, again].IsChain graph.Nests ∧
      again.path ⊆ Compile.tangledFlow.nodes.map Node.id ∧
      Compile.buildWithin 4 .standard Compile.sampleLookup Compile.tangledFlow =
        some (compile .standard Compile.sampleLookup Compile.tangledFlow) ∧
      graph.Knows each ∧ graph.next? "each" .nextStep = some each ∧
      ∃ result, graph.searchWithin "each" 3 [] ⟨[], [], none⟩ each = some result := by
  intro note each graph again
  have knowsNote : graph.Knows note := show graph.node? "note" = some note by decide
  have knowsEach : graph.Knows each := show graph.node? "each" = some each by decide
  have leads : graph.next? "note" .nextStep = some note := by decide
  have entered : graph.next? "each" .nextStep = some each := by decide
  have chain : [.root note, again].IsChain graph.Nests := by
    refine List.isChain_cons_cons.mpr ⟨?_, .singleton _⟩
    exact .follow ⟨nofun, List.not_mem_nil⟩ (fun start isLoop => by cases isLoop)
      ((Graph.leadsTo_action_iff rfl).mpr leads)
  have count : Compile.tangledFlow.distinctIds.length = 3 := by decide
  rcases compilation_depth_is_bounded Compile.tangledFlow with ⟨chains, compiled, searches⟩
  rw [count] at compiled searches
  rcases searches each each knowsEach entered with ⟨found, error, searched, _⟩
  exact ⟨knowsNote, chain, (chains note knowsNote [again] again chain rfl).2.2.1, compiled _ _,
    knowsEach, entered, (found, error), searched⟩

end FlowCompiler
