import FlowCompiler.Proofs.Successors

namespace FlowCompiler.Graph

/-! The stages of an unfolding: the calls that it makes on its way through a graph. An unfolding
fails exactly where one of its stages raises an error. -/

/-! A call of the unfolding: the node at which it arrives, inside the loop with the given bounds if
there is one, and the ids that are not on the path to the node. -/

structure Stage where
  bounds : Option LoopBounds
  unused : List String
  node : Node

def Stage.unfold (graph : Graph) (stage : Stage) : Except WalkError (Walk Node) :=
  graph.unfold stage.bounds stage.unused stage.node

theorem not_any_finish_iff {bounds : Option LoopBounds} {id : String} :
    ¬ (bounds.any fun loop => loop.finish = id) ↔ ∀ loop ∈ bounds, loop.finish ≠ id := by
  cases bounds <;> simp

structure Stage.Passes (stage : Stage) : Prop where
  inside : ∀ loop ∈ stage.bounds, loop.finish ≠ stage.node.id
  fresh : stage.node.id ∈ stage.unused

/-- From one stage the unfolding goes on to another one: behind an outlet, into the body of a loop,
or behind the end marker of the loop. -/
inductive Continues (graph : Graph) : Stage → Stage → Prop
  | follow {bounds : Option LoopBounds} {unused : List String} {node next : Node}
      (passes : Stage.Passes ⟨bounds, unused, node⟩)
      (outside : ∀ start, node.kind.role ≠ .loop start) (leads : graph.LeadsTo node next) :
      Continues graph ⟨bounds, unused, node⟩ ⟨bounds, unused.erase node.id, next⟩
  | enter {unused : List String} {node entry : Node} {start : LoopStart} {chain : LoopChain}
      (fresh : node.id ∈ unused) (role : node.kind.role = .loop start)
      (collected : graph.loopChain node = .ok chain) (first : chain.body.head? = some entry) :
      Continues graph ⟨none, unused, node⟩
        ⟨some ⟨node.id, chain.finish.id⟩, unused.erase node.id, entry⟩
  | leave {unused : List String} {node next : Node} {start : LoopStart} {chain : LoopChain}
      (fresh : node.id ∈ unused) (role : node.kind.role = .loop start)
      (collected : graph.loopChain node = .ok chain)
      (connected : graph.next? chain.finish.id .nextStep = some next) :
      Continues graph ⟨none, unused, node⟩ ⟨none, unused.erase node.id, next⟩

/-! The unfolding itself fails at the stage, and not in one of the calls that it makes there. -/

inductive Raises (graph : Graph) : Stage → WalkError → Prop
  | again {bounds : Option LoopBounds} {unused : List String} {node : Node}
      (inside : ∀ loop ∈ bounds, loop.finish ≠ node.id) (used : node.id ∉ unused) :
      Raises graph ⟨bounds, unused, node⟩ (.cycleDetected node.id)
  | nested {outer : LoopBounds} {unused : List String} {node : Node} {start : LoopStart}
      (passes : Stage.Passes ⟨some outer, unused, node⟩) (role : node.kind.role = .loop start) :
      Raises graph ⟨some outer, unused, node⟩ (.nestedLoop outer.start node.id)
  | uncollected {unused : List String} {node : Node} {start : LoopStart} {error : WalkError}
      (fresh : node.id ∈ unused) (role : node.kind.role = .loop start)
      (failed : graph.loopChain node = .error error) : Raises graph ⟨none, unused, node⟩ error

variable {graph : Graph}

theorem Continues.shrinks {stage next : Stage} (continues : graph.Continues stage next) :
    next.unused.length < stage.unused.length := by
  cases continues with
  | follow passes _ _ => exact length_erase_lt passes.fresh
  | enter fresh _ _ _ => exact length_erase_lt fresh
  | leave fresh _ _ _ => exact length_erase_lt fresh

/-- The first node of a chain is the one behind the start of its loop. -/
theorem next?_of_head? {start entry : Node} {chain : LoopChain}
    (collected : graph.loopChain start = .ok chain) (opened : chain.body.head? = some entry) :
    graph.next? start.id .nextStep = some entry := by
  rcases exists_entry_of_loopChain collected with ⟨first, entered, head | head⟩
  · rw [head] at opened
    exact opened ▸ entered
  · rw [head.1] at opened
    cases opened

theorem Continues.leadsTo {stage next : Stage} (continues : graph.Continues stage next) :
    graph.LeadsTo stage.node next.node := by
  cases continues with
  | follow _ _ leads => exact leads
  | enter _ role collected opened =>
      exact (leadsTo_loop_iff role).mpr (.inl (next?_of_head? collected opened))
  | leave _ role collected connected =>
      exact (leadsTo_loop_iff role).mpr (.inr ⟨_, collected, connected⟩)

theorem Raises.fails {stage : Stage} {error : WalkError} (raises : Raises graph stage error) :
    stage.unfold graph = .error error := by
  rw [Stage.unfold, Graph.unfold]
  cases raises with
  | again inside used => rw [if_neg (not_any_finish_iff.mpr inside), dif_neg used]
  | nested passes role =>
      rw [if_neg (not_any_finish_iff.mpr passes.inside), dif_pos passes.fresh]
      simp only [role]
  | uncollected fresh role failed =>
      rw [if_neg (by simp), dif_pos fresh]
      simp only [role, failed]
      rfl

/-! ## Outlets behind which an unfolding fails -/

section

variable {unfold : Node → Except WalkError (Walk Node)} {id : String} {error : WalkError}

theorem exists_next_of_behind_error {outlet : Outlet}
    (failed : graph.behind id outlet unfold = .error error) :
    ∃ next, graph.next? id outlet = some next ∧ unfold next = .error error := by
  rw [behind] at failed
  cases connected : graph.next? id outlet with
  | none =>
      rw [connected] at failed
      cases failed
  | some next =>
      rw [connected] at failed
      exact ⟨next, rfl, failed⟩

theorem exists_next_of_behindExits_error {exits : List Exit} :
    graph.behindExits id exits unfold = .error error →
      ∃ next, (∃ exit ∈ exits, graph.next? id exit.outlet = some next) ∧
        unfold next = .error error := by
  induction exits with
  | nil =>
      intro failed
      cases failed
  | cons exit rest induction =>
      intro failed
      rw [behindExits, List.mapM_cons] at failed
      rcases bind_eq_error failed with first | ⟨_, _, failed⟩
      · cases connected : graph.next? id exit.outlet with
        | none =>
            rw [connected] at first
            cases first
        | some next =>
            rw [connected] at first
            rcases bind_eq_error first with broken | ⟨walk, _, equal⟩
            · exact ⟨next, ⟨exit, List.mem_cons_self, connected⟩, broken⟩
            · cases equal
      · rcases bind_eq_error failed with others | ⟨_, _, equal⟩
        · rcases induction others with ⟨next, ⟨other, member, found⟩, broken⟩
          exact ⟨next, ⟨other, List.mem_cons_of_mem _ member, found⟩, broken⟩
        · cases equal

end

/-! ## Stages that fail -/

def FailsFrom (graph : Graph) (stage : Stage) (error : WalkError) : Prop :=
  Raises graph stage error ∨
    ∃ next, graph.Continues stage next ∧ next.unfold graph = .error error

section

variable {node : Node} {unused : List String} {error : WalkError}

theorem failsFrom_of_loop {start : LoopStart} (role : node.kind.role = .loop start)
    (fresh : node.id ∈ unused) (failed : graph.unfold none unused node = .error error) :
    FailsFrom graph ⟨none, unused, node⟩ error := by
  rw [unfold, if_neg (by simp), dif_pos fresh] at failed
  simp only [role] at failed
  rcases bind_eq_error failed with uncollected | ⟨chain, collected, failed⟩
  · exact .inl (.uncollected fresh role uncollected)
  · have left : ∀ body : Walk Node, (do
        let next ← graph.behind chain.finish.id .nextStep fun next =>
          graph.unfold none (unused.erase node.id) next
        return Walk.loop node start body next) = .error error →
          FailsFrom graph ⟨none, unused, node⟩ error := by
      intro body failed
      rcases bind_eq_error failed with behind | ⟨_, _, equal⟩
      · rcases exists_next_of_behind_error behind with ⟨next, found, failed⟩
        exact .inr ⟨_, .leave fresh role collected found, failed⟩
      · cases equal
    cases first : chain.body.head? with
    | some entry =>
        rw [first] at failed
        rcases bind_eq_error failed with body | ⟨body, _, failed⟩
        · exact .inr ⟨_, .enter fresh role collected first, body⟩
        · exact left body failed
    | none =>
        rw [first] at failed
        exact left .done failed

theorem failsFrom_of_unfold {bounds : Option LoopBounds}
    (failed : graph.unfold bounds unused node = .error error) :
    FailsFrom graph ⟨bounds, unused, node⟩ error := by
  by_cases inside : ∀ loop ∈ bounds, loop.finish ≠ node.id
  · have opened := failed
    rw [unfold, if_neg (not_any_finish_iff.mpr inside)] at opened
    by_cases fresh : node.id ∈ unused
    · rw [dif_pos fresh] at opened
      have passes : Stage.Passes ⟨bounds, unused, node⟩ := ⟨inside, fresh⟩
      -- At a node that is no loop, only the calls behind its outlets can fail.
      have follow : ∀ next, (∀ start, node.kind.role ≠ .loop start) → graph.LeadsTo node next →
          graph.unfold bounds (unused.erase node.id) next = .error error →
            FailsFrom graph ⟨bounds, unused, node⟩ error :=
        fun next outside leads failed => .inr ⟨_, .follow passes outside leads, failed⟩
      cases role : node.kind.role with
      | terminal =>
          simp only [role] at opened
          cases opened
      | action action =>
          simp only [role] at opened
          rcases bind_eq_error opened with behind | ⟨_, _, equal⟩
          · rcases exists_next_of_behind_error behind with ⟨next, found, failed⟩
            exact follow next (by simp [role]) ((leadsTo_action_iff role).mpr found) failed
          · split at equal <;> cases equal
      | fork fork =>
          simp only [role] at opened
          rcases bind_eq_error opened with behind | ⟨_, _, equal⟩
          · rcases exists_next_of_behindExits_error behind with ⟨next, found, failed⟩
            exact follow next (by simp [role]) ((leadsTo_fork_iff role).mpr found) failed
          · cases equal
      | subflow subflow =>
          simp only [role] at opened
          rcases bind_eq_error opened with behind | ⟨_, _, opened⟩
          · rcases exists_next_of_behindExits_error behind with ⟨next, found, failed⟩
            exact follow next (by simp [role]) ((leadsTo_subflow_iff role).mpr (.inl found)) failed
          · rcases bind_eq_error opened with behind | ⟨_, _, equal⟩
            · rcases exists_next_of_behind_error behind with ⟨next, found, failed⟩
              exact follow next (by simp [role]) ((leadsTo_subflow_iff role).mpr (.inr found))
                failed
            · cases equal
      | loop start =>
          cases bounds with
          | some outer =>
              simp only [role] at opened
              cases opened
              exact .inl (.nested passes role)
          | none => exact failsFrom_of_loop role fresh failed
    · rw [dif_neg fresh] at opened
      cases opened
      exact .inl (.again inside fresh)
  · rw [unfold, if_pos (Decidable.not_not.mp (mt not_any_finish_iff.mp inside))] at failed
    cases failed

end

/-- An unfolding that fails has come to a stage that raises the error. -/
theorem exists_raising_of_unfold {stage : Stage} {error : WalkError}
    (failed : stage.unfold graph = .error error) :
    ∃ origin, Relation.ReflTransGen graph.Continues stage origin ∧ Raises graph origin error := by
  rcases failsFrom_of_unfold failed with raises | ⟨next, continues, failed⟩
  · exact ⟨stage, .refl, raises⟩
  · rcases exists_raising_of_unfold failed with ⟨origin, reached, raises⟩
    exact ⟨origin, reached.head continues, raises⟩
termination_by stage.unused.length
decreasing_by exact continues.shrinks

end FlowCompiler.Graph
