import FlowCompiler.Lowering.Role

namespace FlowCompiler

/-! Walks: a flow unfolded into a tree. A node that can be reached along several paths occurs
once for each of them. The nodes of a walk carry labels, at first the nodes of the flow and
later also the names that are generated for their visits. -/

inductive Walk (α : Type) where
  /-- Nothing is connected here, or the loop that the walk is in ends here. -/
  | done
  | terminal (visit : α)
  | action (visit : α) (action : Action) (next : Walk α)
  /-- A fork with its exits, and the walks that begin at those that are connected. -/
  | fork (visit : α) (fork : Fork) (exits : List (Exit × Option (Walk α)))
  /-- A subflow; there is at most one exit, for the case that it is aborted. -/
  | subflow (visit : α) (subflow : Subflow) (exits : List (Exit × Option (Walk α)))
      (next : Walk α)
  | loop (visit : α) (loop : LoopStart) (body next : Walk α)
deriving Inhabited

end FlowCompiler
