import FlowCompiler.Proofs.Acceptance
import FlowCompiler.Proofs.FinalAborts
import FlowCompiler.Proofs.LegibleWire

namespace FlowCompiler

/-! Written programs. The text of a compiled program is read back as the program that was written,
as long as its parts are not nested deeper than a reader follows. A block holds everything that
follows its node, so a program is nested deeper the longer its flow goes on without a fork, and the
flow itself can be flat. -/

/-! ## How deep a program is nested -/

namespace Json

theorem depth_le_depthMembers {name : String} {value : Json} :
    ∀ {members : List (String × Json)}, (name, value) ∈ members →
      value.depth ≤ depthMembers members
  | _ :: _, .head _ => Nat.le_max_left _ _
  | _ :: _, .tail _ among => (depth_le_depthMembers among).trans (Nat.le_max_right _ _)

end Json

namespace Step

def depths (steps : List Step) : Nat :=
  Json.depthItems (wireSteps steps)

theorem depths_append (left right : List Step) :
    depths (left ++ right) = max (depths left) (depths right) := by
  induction left with
  | nil => simp [depths, wireSteps, Json.depthItems]
  | cons step rest induction =>
      simp only [depths, List.cons_append, wireSteps, Json.depthItems] at induction ⊢
      rw [induction, Nat.max_assoc]

theorem depths_block (name : String) (steps : List Step) :
    depths [.block name steps] = depths steps + 3 := by
  simp [depths, wireSteps, wire, Json.depthItems, Json.depth, Json.depthMembers]

end Step

theorem Routine.depth_wire (routine : Routine) :
    Step.depths routine.steps + 2 ≤ routine.wire.depth := by
  have steps : (Json.array (Step.wireSteps routine.steps)).depth ≤ _ :=
    Json.depth_le_depthMembers (List.mem_cons_of_mem ("params", .array (routine.params.map .string))
      (List.mem_singleton_self ("steps", _)))
  exact Nat.succ_le_succ steps

theorem Program.depth_wire {program : Program} {name : String} {routine : Routine}
    (stored : (name, routine) ∈ program.routines.entries) :
    Step.depths routine.steps + 3 ≤ program.wire.depth := by
  have member :
      (name, routine.wire) ∈ (program.routines.map fun _ routine => routine.wire).entries :=
    List.mem_map_of_mem stored
  exact Nat.succ_le_succ (routine.depth_wire.trans (Json.depth_le_depthMembers member))

namespace Walk

/-- How many visits follow each other before the walk ends or forks. -/
def stretch : Walk Visit → Nat
  | .done | .terminal _ | .fork .. => 0
  | .action _ _ next => next.stretch + 1
  | .subflow _ _ _ next => next.stretch + 1
  | .loop _ _ _ next => next.stretch + 1

/-- Each visit is nested in the block of the visit in front of it. -/
theorem stretch_le_depths : ∀ (walk : Walk Visit) (settings : Settings) (scope : Scope),
    3 * walk.stretch ≤ Step.depths (walk.steps settings scope)
  | .done, _, _ | .terminal _, _, _ | .fork .., _, _ => by simp [stretch]
  | .action visit act next, settings, scope => by
      have following := next.stretch_le_depths settings (scope.afterAction visit.names act)
      rw [steps, Step.depths_block, Step.depths_append, stretch]
      omega
  | .subflow visit called exits next, settings, scope => by
      have following := next.stretch_le_depths settings (scope.bindResult visit.names)
      rw [steps, Step.depths_block, Step.depths_append, stretch]
      omega
  | .loop visit start body next, settings, scope => by
      have following := next.stretch_le_depths settings scope
      rw [steps, Step.depths_block, Step.depths_append, stretch]
      omega

end Walk

namespace Compile

variable {settings : Settings} {lookup : BranchLookup} {flow : Flow} {program : Program}

theorem exists_built_of_origin {origin : Origin} (settings : Settings)
    (found : origin? lookup flow = some origin) :
    ∃ program, build settings lookup flow = .ok program := by
  simp only [origin?, Option.bind_eq_bind, Option.bind_eq_some_iff] at found
  obtain ⟨trigger, started, first, connected, branch, located, walk, unfolded, _⟩ := found
  rw [build_of_connected started connected (eq_ok_of_toOption located),
    eq_ok_of_toOption unfolded]
  exact ⟨_, rfl⟩

/-- A program is nested at least three levels deeper for each node that is visited before its walk
ends or forks. -/
theorem stretch_le_depth {origin : Origin} (found : origin? lookup flow = some origin)
    (compiled : compile settings lookup flow = .ok program) :
    3 * origin.walk.stretch + 3 ≤ program.wire.depth := by
  rw [compile_eq_build] at compiled
  have entries := (proper_and_entries_of_origin compiled found).2
  have main : (Program.mainName, mainRoutine settings flow origin.branch origin.scope origin.walk) ∈
      program.routines.entries := by
    rw [entries]
    exact List.mem_cons_self
  have depth := Program.depth_wire main
  have nested := origin.walk.stretch_le_depths settings origin.scope
  rw [mainRoutine, Step.depths_append, Step.depths_append] at depth
  omega

/-- The doubles of a program are read back if those of its flow are, and the factor by which
requests wait longer. -/
theorem exact_wire (accepted : flow.Accepted)
    (compiled : compile settings lookup flow = .ok program)
    (retry : settings.httpRetry.multiplier.ReadsBack)
    (nodes : ∀ node ∈ flow.nodes, ∀ value ∈ node.kind.role.values, Json.Exact value.doubles) :
    Json.Exact program.wire.doubles := by
  intro number member
  cases doubles_wire accepted compiled number member with
  | inl equal => exact equal ▸ retry
  | inr designed =>
      obtain ⟨node, stored, value, among, inside⟩ := designed
      exact nodes node stored value among number inside

end Compile

/-! ## Reading programs -/

/-- The text of a compiled program is read as the wire value of the program, with the members of
objects in the same order. It is refused, as too deep, exactly if arrays and objects are nested too
deep in this value. -/
theorem written_programs_read_back {settings : Settings} {lookup : BranchLookup} {flow : Flow}
    {program : Program} (accepted : flow.Accepted)
    (compiled : compile settings lookup flow = .ok program)
    (exact : Json.Exact program.wire.doubles) :
    Json.parse program.toText =
      if program.wire.depth ≤ Json.maxLevels then .ok program.wire else .error .tooDeep :=
  Json.parse_pretty (Compile.distinct_wire accepted compiled) exact

theorem Double.readsBack_two : Double.two.ReadsBack := by
  have read : (Json.Numeral.read Double.two.toChars).toOption = some (.double .two, []) := by
    decide +kernel
  exact Compile.eq_ok_of_toOption read

theorem written_programs_read_back_sample :
    ∃ program, compile .standard Compile.sampleLookup Compile.sampleFlow = .ok program ∧
      Json.parse program.toText = .ok program.wire := by
  obtain ⟨program, _, compiled, _, fits⟩ := Compile.exists_main_of_any .standard
    Compile.sampleLookup Compile.sampleFlow
    (p := fun program _ => program.wire.depth ≤ Json.maxLevels) (by decide +kernel)
  have accepted : Compile.sampleFlow.Accepted :=
    ⟨.empty, Compile.sampleExport, by simp [Compile.sampleExport, Entries.keys, Json.ofUInt32],
      Compile.ofExport_sampleExport⟩
  have exact : Json.Exact program.wire.doubles :=
    Compile.exact_wire accepted compiled Double.readsBack_two (by
      simp [Compile.sampleFlow, Kind.role, Role.values, Action.values, Fork.values])
  refine ⟨program, compiled, ?_⟩
  rw [written_programs_read_back accepted compiled exact, if_pos (of_decide_eq_true fits)]

/-- The text of a program cannot be read if more than 41 nodes are visited before its walk ends or
forks, however flat the flow is. -/
theorem Compile.tooDeep_of_stretch {settings : Settings} {lookup : BranchLookup} {flow : Flow}
    {program : Program} {origin : Origin} (accepted : flow.Accepted)
    (compiled : compile settings lookup flow = .ok program)
    (exact : Json.Exact program.wire.doubles) (found : origin? lookup flow = some origin)
    (long : 41 < origin.walk.stretch) : Json.parse program.toText = .error .tooDeep := by
  have deep := stretch_le_depth found compiled
  have tooDeep : ¬ program.wire.depth ≤ Json.maxLevels := by
    rw [Json.maxLevels]
    omega
  rw [Program.toText, Json.parse_pretty (distinct_wire accepted compiled) exact, if_neg tooDeep]

def Compile.chainExport (count : Nat) : FlowExport where
  flowId := "chain"
  title := "Chain"
  organisationId := "shop"
  branchId := "north"
  nodes := ⟨"0", "trigger", .null⟩ :: (List.range count).map fun index =>
    ⟨toString (index + 1), "sendText", .object [("message", .string "Hello")]⟩
  edges := (List.range count).map fun index =>
    ⟨toString index, toString index, toString (index + 1), none⟩

theorem written_programs_read_back_chain :
    ∃ flow program, Flow.ofExport .empty (Compile.chainExport 42) = .ok flow ∧ flow.Accepted ∧
      compile .standard Compile.sampleLookup flow = .ok program ∧
      Json.parse program.toText = .error .tooDeep := by
  have evaluated : (Flow.ofExport .empty (Compile.chainExport 42)).toOption.any fun flow =>
      (Compile.origin? Compile.sampleLookup flow).any (41 < ·.walk.stretch) &&
        flow.nodes.all (·.kind.role.values.isEmpty) := by
    decide +kernel
  obtain ⟨flow, loaded, facts⟩ := (Option.any_eq_true _ _).mp evaluated
  obtain ⟨long, plain⟩ := Bool.and_eq_true_iff.mp facts
  obtain ⟨origin, found, long⟩ := (Option.any_eq_true _ _).mp long
  have made := Compile.eq_ok_of_toOption loaded
  have accepted : flow.Accepted :=
    ⟨.empty, Compile.chainExport 42, by simp [Compile.chainExport, Entries.keys], made⟩
  obtain ⟨program, built⟩ := Compile.exists_built_of_origin .standard found
  have compiled := (compile_eq_build .standard Compile.sampleLookup flow).trans built
  have exact : Json.Exact program.wire.doubles := by
    apply Compile.exact_wire accepted compiled Double.readsBack_two
    intro node stored value among
    have none := List.isEmpty_iff.mp (List.all_eq_true.mp plain node stored)
    rw [none] at among
    cases among
  exact ⟨flow, program, made, accepted, compiled,
    Compile.tooDeep_of_stretch accepted compiled exact found (of_decide_eq_true long)⟩

end FlowCompiler
