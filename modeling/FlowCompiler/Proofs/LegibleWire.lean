import FlowCompiler.Program.Wire
import FlowCompiler.Proofs.DistinctSettings
import FlowCompiler.Proofs.Origins

namespace FlowCompiler

/-! What a compiled program is written from. No object in its wire value repeats a name: every
object is written with fixed names, or has the names of a table, or was written by a designer. Its
doubles come from the settings of the compiler or from a designer as well. -/

/-! ## Legible values -/

namespace Json

theorem mem_doublesItems {items : List Json} {number : Double} :
    number ∈ doublesItems items ↔ ∃ item ∈ items, number ∈ item.doubles := by
  induction items with
  | nil => simp [doublesItems]
  | cons item rest induction => simp [doublesItems, induction]

theorem mem_doublesMembers {members : List (String × Json)} {number : Double} :
    number ∈ doublesMembers members ↔ ∃ member ∈ members, number ∈ member.2.doubles := by
  induction members with
  | nil => simp [doublesMembers]
  | cons member rest induction =>
      obtain ⟨name, value⟩ := member
      simp [doublesMembers, induction]

/-! A value is legible if no object in it repeats a name and every double in it is good. Whatever
holds values is legible if they are. -/

def Legible (good : Double → Prop) (value : Json) : Prop :=
  value.Distinct ∧ ∀ number ∈ value.doubles, good number

def LegibleMembers (good : Double → Prop) (members : List (String × Json)) : Prop :=
  ∀ member ∈ members, member.2.Legible good

variable {good : Double → Prop}

@[simp] theorem legible_null : Json.null.Legible good := by
  simp [Legible, doubles]

@[simp] theorem legible_bool (value : Bool) : (Json.bool value).Legible good := by
  simp [Legible, doubles]

@[simp] theorem legible_string (text : String) : (Json.string text).Legible good := by
  simp [Legible, doubles]

@[simp] theorem legible_evaluate (body : String) : (Expression.evaluate body).Legible good :=
  legible_string _

@[simp] theorem legible_ofVariable (name : String) : (Expression.ofVariable name).Legible good :=
  legible_string _

@[simp] theorem legible_ofUInt64 (value : UInt64) : (ofUInt64 value).Legible good := by
  simp [Legible, ofUInt64, doubles]

@[simp] theorem legible_ofUInt32 (value : UInt32) : (ofUInt32 value).Legible good := by
  simp [Legible, ofUInt32, doubles]

@[simp] theorem legible_ofDouble {value : Double} : (ofDouble value).Legible good ↔ good value := by
  simp [Legible, ofDouble, doubles]

@[simp] theorem legible_array {items : List Json} :
    (Json.array items).Legible good ↔ ∀ item ∈ items, item.Legible good := by
  simp only [Legible, doubles, distinct_array, mem_doublesItems]
  constructor
  · rintro ⟨distinct, doubles⟩ item member
    exact ⟨distinct item member, fun number among => doubles number ⟨item, member, among⟩⟩
  · intro legible
    refine ⟨fun item member => (legible item member).1, ?_⟩
    rintro number ⟨item, member, among⟩
    exact (legible item member).2 number among

@[simp] theorem legible_object {members : List (String × Json)} :
    (Json.object members).Legible good ↔
      (Entries.keys members).Nodup ∧ LegibleMembers good members := by
  simp only [Legible, LegibleMembers, doubles, distinct_object, distinctMembers_iff,
    mem_doublesMembers]
  constructor
  · rintro ⟨⟨names, distinct⟩, doubles⟩
    exact ⟨names, fun member among => ⟨distinct member among, fun number inside =>
      doubles number ⟨member, among, inside⟩⟩⟩
  · rintro ⟨names, legible⟩
    refine ⟨⟨names, fun member among => (legible member among).1⟩, ?_⟩
    rintro number ⟨member, among, inside⟩
    exact (legible member among).2 number inside

@[simp] theorem legibleMembers_nil : LegibleMembers good [] := by
  simp [LegibleMembers]

@[simp] theorem legibleMembers_cons {member : String × Json} {rest : List (String × Json)} :
    LegibleMembers good (member :: rest) ↔ member.2.Legible good ∧ LegibleMembers good rest :=
  List.forall_mem_cons

theorem LegibleMembers.insert {members : List (String × Json)}
    (legible : LegibleMembers good members) (name : String) {value : Json}
    (sound : value.Legible good) :
    LegibleMembers good (Entries.insert name value members) := by
  intro member inserted
  cases Entries.eq_or_mem_of_mem_insert inserted with
  | inl equal => exact equal ▸ sound
  | inr stored => exact legible member stored

theorem LegibleMembers.ofList {entries : List (String × Json)}
    (legible : LegibleMembers good entries) :
    LegibleMembers good (Table.ofList entries).entries :=
  fun entry member => legible entry (Table.mem_of_mem_ofList member)

end Json

/-! ## Steps -/

@[simp] theorem Table.nodup_entries {α : Type} (table : Table α) :
    (Entries.keys table.entries).Nodup :=
  table.distinct

open Json (LegibleMembers)

variable {good : Double → Prop}

theorem RetryPolicy.legible_wire {policy : RetryPolicy} (multiplier : good policy.multiplier) :
    policy.wire.Legible good := by
  simp [wire, multiplier]

theorem Call.legible_wireMembers {call : Call} (args : LegibleMembers good call.args.entries)
    (retry : ∀ policy ∈ call.retry, good policy.multiplier) :
    (Json.object call.wireMembers).Legible good := by
  have retried := fun policy chosen => RetryPolicy.legible_wire (retry policy chosen)
  rw [wireMembers]
  cases call.result <;> cases written : call.retry <;> split <;>
    simp_all [optionalMember]

def LegibleSteps (good : Double → Prop) (steps : List Step) : Prop :=
  ∀ step ∈ steps, step.wire.Legible good

@[simp] theorem legibleSteps_nil : LegibleSteps good [] := by
  simp [LegibleSteps]

@[simp] theorem legibleSteps_cons {step : Step} {rest : List Step} :
    LegibleSteps good (step :: rest) ↔ step.wire.Legible good ∧ LegibleSteps good rest :=
  List.forall_mem_cons

@[simp] theorem legibleSteps_append {left right : List Step} :
    LegibleSteps good (left ++ right) ↔ LegibleSteps good left ∧ LegibleSteps good right :=
  List.forall_mem_append

theorem legibleSteps_iff {steps : List Step} :
    (Json.array (Step.wireSteps steps)).Legible good ↔ LegibleSteps good steps := by
  induction steps with
  | nil => simp [LegibleSteps, Step.wireSteps]
  | cons first rest induction =>
      simp only [Json.legible_array] at induction
      simp [LegibleSteps, Step.wireSteps, induction]

structure Case.Legible (good : Double → Prop) (branch : Case) : Prop where
  condition : ∀ value ∈ branch.condition, value.Legible good
  steps : LegibleSteps good branch.steps

namespace Step

variable {name : String} {steps : List Step}

theorem legible_call {call : Call} (args : LegibleMembers good call.args.entries)
    (retry : ∀ policy ∈ call.retry, good policy.multiplier) :
    (Step.call name call).wire.Legible good := by
  simpa [wire] using Call.legible_wireMembers args retry

theorem legible_assign {bindings : List (String × Json)} (values : LegibleMembers good bindings) :
    (Step.assign name bindings).wire.Legible good := by
  have each : ∀ item ∈ bindings.map fun binding => Json.object [binding], item.Legible good := by
    intro item member
    obtain ⟨⟨variableName, value⟩, among, rfl⟩ := List.mem_map.mp member
    simpa using values _ among
  have list := Json.legible_array.mpr each
  simp [-Json.legible_array, wire, list]

theorem legible_block (inside : LegibleSteps good steps) :
    LegibleSteps good [.block name steps] := by
  have inside := legibleSteps_iff.mpr inside
  simpa [wire] using inside

theorem legible_loop {head : LoopHead}
    (source : ∀ value, head.source = .list value → value.Legible good)
    (inside : LegibleSteps good steps) : (Step.loop name head steps).wire.Legible good := by
  have inside := legibleSteps_iff.mpr inside
  obtain ⟨value, index, iterated⟩ := head
  simp only [wire, Json.legible_object, LoopHead.wireMembers]
  cases index <;> cases iterated <;> simp_all [optionalMember]

theorem legible_raise {value : Json} (legible : value.Legible good) :
    (Step.raise name value).wire.Legible good := by
  simpa [wire] using legible

theorem legible_return {value : Json} (legible : value.Legible good) :
    (Step.return name value).wire.Legible good := by
  simpa [wire] using legible

theorem legible_switch {cases : List Case} (legible : ∀ branch ∈ cases, branch.Legible good) :
    (Step.switch name cases).wire.Legible good := by
  have inside : ∀ value ∈ wireCases cases, value.Legible good := by
    induction cases with
    | nil => simp [wireCases]
    | cons first rest induction =>
        rw [List.forall_mem_cons] at legible
        obtain ⟨condition, steps, next⟩ := first
        rw [wireCases, List.forall_mem_cons]
        refine ⟨?_, induction legible.2⟩
        have value : (condition.getD (.bool true)).Legible good := by
          cases condition with
          | none => simp
          | some value => exact legible.1.condition value rfl
        have steps := legibleSteps_iff.mpr legible.1.steps
        rw [Case.steps] at steps
        rw [Json.legible_object]
        cases next <;> split <;> simp_all [-Json.legible_array, optionalMember]
  simpa [wire] using inside

end Step

theorem Routine.legible_wire {routine : Routine} (steps : LegibleSteps good routine.steps) :
    routine.wire.Legible good := by
  have steps := legibleSteps_iff.mpr steps
  simp_all [wire]

theorem Program.legible_wire {program : Program}
    (routines : ∀ entry ∈ program.routines.entries, LegibleSteps good entry.2.steps) :
    program.wire.Legible good := by
  rw [wire, Json.legible_object]
  refine ⟨Table.distinct _, ?_⟩
  intro entry member
  obtain ⟨⟨name, routine⟩, stored, rfl⟩ := List.mem_map.mp member
  exact Routine.legible_wire (routines (name, routine) stored)

/-! ## Registries -/

def Registry.Legible (good : Double → Prop) (registry : Registry) : Prop :=
  LegibleMembers good registry.bindings.entries

namespace Registry

variable {registry : Registry}

theorem Legible.bind (legible : registry.Legible good) (name : String) {value : Json}
    (sound : value.Legible good) : (registry.bind name value).Legible good :=
  Json.LegibleMembers.insert legible name sound

theorem Legible.bindVariable (legible : registry.Legible good) (name : String) :
    (registry.bindVariable name).Legible good :=
  legible.bind name (by simp)

theorem Legible.reserve (legible : registry.Legible good) (name : String) :
    (registry.reserve name).Legible good :=
  reserve_preserves (Legible good) legible (legible.bind name (by simp))

theorem legible_rebased (registry : Registry) : registry.rebased.Legible good := by
  intro entry member
  obtain ⟨_, _, rfl⟩ := List.mem_map.mp member
  simp

theorem Legible.callArgs (legible : registry.Legible good) :
    LegibleMembers good registry.callArgs.entries := by
  intro entry member
  cases Table.mem_or_mem_of_mem_insertAll _ member with
  | inl member =>
      cases Table.eq_or_mem_of_mem_insert member with
      | inl equal => simp [equal]
      | inr none => cases none
  | inr member => exact legible entry member

theorem Legible.reference (legible : registry.Legible good) (name : String) :
    (registry.reference name).Legible good := by
  rw [Registry.reference]
  cases found : registry.get? name with
  | none => simp
  | some value =>
      exact legible _ (Table.get?_eq_some_iff.mp found)

end Registry

/-! ## What nodes emit -/

section Emission

open Expression Lowering

variable {settings : Settings} {names : Names} {registry : Registry}

theorem legible_post (retry : good settings.httpRetry.multiplier) (name path : String)
    (result : Option String) {body : Json} (legible : body.Legible good) :
    (post settings name path body result).wire.Legible good :=
  Step.legible_call (LegibleMembers.ofList (by simp [endpoint, legible])) (by simp [retry])

theorem legible_dispatch (name routine : String) (names : Names) (legible : registry.Legible good) :
    (dispatch name routine names registry).wire.Legible good :=
  Step.legible_call legible.callArgs (by simp)

theorem legible_clearSession (retry : good settings.httpRetry.multiplier) (name : String) :
    (clearSession settings name).wire.Legible good :=
  legible_post retry name _ _ (by simp)

theorem legible_assignResult (names : Names) {value : Json} (legible : value.Legible good) :
    (assignResult names value).wire.Legible good :=
  Step.legible_assign (by simpa using legible)

theorem legible_messageBody (legible : registry.Legible good) (type : String)
    {content : List (String × Json)} (inside : (Json.object content).Legible good) :
    (messageBody registry type content).Legible good := by
  have branch := legible.reference Registry.branchId
  simp_all [messageBody]

theorem Action.legible_steps (retry : good settings.httpRetry.multiplier)
    (legible : registry.Legible good) {act : Action}
    (values : ∀ value ∈ act.values, value.Legible good) :
    LegibleSteps good (act.steps settings names registry) := by
  have branch := legible.reference Registry.branchId
  have branchName := legible.reference Registry.branchName
  cases act with
  | message sent => simp [Action.steps, legible_post retry, legible_messageBody, legible]
  | delay pause => simp [Action.steps, Step.legible_call, LegibleMembers.ofList]
  | saveFields save =>
      have fields :
          LegibleMembers good (save.fields.map fun field => (field.key, field.value)) := by
        simpa [LegibleMembers, Action.values] using values
      simp [Action.steps, legible_post retry, branch, fields.ofList]
  | saveVariable save => simp_all [Action.steps, legible_post retry, Action.values]
  | apiCall request =>
      have headers : LegibleMembers good
          (request.headers.map fun _ value => Json.string value).entries := by
        intro entry member
        obtain ⟨_, _, rfl⟩ := List.mem_map.mp member
        simp
      have body : ∀ body ∈ request.body, body.Legible good := by simpa [Action.values] using values
      rw [Action.steps, legibleSteps_cons]
      refine ⟨Step.legible_call (LegibleMembers.ofList ?_) (by simp [retry]), by simp⟩
      cases written : request.body <;> split <;> simp_all
  | webhook hook => simp [Action.steps, Step.legible_call, LegibleMembers.ofList]
  | alert notice => simp_all [Action.steps, legible_post]
  | utility request =>
      have arguments : LegibleMembers good request.arguments.entries :=
        fun entry member => values entry.2 (List.mem_map_of_mem member)
      simp [Action.steps, legible_post retry, branch, arguments]

theorem Action.legible_binding {act : Action} (values : ∀ value ∈ act.values, value.Legible good) :
    LegibleSteps good (act.binding names) := by
  cases act <;> simp_all [Action.binding, Action.result?, Action.values, legible_assignResult]

theorem Action.legible_registryAfter (legible : registry.Legible good) (act : Action) :
    (act.registryAfter names registry).Legible good := by
  rw [Action.registryAfter]
  split
  · exact legible.bindVariable names.result
  · exact legible

/-! ### Forks -/

theorem Condition.legible_toJson {condition : Condition} (value : condition.value.Legible good) :
    condition.toJson.Legible good := by
  simp [toJson, value]

theorem BranchPath.legible_toJson {path : BranchPath}
    (values : ∀ condition ∈ path.conditions, condition.value.Legible good) :
    path.toJson.Legible good := by
  have conditions := fun condition among => Condition.legible_toJson (values condition among)
  simpa [toJson] using conditions

theorem ListRow.legible_toJson (row : ListRow) : row.toJson.Legible good := by
  rw [toJson]
  cases row.description <;> simp

theorem ListSection.legible_toJson (listed : ListSection) : listed.toJson.Legible good := by
  simp [toJson, ListRow.legible_toJson]

theorem Fork.legible_content (choice : Fork) : (Json.object choice.content.2).Legible good := by
  cases choice <;> simp [Fork.content, Button.toJson, ListSection.legible_toJson]

theorem Fork.legible_promptSteps (retry : good settings.httpRetry.multiplier)
    (legible : registry.Legible good) (choice : Fork) :
    LegibleSteps good (choice.promptSteps settings names registry) := by
  have body := legible_messageBody legible choice.content.1 choice.legible_content
  have sent := legible_post retry (names.step "send") messagesPath (some (names.step "sent")) body
  simp only [Fork.promptSteps]
  split <;> simp [Step.legible_assign, Step.legible_call, LegibleMembers.ofList, sent]

theorem Fork.legible_evaluationSteps (retry : good settings.httpRetry.multiplier)
    (legible : registry.Legible good) {rules : List (String × Json)}
    (fresh : (Entries.keys rules).Nodup ∧ ∀ name ∈ ["branch_id", "session_id", "contact"],
      name ∉ Entries.keys rules) (values : LegibleMembers good rules) :
    LegibleSteps good (evaluationSteps settings names registry rules) := by
  have branch := legible.reference Registry.branchId
  simp_all [evaluationSteps, legible_post, legible_assignResult]

theorem Fork.legible_openingSteps (retry : good settings.httpRetry.multiplier)
    (legible : registry.Legible good) {choice : Fork}
    (values : ∀ value ∈ choice.values, value.Legible good) :
    LegibleSteps good (choice.openingSteps settings names registry) := by
  cases choice with
  | split rules =>
      apply legible_evaluationSteps retry legible (by simp [Entries.keys])
      have conditions : ∀ condition ∈ rules.conditions, condition.toJson.Legible good :=
        fun condition among => Condition.legible_toJson (values _ (List.mem_map_of_mem among))
      simpa using conditions
  | branch options =>
      apply legible_evaluationSteps retry legible (by simp [Entries.keys])
      have paths : ∀ path ∈ options.paths, path.toJson.Legible good := by
        intro path onPath
        apply BranchPath.legible_toJson
        intro condition among
        exact values _ (List.mem_flatMap.mpr ⟨path, onPath, List.mem_map_of_mem among⟩)
      simpa using paths
  | text | buttons | list => exact legible_promptSteps retry legible _

theorem Fork.legible_condition? (names : Names) (test : ExitTest) :
    ∀ value ∈ condition? names test, value.Legible good := by
  cases test with
  | text format => cases format <;> simp [condition?]
  | reply | verdict | label | otherwise | aborted => simp [condition?]

theorem Fork.legible_cases (legible : registry.Legible good) (choice : Fork) (exits : List Exit) :
    ∀ branch ∈ choice.cases names registry exits, branch.Legible good := by
  simp only [Fork.cases, List.forall_mem_flatMap, List.forall_mem_append, List.forall_mem_singleton]
  intro exit _
  constructor
  · split
    · simp only [List.forall_mem_singleton]
      exact ⟨by simp [retryCase, Case.condition],
        by simp [retryCase, Case.steps, Step.legible_assign]⟩
    · simp
  · exact ⟨legible_condition? names exit.test,
      by simp [exitCase, Case.steps, legible_dispatch, legible]⟩

theorem Fork.legible_steps (retry : good settings.httpRetry.multiplier)
    (legible : registry.Legible good) {choice : Fork}
    (values : ∀ value ∈ choice.values, value.Legible good) (exits : List Exit) :
    LegibleSteps good (choice.steps settings names registry exits) := by
  rw [Fork.steps, legibleSteps_append]
  refine ⟨legible_openingSteps retry legible values, ?_⟩
  simpa using Step.legible_switch (legible_cases (legible.bindVariable names.result) choice exits)

/-! ### Subflows and loops -/

theorem Subflow.legible_abortSteps (retry : good settings.httpRetry.multiplier)
    (legible : registry.Legible good) (called : Subflow) (exits : List Exit) (abort : Abort) :
    LegibleSteps good (called.abortSteps settings names registry exits abort) := by
  cases exits with
  | nil => simp [abortSteps, Step.legible_raise]
  | cons exit _ =>
      simp [abortSteps, legible_dispatch, legible, legible_clearSession retry, Step.legible_return]

theorem Subflow.legible_checkCases (retry : good settings.httpRetry.multiplier)
    (legible : registry.Legible good) (called : Subflow) (exits : List Exit) :
    ∀ branch ∈ called.checkCases settings names registry exits, branch.Legible good := by
  simp only [checkCases, List.forall_mem_cons]
  refine ⟨⟨by simp [Case.condition], legibleSteps_nil⟩,
    ⟨by simp [Case.condition], legible_abortSteps retry legible called exits .failed⟩,
    ⟨by simp [Case.condition], legible_abortSteps retry legible called exits .timedOut⟩,
    ⟨by simp [Case.condition], ?_⟩, by simp⟩
  simp [Case.steps, Step.legible_assign, Step.legible_call, LegibleMembers.ofList]

theorem Subflow.legible_steps (retry : good settings.httpRetry.multiplier)
    (legible : registry.Legible good) (called : Subflow) (exits : List Exit) :
    LegibleSteps good (called.steps settings names registry exits) := by
  have branch := legible.reference Registry.branchId
  have arguments := legible.callArgs
  have check : (Step.switch (names.step "check")
      (called.checkCases settings names registry exits)).wire.Legible good :=
    Step.legible_switch (legible_checkCases retry legible called exits)
  simp [Subflow.steps, Step.legible_call, LegibleMembers.ofList, legible_post retry, branch,
    arguments, Step.legible_assign, check, document, legible_clearSession retry, retry]

theorem LoopStart.legible_listValue (expression : String) :
    (listValue expression).Legible good := by
  simp only [listValue]
  split <;> simp

theorem LoopStart.legible_bodyCall (legible : registry.Legible good) (start : LoopStart) :
    (start.bodyCall names registry).wire.Legible good := by
  apply Step.legible_call
  · apply LegibleMembers.insert (legible.callArgs.insert _ (by simp))
    cases start.loopValue <;> simp
  · simp

theorem LoopStart.legible_steps (legible : registry.Legible good) (start : LoopStart) :
    LegibleSteps good (start.steps settings names registry) := by
  have body : (start.bodyCall names registry).wire.Legible good := legible_bodyCall legible start
  have guard : (guardStep names).wire.Legible good := by
    apply Step.legible_switch
    simp only [List.forall_mem_singleton]
    exact ⟨by simp [Case.condition], legibleSteps_nil⟩
  have setup : LegibleMembers good (start.setup settings names) := by
    rw [LoopStart.setup]
    cases start.loopValue <;> simp [legible_listValue]
  have iteration : LegibleSteps good (start.iteration names registry) := by
    rw [LoopStart.iteration]
    cases start.loopValue <;> simp [guard, body]
  have source : ∀ value, (start.head settings names).source = .list value → value.Legible good := by
    rw [LoopStart.head]
    cases start.loopValue <;> simp
  simp [LoopStart.steps, Step.legible_assign, setup, Step.legible_loop source iteration]

end Emission

/-! ## Walks -/

def Node.Legible (good : Double → Prop) (node : Node) : Prop :=
  ∀ value ∈ node.kind.role.values, value.Legible good

namespace Scope

variable {scope : Scope}

theorem legible_afterAction (legible : scope.registry.Legible good) (names : Names) (act : Action) :
    (scope.afterAction names act).registry.Legible good :=
  Action.legible_registryAfter legible act

theorem legible_bindResult (legible : scope.registry.Legible good) (names : Names) :
    (scope.bindResult names).registry.Legible good :=
  legible.bindVariable names.result

theorem legible_enterRoutine (scope : Scope) : scope.enterRoutine.registry.Legible good :=
  Registry.legible_rebased scope.registry

theorem legible_enterLoop (scope : Scope) : scope.enterLoop.registry.Legible good :=
  ((Registry.legible_rebased _).bindVariable _).bindVariable _

end Scope

namespace Walk

variable {settings : Settings}

def Legible (good : Double → Prop) (walk : Walk Visit) : Prop :=
  ∀ visit ∈ walk.visits, visit.node.Legible good

theorem legible_steps (retry : good settings.httpRetry.multiplier) :
    ∀ (walk : Walk Visit) {scope : Scope} {inside : Bool},
    scope.registry.Legible good → walk.InRoles Visit.node inside → walk.Legible good →
      LegibleSteps good (walk.steps settings scope)
  | .done, _, _, _, _, _ => by simp [steps]
  | .terminal visit, _, _, _, _, _ => by simp [steps, Step.legible_return, Scope.terminalValue]
  | .action visit act next, _, _, legible, roles, sound => by
      obtain ⟨own, behind⟩ := List.forall_mem_cons.mp sound
      rw [Node.Legible, roles.1] at own
      have following := legible_steps retry next (Scope.legible_afterAction legible visit.names act)
        roles.2.2 behind
      rw [steps]
      apply Step.legible_block
      simp only [legibleSteps_append]
      exact ⟨⟨Action.legible_steps retry legible own, Action.legible_binding own⟩, following⟩
  | .fork visit choice exits, _, _, legible, roles, sound => by
      obtain ⟨own, _⟩ := List.forall_mem_cons.mp sound
      rw [Node.Legible, roles.1] at own
      rw [steps]
      exact Step.legible_block (Fork.legible_steps retry legible own _)
  | .subflow visit called exits next, _, _, legible, roles, sound => by
      obtain ⟨_, inside⟩ := List.forall_mem_cons.mp sound
      obtain ⟨_, behind⟩ := List.forall_mem_append.mp inside
      have following := legible_steps retry next (Scope.legible_bindResult legible visit.names)
        roles.2.2 behind
      rw [steps]
      apply Step.legible_block
      rw [legibleSteps_append]
      exact ⟨Subflow.legible_steps retry legible called _, following⟩
  | .loop visit start _ next, _, _, legible, roles, sound => by
      obtain ⟨_, inside⟩ := List.forall_mem_cons.mp sound
      obtain ⟨_, behind⟩ := List.forall_mem_append.mp inside
      have following := legible_steps retry next legible roles.2.2.2 behind
      rw [steps]
      apply Step.legible_block
      rw [legibleSteps_append]
      exact ⟨LoopStart.legible_steps legible start, following⟩

theorem legible_exitRoutine (retry : good settings.httpRetry.multiplier) (scope : Scope)
    {walk : Walk Visit} {inside : Bool} (roles : walk.InRoles Visit.node inside)
    (sound : walk.Legible good) : LegibleSteps good (exitRoutine settings scope walk).steps := by
  have steps : LegibleSteps good (walk.steps settings scope.enterRoutine) :=
    legible_steps retry walk (Scope.legible_enterRoutine scope) roles sound
  simp [exitRoutine, steps, finishStep, Step.legible_return]

theorem legible_bodyRoutine (retry : good settings.httpRetry.multiplier) (scope : Scope)
    {body : Walk Visit} {inside : Bool} (roles : body.InRoles Visit.node inside)
    (sound : body.Legible good) : LegibleSteps good (bodyRoutine settings scope body).steps := by
  have steps : LegibleSteps good (body.steps settings scope.enterLoop) :=
    legible_steps retry body (Scope.legible_enterLoop scope) roles sound
  simp [bodyRoutine, steps, Step.legible_return]

mutual
theorem legible_routines (retry : good settings.httpRetry.multiplier) :
    ∀ (walk : Walk Visit) {scope : Scope} {inside : Bool},
    scope.registry.Legible good → walk.InRoles Visit.node inside → walk.Legible good →
      ∀ entry ∈ walk.routines settings scope, LegibleSteps good entry.2.steps
  | .done, _, _, _, _, _ => by simp [routines]
  | .terminal _, _, _, _, _, _ => by simp [routines]
  | .action visit act next, _, _, legible, roles, sound => by
      obtain ⟨_, behind⟩ := List.forall_mem_cons.mp sound
      rw [routines]
      exact legible_routines retry next (Scope.legible_afterAction legible visit.names act)
        roles.2.2 behind
  | .fork visit choice exits, _, _, legible, roles, sound => by
      obtain ⟨_, inside⟩ := List.forall_mem_cons.mp sound
      rw [routines]
      exact legible_exitRoutines retry exits roles.2 inside
  | .subflow visit called exits next, _, _, legible, roles, sound => by
      obtain ⟨_, inside⟩ := List.forall_mem_cons.mp sound
      obtain ⟨behindExits, behind⟩ := List.forall_mem_append.mp inside
      rw [routines, List.forall_mem_append]
      exact ⟨legible_exitRoutines retry exits roles.2.1 behindExits,
        legible_routines retry next (Scope.legible_bindResult legible visit.names) roles.2.2 behind⟩
  | .loop visit start body next, scope, _, legible, roles, sound => by
      obtain ⟨_, inside⟩ := List.forall_mem_cons.mp sound
      obtain ⟨inBody, behind⟩ := List.forall_mem_append.mp inside
      simp only [routines, List.forall_mem_append, List.forall_mem_singleton]
      exact ⟨⟨legible_routines retry body (Scope.legible_enterLoop scope) roles.2.2.1 inBody,
        legible_bodyRoutine retry scope roles.2.2.1 inBody⟩,
        legible_routines retry next legible roles.2.2.2 behind⟩

theorem legible_exitRoutines (retry : good settings.httpRetry.multiplier) {names : Names}
    {scope : Scope} :
    ∀ (exits : List (Exit × Option (Walk Visit))) {inside : Bool},
      ExitsInRoles Visit.node inside exits → (∀ visit ∈ exitVisits exits, visit.node.Legible good) →
      ∀ entry ∈ exitRoutines settings names scope exits, LegibleSteps good entry.2.steps
  | [], _, _, _ => by simp [exitRoutines]
  | (exit, none) :: rest, _, roles, sound => by
      rw [exitRoutines, List.forall_mem_cons]
      exact ⟨by simp [stubRoutine, stubStep, Step.legible_return],
        legible_exitRoutines retry rest roles sound⟩
  | (exit, some walk) :: rest, _, roles, sound => by
      obtain ⟨inside, behind⟩ := List.forall_mem_append.mp sound
      rw [exitRoutines, List.forall_mem_append, List.forall_mem_cons]
      exact ⟨legible_routines retry walk (Scope.legible_enterRoutine scope) roles.1 inside,
        legible_exitRoutine retry scope roles.1 inside,
        legible_exitRoutines retry rest roles.2 behind⟩
end

end Walk

/-! ## Programs -/

namespace Compile

variable {settings : Settings} {lookup : BranchLookup} {flow : Flow} {program : Program}

theorem legible_branchRegistry (flow : Flow) (branch : Branch) :
    (branchRegistry flow branch).Legible good := by
  have none : Registry.empty.Legible good := Json.legibleMembers_nil
  exact (none.bind _ (Json.legible_string _)).bind _ (Json.legible_string _)

theorem legible_reserveAll : ∀ (children : List Node) (source : NameSource) {registry : Registry},
    registry.Legible good → (reserveAll source registry children).2.Legible good
  | [], _, _, legible => legible
  | _ :: rest, _, _, legible => legible_reserveAll rest _ (legible.reserve _)

theorem legible_startScope (flow : Flow) (branch : Branch) (children : List Node) :
    (startScope flow branch children).registry.Legible good :=
  legible_reserveAll children .start ((legible_branchRegistry flow branch).bindVariable _)

theorem legible_setupRoutine (settings : Settings) (flow : Flow) (registry : Registry) :
    LegibleSteps good (setupRoutine settings flow registry).steps := by
  simp [setupRoutine, Step.legible_call, LegibleMembers.ofList, Step.legible_return]

theorem legible_allRoutines (retry : good settings.httpRetry.multiplier) (branch : Branch)
    {scope : Scope} {walk : Walk Visit} {inside : Bool} (legible : scope.registry.Legible good)
    (roles : walk.InRoles Visit.node inside) (sound : walk.Legible good) :
    ∀ entry ∈ allRoutines settings flow branch scope walk, LegibleSteps good entry.2.steps := by
  have setup : (setupStep (branchRegistry flow branch)).wire.Legible good :=
    Step.legible_call (legible_branchRegistry flow branch).callArgs (by simp)
  have steps : LegibleSteps good (walk.steps settings scope) :=
    walk.legible_steps retry legible roles sound
  rw [allRoutines, List.forall_mem_cons, List.forall_mem_cons]
  refine ⟨?_, legible_setupRoutine settings flow _,
    walk.legible_routines retry legible roles sound⟩
  simp [mainRoutine, setup, steps, legible_clearSession retry, Walk.finishStep, Step.legible_return]

/-- A program is legible if the nodes of its flow are, and the policy for repeated requests. -/
theorem legible_wire (nodes : ∀ node ∈ flow.nodes, node.Legible good)
    (retry : good settings.httpRetry.multiplier)
    (compiled : compile settings lookup flow = .ok program) : program.wire.Legible good := by
  rw [compile_eq_build] at compiled
  apply Program.legible_wire
  cases exists_origin_of_build compiled with
  | inl empty =>
      intro entry member
      rw [empty.2] at member
      have only := Table.mem_of_mem_ofList member
      cases List.mem_singleton.mp only
      simp [Step.legible_return]
  | inr assembled =>
      obtain ⟨origin, found, _, entries⟩ := assembled
      have scope : origin.scope.registry.Legible good := by
        obtain ⟨_, _, _, _, _, _, equal, _⟩ := exists_unfolded_of_origin found
        rw [equal]
        exact legible_startScope _ _ _
      rw [entries]
      exact legible_allRoutines retry origin.branch scope (inRoles_origin found)
        fun visit among => nodes visit.node (node_mem_of_origin found among)

/-- In the wire value of a program that was compiled from an accepted flow, no object repeats a
name. -/
theorem distinct_wire (accepted : flow.Accepted)
    (compiled : compile settings lookup flow = .ok program) : program.wire.Distinct := by
  have nodes : ∀ node ∈ flow.nodes, node.Legible fun _ => True :=
    fun node stored value among => ⟨accepted.distinct node stored value among, fun _ _ => trivial⟩
  exact (legible_wire nodes trivial compiled).1

/-- The doubles in a compiled program are those of its flow, and the factor by which the compiler
lets requests wait longer. -/
theorem doubles_wire (accepted : flow.Accepted)
    (compiled : compile settings lookup flow = .ok program) :
    ∀ number ∈ program.wire.doubles, number = settings.httpRetry.multiplier ∨
      ∃ node ∈ flow.nodes, ∃ value ∈ node.kind.role.values, number ∈ value.doubles := by
  have nodes : ∀ node ∈ flow.nodes, node.Legible fun number =>
      number = settings.httpRetry.multiplier ∨
        ∃ node ∈ flow.nodes, ∃ value ∈ node.kind.role.values, number ∈ value.doubles :=
    fun node stored value among => ⟨accepted.distinct node stored value among,
      fun _ inside => .inr ⟨node, stored, value, among, inside⟩⟩
  exact (legible_wire nodes (.inl rfl) compiled).2

end Compile

end FlowCompiler
