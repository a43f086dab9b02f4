import FlowCompiler.Proofs.ComposedExpressions
import FlowCompiler.Proofs.IdentifierGrammar
import FlowCompiler.Proofs.ProgramOutlines
import FlowCompiler.Proofs.SingleLines

namespace FlowCompiler

/-! The tree view of compiled programs. Every routine, step and case stands on one line of its own,
whatever texts there are in the flow, so that the text of the view falls into the lines that were
printed. -/

open Expression Lowering Step Text Walk

/-! ## Values -/

theorem Tree.brief_evaluate (body : String) : brief (evaluate body) = body := by
  rw [brief, body?_evaluate]
  rfl

theorem Tree.isLine_brief_compose {tokens : List Token} (clean : Clean tokens) :
    IsLine (brief (compose tokens)) := by
  rw [compose, brief_evaluate]
  exact isLine_sentence clean

theorem Tree.isLine_brief_of_plain {value : Json} (plain : body? value = none) :
    IsLine (brief value) := by
  rw [brief, plain]
  exact value.isLine_compact

/-! ## Lines of steps -/

namespace Step

/-! The line of a step has its name and the names of its jumps, and its values and the conditions
under it. -/

def words : Step → List String
  | .call name invocation => name :: invocation.target :: invocation.result.toList
  | .assign name bindings => name :: bindings.map Prod.fst
  | .switch name cases => name :: cases.filterMap Case.next
  | .loop name head _ => [name, head.value]
  | .block name _ | .raise name _ | .return name _ => [name]

def shown : Step → List Json
  | .call .. | .assign .. | .block .. => []
  | .switch _ cases => cases.filterMap Case.condition
  | .loop _ head _ =>
      match head.source with
      | .list value => [value]
      | .range _ _ => []
  | .raise _ value | .return _ value => [value]

structure Lined (step : Step) : Prop where
  words : ∀ word ∈ step.words, IsLine word
  shown : ∀ value ∈ step.shown, IsLine (Tree.brief value)

variable {step : Step} {name : String}

theorem Lined.isLine_summary (lined : step.Lined) : IsLine (Tree.summary step) := by
  obtain ⟨words, shown⟩ := lined
  cases step with
  | call own invocation =>
      have target := words invocation.target (List.mem_cons_of_mem _ List.mem_cons_self)
      have kind : IsLine "call " := by decide
      rw [Tree.summary, isLine_append, isLine_append]
      refine ⟨⟨kind, target⟩, ?_⟩
      split
      · next result found =>
          have arrow : IsLine " -> " := by decide
          have bound := words result (List.mem_cons_of_mem _ (List.mem_cons_of_mem _
            (Option.mem_toList.mpr found)))
          exact isLine_append.mpr ⟨arrow, bound⟩
      · decide
  | assign own bindings =>
      have kind : IsLine "assign " := by decide
      rw [Tree.summary, isLine_append]
      exact ⟨kind, isLine_intercalate (by decide) _ fun bound member =>
        words bound (List.mem_cons_of_mem _ member)⟩
  | switch => exact (by decide : IsLine "switch")
  | block => exact (by decide : IsLine "block")
  | loop own head steps =>
      have kind : IsLine "for " ∧ IsLine " in " := by decide
      have bound := words head.value (List.mem_cons_of_mem _ List.mem_cons_self)
      rw [Tree.summary, isLine_append, isLine_append, isLine_append]
      refine ⟨⟨⟨kind.1, bound⟩, kind.2⟩, ?_⟩
      split
      · next value source =>
          refine shown value ?_
          simp [Step.shown, source]
      · have brackets : IsLine "[" ∧ IsLine "..=" ∧ IsLine "]" := by decide
        simp only [isLine_append]
        exact ⟨⟨⟨⟨brackets.1, isLine_toString _⟩, brackets.2.1⟩, isLine_toString _⟩,
          brackets.2.2⟩
  | raise own value =>
      have kind : IsLine "raise " := by decide
      exact isLine_append.mpr ⟨kind, shown value List.mem_cons_self⟩
  | «return» own value =>
      have kind : IsLine "return " := by decide
      exact isLine_append.mpr ⟨kind, shown value List.mem_cons_self⟩

theorem Lined.isLine_label (lined : step.Lined) : IsLine (Tree.Entry.step step).label := by
  have name : IsLine step.name := by
    cases step <;> exact lined.words _ List.mem_cons_self
  have colon : IsLine ": " := by decide
  rw [Tree.Entry.label, isLine_append, isLine_append]
  exact ⟨⟨name, colon⟩, lined.isLine_summary⟩

theorem Lined.isLine_case (lined : step.Lined) {branch : Case} (member : branch ∈ step.cases) :
    IsLine (Tree.Entry.branch branch).label := by
  obtain ⟨words, shown⟩ := lined
  cases step with
  | switch name cases =>
      have kind : IsLine "when " := by decide
      rw [Tree.Entry.label, Tree.caseSummary.eq_def, isLine_append, isLine_append]
      refine ⟨⟨kind, ?_⟩, ?_⟩
      · split
        · next condition found =>
            exact shown condition (List.mem_filterMap.mpr ⟨branch, member, found⟩)
        · decide
      · split
        · next target found =>
            have arrow : IsLine " => next " := by decide
            have jump := words target (List.mem_cons_of_mem _
              (List.mem_filterMap.mpr ⟨branch, member, found⟩))
            exact isLine_append.mpr ⟨arrow, jump⟩
        · decide
  | call | assign | block | loop | raise | «return» => cases member

theorem isLine_of_mem_none : ∀ bound ∈ (none : Option String), IsLine bound := by
  simp

theorem lined_call {call : Call} (line : IsLine name) (target : IsLine call.target)
    (result : ∀ bound ∈ call.result, IsLine bound) : (Step.call name call).Lined := by
  refine ⟨fun word member => ?_, nofun⟩
  rcases List.mem_cons.mp member with rfl | member
  · exact line
  · rcases List.mem_cons.mp member with rfl | member
    · exact target
    · exact result word (Option.mem_toList.mp member)

theorem lined_assign {bindings : List (String × Json)} (line : IsLine name)
    (bound : ∀ binding ∈ bindings, IsLine binding.1) :
    (Step.assign name bindings).Lined := by
  refine ⟨fun word member => ?_, nofun⟩
  rcases List.mem_cons.mp member with rfl | member
  · exact line
  · rcases List.mem_map.mp member with ⟨binding, among, rfl⟩
    exact bound binding among

theorem lined_switch {cases : List Case} (line : IsLine name)
    (next : ∀ branch ∈ cases, ∀ target ∈ branch.next, IsLine target) {parts : List (List Token)}
    (conditions : cases.filterMap Case.condition = parts.map compose)
    (clean : ∀ tokens ∈ parts, Clean tokens) : (Step.switch name cases).Lined := by
  refine ⟨fun word member => ?_, fun value member => ?_⟩
  · rcases List.mem_cons.mp member with rfl | member
    · exact line
    · rcases List.mem_filterMap.mp member with ⟨branch, among, target⟩
      exact next branch among word target
  · have composed : value ∈ parts.map compose := conditions ▸ member
    rcases List.mem_map.mp composed with ⟨tokens, among, rfl⟩
    exact Tree.isLine_brief_compose (clean tokens among)

theorem lined_return {value : Json} (line : IsLine name) (shown : IsLine (Tree.brief value)) :
    (Step.return name value).Lined :=
  ⟨List.forall_mem_singleton.mpr line, List.forall_mem_singleton.mpr shown⟩

end Step

/-! ## Steps of visits -/

section

variable {settings : Settings} {names : Names} {registry : Registry} {exits : List Exit}
  {step : Step} (proper : names.Proper)

theorem lined_post (settings : Settings) {name : String} (line : IsLine name) (path : String)
    (body : Json) {result : Option String} (bound : ∀ name ∈ result, IsLine name) :
    (post settings name path body result).Lined :=
  lined_call line (by decide : IsLine Primitive.httpPost) bound

theorem lined_clearSession {name : String} (line : IsLine name) :
    (clearSession settings name).Lined :=
  lined_post settings line _ _ isLine_of_mem_none

include proper

theorem Names.isLine_result : IsLine names.result :=
  isLine_of_isIdentifier (names.isIdentifier_result proper)

theorem Names.isLine_step {suffix : String} (line : IsLine suffix) :
    IsLine (names.step suffix) := by
  have joined : IsLine "_" := by decide
  rw [step, isLine_append, isLine_append]
  exact ⟨⟨names.isLine_result proper, joined⟩, line⟩

theorem Names.isLine_some_step {suffix : String} (line : IsLine suffix) :
    ∀ bound ∈ some (names.step suffix), IsLine bound := by
  rintro bound ⟨⟩
  exact names.isLine_step proper line

theorem lined_assignResult (value : Json) : (assignResult names value).Lined :=
  lined_assign (names.isLine_step proper (by decide))
    (List.forall_mem_singleton.mpr (names.isLine_result proper))

theorem lined_dispatch {name slug : String} (line : IsLine name)
    (target : IsLine (names.routine slug)) (registry : Registry) :
    (dispatch name (names.routine slug) names registry).Lined :=
  lined_call line target (names.isLine_some_step proper (by decide))

theorem Action.lined_of_mem {act : Action}
    (inside : step ∈ flattenSteps (act.steps settings names registry ++ act.binding names)) :
    step.Lined := by
  rw [flattenSteps_eq_of_isPlain (act.isPlain_steps settings names registry)] at inside
  cases act with
  | delay =>
      rw [List.mem_singleton.mp inside]
      exact lined_call (names.isLine_step proper (by decide))
        (by decide : IsLine Primitive.sleep) isLine_of_mem_none
  | apiCall =>
      rcases List.mem_pair.mp inside with rfl | rfl
      · exact lined_call (names.isLine_step proper (by decide))
          (by decide : IsLine Primitive.httpRequest) (names.isLine_some_step proper (by decide))
      · exact lined_assignResult proper _
  | webhook =>
      rcases List.mem_pair.mp inside with rfl | rfl
      · exact lined_call (names.isLine_step proper (by decide))
          (by decide : IsLine Primitive.awaitCallback) (names.isLine_some_step proper (by decide))
      · exact lined_assignResult proper _
  | message | saveFields | saveVariable | alert | utility =>
      rcases List.mem_pair.mp inside with rfl | rfl
      · exact lined_post settings (names.isLine_step proper (by decide)) _ _
          (names.isLine_some_step proper (by decide))
      · exact lined_assignResult proper _

theorem Fork.lined_of_mem_opening {choice : Fork}
    (member : step ∈ choice.openingSteps settings names registry) : step.Lined := by
  have prompt : ∀ choice : Fork, ∀ step ∈ choice.promptSteps settings names registry,
      step.Lined := by
    intro choice step member
    rw [promptSteps] at member
    rcases List.mem_append.mp member with counts | asks
    · split at counts
      · rw [List.mem_singleton.mp counts]
        exact lined_assign (names.isLine_step proper (by decide))
          (List.forall_mem_singleton.mpr (names.isLine_step proper (by decide)))
      · cases counts
    · rcases List.mem_pair.mp asks with rfl | rfl
      · exact lined_post settings (names.isLine_step proper (by decide)) _ _
          (names.isLine_some_step proper (by decide))
      · refine lined_call (names.isLine_step proper (by decide))
          (by decide : IsLine Primitive.awaitCallback) ?_
        rintro bound ⟨⟩
        exact names.isLine_result proper
  cases choice with
  | split | branch =>
      rcases List.mem_pair.mp member with rfl | rfl
      · exact lined_post settings (names.isLine_step proper (by decide)) _ _
          (names.isLine_some_step proper (by decide))
      · exact lined_assignResult proper _
  | text | buttons | list => exact prompt _ step member

omit proper in
theorem Fork.isLine_dispatch {choice : Fork} {exit : Exit} (member : exit ∈ choice.exits) :
    IsLine exit.dispatch := by
  have numbered : ∀ front index back, IsLine front → IsLine back →
      IsLine (front ++ toString (index : Nat) ++ back) := fun front index back front_ back_ => by
    rw [isLine_append, isLine_append]
    exact ⟨⟨front_, isLine_toString index⟩, back_⟩
  have options : ∀ {α : Type} (values : List α) (id label : α → String),
      exit ∈ values.mapIdx (fun index value => Exit.option index (id value) (label value)) ++
        [.noResponse] → IsLine exit.dispatch := by
    intro α values id label member
    rcases List.mem_append.mp member with option | none
    · rcases List.mem_mapIdx.mp option with ⟨index, _, rfl⟩
      exact numbered _ index _ (by decide) (by decide)
    · rw [List.mem_singleton.mp none]
      decide
  cases choice with
  | text =>
      rcases List.mem_pair.mp member with rfl | rfl
      · exact (by decide : IsLine "yes_dispatch")
      · decide
  | buttons prompt => exact options prompt.buttons Button.id Button.label member
  | list prompt => exact options prompt.rows ListRow.id ListRow.title member
  | split =>
      rcases List.mem_pair.mp member with rfl | rfl <;> decide
  | branch choice =>
      rcases List.mem_mapIdx.mp member with ⟨index, _, rfl⟩
      exact numbered _ index _ (by decide) (by decide)

theorem Fork.lined_of_mem {choice : Fork}
    (inside : step ∈ flattenSteps (choice.steps settings names registry choice.exits)) :
    step.Lined := by
  rw [steps, flattenSteps_append,
    flattenSteps_eq_of_isPlain (choice.isPlain_openingSteps settings names registry)] at inside
  rcases List.mem_append.mp inside with opening | inside
  · exact lined_of_mem_opening proper opening
  rw [flattenSteps_singleton] at inside
  rcases List.mem_cons.mp inside with rfl | inside
  · refine lined_switch (names.isLine_step proper (by decide)) ?_
      (filterMap_condition_cases names _ choice) fun _ => clean_of_mem_compositions proper
    intro branch isCase target jumps
    rcases retries_or_exists_exit isCase with ⟨_, rfl⟩ | ⟨exit, _, rfl⟩
    · cases jumps
      exact names.isLine_step proper (by decide)
    · cases jumps
  · rcases exists_case_of_mem_flattenCases inside with ⟨branch, isCase, inside⟩
    rcases retries_or_exists_exit isCase with ⟨_, retry⟩ | ⟨exit, among, own⟩
    · rw [retry] at inside
      rw [List.mem_singleton.mp inside]
      exact lined_assign (names.isLine_step proper (by decide))
        (List.forall_mem_singleton.mpr (names.isLine_step proper (by decide)))
    · rw [own] at inside
      rw [List.mem_singleton.mp inside]
      exact lined_dispatch proper (names.isLine_step proper (isLine_dispatch among))
        (isLine_of_isIdentifier (choice.properExits.isIdentifier_routine proper among)) _

theorem Subflow.lined_of_mem_abort {called : Subflow} {abort : Abort}
    (shaped : exits = [] ∨ exits = [.failure])
    (inside : step ∈ flattenSteps (called.abortSteps settings names registry exits abort)) :
    step.Lined := by
  rw [flattenSteps_eq_of_isPlain isPlain_abortSteps] at inside
  have suffixes : ∀ suffix ∈ ["_raise", "_dispatch", "_clear_session", "_return"],
      IsLine (abort.label ++ suffix) := by
    cases abort <;> decide
  have name : ∀ suffix ∈ ["_raise", "_dispatch", "_clear_session", "_return"],
      IsLine (names.step (abort.label ++ suffix)) :=
    fun suffix member => names.isLine_step proper (suffixes suffix member)
  rcases shaped with rfl | rfl
  · rw [List.mem_singleton.mp inside]
    exact ⟨List.forall_mem_singleton.mpr (name _ (by decide)),
      List.forall_mem_singleton.mpr (Tree.isLine_brief_of_plain rfl)⟩
  · simp only [abortSteps, List.mem_cons, List.not_mem_nil, or_false] at inside
    rcases inside with rfl | rfl | rfl
    · refine lined_dispatch proper ?_ (isLine_of_isIdentifier
        (properExits_failure.isIdentifier_routine proper List.mem_cons_self)) registry
      have dispatch := name "_dispatch" (by decide)
      rwa [String.append_assoc]
    · exact lined_clearSession (name _ (by decide))
    · refine lined_return (name _ (by decide)) ?_
      rw [ofVariable, Tree.brief_evaluate]
      exact names.isLine_step proper (by decide)

theorem Subflow.lined_of_mem {called : Subflow} (shaped : exits = [] ∨ exits = [.failure])
    (inside : step ∈ flattenSteps (called.steps settings names registry exits)) : step.Lined := by
  rcases mem_cases_or_mem_steps inside with inside | inside
  · rcases exists_case_of_mem_flattenCases inside with ⟨branch, isCase, inside⟩
    simp only [checkCases, List.mem_cons, List.not_mem_nil, or_false] at isCase
    rcases isCase with rfl | rfl | rfl | rfl
    · cases inside
    · exact lined_of_mem_abort proper shaped inside
    · exact lined_of_mem_abort proper shaped inside
    · rcases List.mem_pair.mp inside with rfl | rfl
      · exact lined_assign (names.isLine_step proper (by decide))
          (List.forall_mem_singleton.mpr (names.isLine_step proper (by decide)))
      · exact lined_call (names.isLine_step proper (by decide))
          (by decide : IsLine Primitive.sleep) isLine_of_mem_none
  · simp only [steps, List.mem_cons, List.not_mem_nil, or_false] at inside
    rcases inside with rfl | rfl | rfl | rfl | rfl | rfl | rfl | rfl
    · exact lined_call (names.isLine_step proper (by decide))
        (by decide : IsLine Primitive.getEnv) (names.isLine_some_step proper (by decide))
    · exact lined_post settings (names.isLine_step proper (by decide)) _ _
        (names.isLine_some_step proper (by decide))
    · exact lined_assign (names.isLine_step proper (by decide))
        (List.forall_mem_singleton.mpr (names.isLine_step proper (by decide)))
    · exact lined_call (names.isLine_step proper (by decide))
        (by decide : IsLine Primitive.httpGet) (names.isLine_some_step proper (by decide))
    · refine lined_switch (names.isLine_step proper (by decide)) ?_
        (filterMap_condition_checkCases settings names registry called exits)
        fun _ => clean_of_mem_compositions proper
      intro branch isCase target jumps
      simp only [checkCases, List.mem_cons, List.not_mem_nil, or_false] at isCase
      rcases isCase with rfl | rfl | rfl | rfl <;> cases jumps <;>
        exact names.isLine_step proper (by decide)
    · exact lined_assign (names.isLine_step proper (by decide))
        (List.forall_mem_singleton.mpr (names.isLine_result proper))
    · exact lined_call (names.isLine_step proper (by decide))
        (by decide : IsLine Primitive.httpDelete) isLine_of_mem_none
    · exact lined_clearSession (names.isLine_step proper (by decide))

theorem LoopStart.lined_of_mem {start : LoopStart}
    (inside : step ∈ flattenSteps (start.steps settings names registry)) : step.Lined := by
  have limit : IsLine (limitVariable names) := names.isLine_step proper (by decide)
  have list : IsLine (listVariable names) := names.isLine_step proper (by decide)
  rcases start.cases_of_mem_flattenSteps inside with rfl | rfl | rfl | rfl
  · refine lined_assign (names.isLine_step proper (by decide)) fun binding member => ?_
    rw [setup] at member
    rcases List.mem_cons.mp member with rfl | member
    · exact limit
    · split at member
      · rw [List.mem_singleton.mp member]
        exact list
      · cases member
  · have item : IsLine Registry.loopItem := by decide
    refine ⟨fun word member => ?_, fun value member => ?_⟩
    · rcases List.mem_pair.mp member with rfl | rfl
      · exact names.isLine_step proper (by decide)
      · rw [head]
        split <;> exact item
    · rw [Step.shown, head] at member
      cases source : start.loopValue with
      | list expression =>
          rw [source] at member
          rw [List.mem_singleton.mp member, ofVariable, Tree.brief_evaluate]
          exact list
      | count number =>
          rw [source] at member
          cases member
  · refine lined_switch (names.isLine_step proper (by decide)) ?_ (conditions_guardStep names)
      (List.forall_mem_singleton.mpr (clean_guard proper))
    intro branch isCase target jumps
    rw [List.mem_singleton.mp isCase] at jumps
    cases jumps
    decide
  · exact lined_call (names.isLine_step proper (by decide))
      (isLine_of_isIdentifier (names.isIdentifier_routine proper (by decide)))
      (names.isLine_some_step proper (by decide))

end

namespace Walk

theorem Closing.lined {walk : Walk Visit} {last : Step} (closing : Closing walk last) :
    last.Lined := by
  cases closing with
  | finish =>
      refine lined_return (by decide) ?_
      rw [ofVariable, Tree.brief_evaluate]
      decide
  | stub exit =>
      refine lined_return (by decide) (Tree.isLine_brief_of_plain ?_)
      rw [body?, String.toList_append, String.toList_append]
      rfl
  | resume => exact lined_return (by decide) (by decide)

/-- The lines of every step that is emitted for a visit are single lines. -/
theorem EmittedAt.lined {settings : Settings} {home : String} {scope : Scope} {part : Walk Visit}
    {emission : Emission} (emitted : EmittedAt settings home scope part emission)
    (proper : part.Proper) : emission.step.Lined := by
  cases emitted with
  | block first =>
      have names := proper.names_of_mem (mem_visits_of_first? first)
      exact ⟨List.forall_mem_singleton.mpr (Names.isLine_result names), nofun⟩
  | closing _ last => exact last.lined
  | own first own =>
      have names := proper.names_of_mem (mem_visits_of_first? first)
      cases part with
      | done => cases first
      | terminal =>
          cases first
          rw [List.mem_singleton.mp own]
          refine lined_return (Names.isLine_result names) ?_
          rw [Scope.terminalValue]
          split <;> decide
      | action =>
          cases first
          exact Action.lined_of_mem names own
      | fork visit choice exits =>
          cases first
          rw [ownSteps, proper.shaped.1] at own
          exact Fork.lined_of_mem names own
      | subflow =>
          cases first
          exact Subflow.lined_of_mem names proper.shaped.1 own
      | loop =>
          cases first
          exact LoopStart.lined_of_mem names own

end Walk

/-! ## Programs -/

theorem Tree.isLine_join_indentation (around : List Bool) :
    IsLine (String.join (around.map indentation)) := by
  have groups : ∀ last : Bool, IsLine (indentation last) := by decide
  induction around with
  | nil => exact visible_nil
  | cons first rest induction =>
      rw [List.map_cons, String.join_cons, isLine_append]
      exact ⟨groups first, induction⟩

theorem Row.isLine_text (row : Row) (line : IsLine row.label) : IsLine row.text := by
  cases row with
  | header label => exact line
  | branch around last label =>
      have marker : ∀ last : Bool, IsLine (Tree.marker last) := by decide
      rw [text, isLine_append, isLine_append]
      exact ⟨⟨Tree.isLine_join_indentation around, marker last⟩, line⟩

namespace Compile

variable {settings : Settings} {lookup : BranchLookup} {flow : Flow} {program : Program}

theorem lined_of_mem_fixedSites {branch : Branch} {site : String × Step}
    (member : site ∈ fixedSites settings flow branch) : site.2.Lined := by
  have steps : site.2 ∈ [setupStep (branchRegistry flow branch),
      clearSession settings "clear_session", Walk.finishStep] ++
        (setupRoutine settings flow (branchRegistry flow branch)).steps :=
    List.mem_map_of_mem (f := Prod.snd) member
  simp only [setupRoutine, List.cons_append, List.nil_append, List.mem_cons, List.not_mem_nil,
    or_false] at steps
  rcases steps with equal | equal | equal | equal | equal | equal
  all_goals rw [equal]
  · refine lined_call (by decide) (by decide : IsLine setupName) ?_
    rintro bound ⟨⟩
    decide
  · exact lined_clearSession (by decide)
  · exact (@Closing.finish .done).lined
  · refine lined_call (by decide) (by decide : IsLine Primitive.getEnv) ?_
    rintro bound ⟨⟩
    decide
  · exact lined_call (by decide) (by decide : IsLine Primitive.log) isLine_of_mem_none
  · refine lined_return (by decide) ?_
    rw [ofVariable, Tree.brief_evaluate]
    decide

theorem lined_of_build (built : build settings lookup flow = .ok program) {site : String × Step}
    (member : site ∈ program.sites) : site.2.Lined := by
  have emitted := (sites_perm_emissions built).mem_iff.mp member
  rcases exists_origin_of_build built with ⟨none, _⟩ | ⟨origin, found, proper, _⟩
  · rw [emissions, none, map_site_emitUnvisited] at emitted
    rw [List.mem_singleton.mp emitted]
    exact lined_return (by decide) (by decide)
  rw [emissions, found, List.map_append, map_site_emitUnvisited] at emitted
  rcases List.mem_append.mp emitted with fixed | emitted
  · exact lined_of_mem_fixedSites fixed
  rcases List.mem_map.mp emitted with ⟨emission, among, rfl⟩
  have roles := inRoles_origin found
  rcases emittedBehind_of_mem_emissions settings _ roles among with ⟨legs, part, trail, emitted⟩
  exact emitted.lined ((trail.place roles).proper proper)

theorem isLine_of_mem_reserved {children : List Node} {name : String}
    (member : name ∈ reservedVariables children) : IsLine name := by
  rcases List.mem_map.mp member with ⟨names, among, rfl⟩
  exact Names.isLine_result (proper_of_mem_reservedNames among)

theorem isLine_of_mem_bound {walk : Walk Visit} {path : List Leg} (proper : walk.Proper)
    (enters : walk.Enters path) {name : String} (bound : name ∈ path.flatMap Leg.bound) :
    IsLine name := by
  have loop : ∀ name ∈ Registry.loopVariables, IsLine name := by decide
  rcases List.mem_flatMap.mp bound with ⟨leg, among, bound⟩
  rcases Leg.result_or_loop_of_mem_bound bound with rfl | ⟨_, iteration⟩
  · exact Names.isLine_result (proper.names_of_mem
      (enters.visits_sublist.subset (List.mem_map_of_mem among)))
  · exact loop name iteration

/-- The parameters of routines stand on one line. -/
theorem isLine_of_mem_params (built : build settings lookup flow = .ok program)
    {entry : String × Routine} (member : entry ∈ program.routines.entries) :
    ∀ name ∈ entry.2.params, IsLine name := by
  have fixed : ∀ name ∈ [Registry.state, Registry.branchId, Registry.branchName, Registry.apiBase],
      IsLine name := by decide
  rcases exists_origin_of_build built with ⟨_, rfl⟩ | ⟨origin, found, proper, entries⟩
  · rw [List.mem_singleton.mp member]
    exact fun name param => fixed name (List.mem_singleton.mp param ▸ List.mem_cons_self)
  have among := entries ▸ member
  rcases List.mem_cons.mp among with main | among
  · rw [main]
    exact fun name param => fixed name (List.mem_singleton.mp param ▸ List.mem_cons_self)
  rcases List.mem_cons.mp among with setup | among
  · rw [setup]
    have first : ∀ name ∈ [Registry.state, Registry.branchId, Registry.branchName], IsLine name :=
      fun name param => fixed name (List.mem_append_left [Registry.apiBase] param)
    exact first
  have entered : ∃ path, origin.walk.Enters path ∧ roomBehind Program.mainName path = entry.1 :=
    exists_enters_of_mem_routines (inRoles_origin found) among
  rcases entered with ⟨path, enters, room⟩
  rcases exists_routine_of_enters built found enters with ⟨routine, registered, params⟩
  have same : program.routines.get? entry.1 = some entry.2 := Table.get?_eq_some_iff.mpr member
  rw [room, same] at registered
  cases registered
  intro name param
  rw [params] at param
  rcases List.mem_append.mp param with param | bound
  · rcases List.mem_append.mp param with known | reserved
    · exact fixed name known
    · exact isLine_of_mem_reserved reserved
  · exact isLine_of_mem_bound proper enters (List.mem_filter.mp bound).1

theorem isLine_label (built : build settings lookup flow = .ok program) {entry : Tree.Entry}
    (member : entry ∈ program.outline.items) : IsLine entry.label := by
  have site : ∀ step ∈ program.allSteps, step.Lined := by
    intro step among
    rcases List.mem_flatMap.mp among with ⟨routine, value, inside⟩
    rcases List.mem_map.mp value with ⟨own, among, rfl⟩
    have site : (own.1, step) ∈ program.sites :=
      Program.mem_sites.mpr ⟨own.2, among, inside⟩
    exact lined_of_build built site
  cases entry with
  | routine name own =>
      have among : (name, own) ∈ program.routines.entries := by
        rw [← program.routine?_outline]
        exact List.mem_filterMap.mpr ⟨_, member, rfl⟩
      have brackets : IsLine "(" ∧ IsLine ")" := by decide
      have title := isLine_of_isIdentifier
        (isIdentifier_of_build built (List.mem_map_of_mem (f := Prod.fst) among))
      have params := isLine_intercalate (by decide : IsLine ", ") own.params
        (isLine_of_mem_params built among)
      rw [Tree.Entry.label, isLine_append, isLine_append, isLine_append]
      exact ⟨⟨⟨title, brackets.1⟩, params⟩, brackets.2⟩
  | step own =>
      have among : own ∈ program.allSteps := by
        rw [← program.step?_outline]
        exact List.mem_filterMap.mpr ⟨_, member, rfl⟩
      exact (site own among).isLine_label
  | branch own =>
      have among : own ∈ program.allSteps.flatMap Step.cases :=
        program.branch?_outline.subset (List.mem_filterMap.mpr ⟨_, member, rfl⟩)
      rcases List.mem_flatMap.mp among with ⟨step, inside, isCase⟩
      exact (site step inside).isLine_case isCase

theorem isLine_of_mem_treeLines (built : build settings lookup flow = .ok program) {line : String}
    (member : line ∈ program.treeLines) : IsLine line := by
  rw [program.treeLines_eq] at member
  rcases List.mem_map.mp member with ⟨row, among, rfl⟩
  have labels : program.rows.map Row.label = program.outline.items.map Tree.Entry.label := by
    rw [Program.rows, Outline.label_titledRows, Outline.items_map]
  have own : row.label ∈ program.outline.items.map Tree.Entry.label :=
    labels ▸ List.mem_map_of_mem among
  rcases List.mem_map.mp own with ⟨entry, inside, equal⟩
  exact row.isLine_text (equal ▸ isLine_label built inside)

end Compile

namespace Program

/-- Where all lines are single lines, the text of the tree view falls into them. -/
theorem splitOn_tree {program : Program} (lines : ∀ line ∈ program.treeLines, IsLine line) :
    program.tree.toList.splitOn '\n' = program.treeLines.map String.toList ++ [[]] := by
  have parts : ∀ lines : List String, (∀ line ∈ lines, IsLine line) →
      (String.join (lines.map fun line => line ++ "\n")).toList.splitOn '\n' =
        lines.map String.toList ++ [[]] := by
    intro lines single
    induction lines with
    | nil => rfl
    | cons first rest induction =>
        obtain ⟨own, others⟩ := List.forall_mem_cons.mp single
        have unbroken : '\n' ∉ first.toList := fun member => own _ member (by decide)
        have characters : (String.join ((first :: rest).map fun line => line ++ "\n")).toList =
            first.toList ++ '\n' :: (String.join (rest.map fun line => line ++ "\n")).toList := by
          simp [String.toList_append]
        rw [characters, List.splitOn_append_cons_self_of_not_mem unbroken, induction others]
        rfl
  exact parts program.treeLines lines

end Program

/-- The text of the tree view of a compiled program is one line for each routine, each step and
each case, whatever characters there are in the flow. The lines follow the program depth first. In
front of a label stand four characters for each entry around it, and a marker that tells whether
the entry is the last of its siblings, so the nesting can be read off the lines. -/
theorem tree_view_is_faithful {settings : Settings} {lookup : BranchLookup} {flow : Flow}
    {program : Program} (compiled : compile settings lookup flow = .ok program) :
    program.tree.toList.splitOn '\n' = program.treeLines.map String.toList ++ [[]] ∧
    program.treeLines.length = program.size + program.stepCount + program.caseCount ∧
    program.outline.items.filterMap Tree.Entry.routine? = program.routines.entries ∧
    program.outline.items.filterMap Tree.Entry.step? =
      program.routines.values.flatMap Routine.flatten ∧
    (program.outline.items.filterMap Tree.Entry.branch?).Perm
      ((program.routines.values.flatMap Routine.flatten).flatMap Step.cases) ∧
    program.treeLines =
      (program.outline.map Tree.Entry.label).titledRows.map Row.text ∧
    Program.outlineOfLines program.treeLines = program.outline.map Tree.Entry.label := by
  rw [compile_eq_build] at compiled
  refine ⟨Program.splitOn_tree fun _ => Compile.isLine_of_mem_treeLines compiled,
    program.length_treeLines, program.routine?_outline, program.step?_outline,
    program.branch?_outline, program.treeLines_eq, ?_⟩
  exact program.outlineOfLines_treeLines fun _ => Compile.isIdentifier_of_build compiled

/-- The nesting of the sample program can be read off the lines of its tree view. -/
theorem tree_view_is_faithful_sample :
    ∃ program, compile .standard Compile.sampleLookup Compile.sampleFlow = .ok program ∧
      program.tree.toList.splitOn '\n' = program.treeLines.map String.toList ++ [[]] ∧
      Program.outlineOfLines program.treeLines = program.outline.map Tree.Entry.label := by
  obtain ⟨program, compiled⟩ := Compile.exists_sampleProgram
  obtain ⟨split, _, _, _, _, _, nested⟩ := tree_view_is_faithful compiled
  exact ⟨program, compiled, split, nested⟩

end FlowCompiler
