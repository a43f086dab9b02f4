import FlowCompiler.Proofs.BackJumps
import FlowCompiler.Proofs.LoopSteps
import FlowCompiler.Proofs.Parameters
import FlowCompiler.Proofs.QuotedTexts
import FlowCompiler.Proofs.VisitCalls

namespace FlowCompiler

/-! The expressions that are composed of code and quoted texts: conditions, addresses, the text of
the log and the ids of callbacks. In every program they are composed of clean code and of the texts
of the flow, so that scanning them yields exactly these texts. -/

open Expression Lowering Step
open Token (signs)

def Expression.compose (tokens : List Token) : Json :=
  evaluate (sentence tokens)

theorem Expression.compose_signs (code : String) : compose (signs code) = evaluate code := by
  rw [compose, sentence_signs]

/-! ## Compositions of visits -/

def Lowering.endpointTokens (path : String) : List Token :=
  signs (Registry.apiBase ++ " + ") ++ [.literal path]

theorem Lowering.endpoint_eq_compose (path : String) :
    endpoint path = compose (endpointTokens path) := by
  simp [endpoint, compose, endpointTokens, String.append_assoc]

def Action.paths : Action → List String
  | .message _ => [messagesPath]
  | .saveFields _ => ["/v1/contacts/data"]
  | .saveVariable _ => ["/v1/contacts/variables"]
  | .alert _ => ["/v1/alerts"]
  | .utility request => ["/v1/utilities/" ++ request.function]
  | .delay _ | .apiCall _ | .webhook _ => []

def Fork.paths : Fork → List String
  | .split _ | .branch _ => ["/v1/conditions/evaluate"]
  | .text _ | .buttons _ | .list _ => [messagesPath]

def Role.paths : Role → List String
  | .action act => act.paths
  | .fork choice => choice.paths
  | .subflow _ => ["/v1/subflows/start", "/v1/sessions/clear"]
  | .loop _ | .terminal => []

namespace Fork

def receivedTokens (names : Names) : List Token :=
  signs (names.result ++ ".status == ") ++ [.literal "received"]

def conditionTokens? (names : Names) : ExitTest → Option (List Token)
  | .reply id =>
      some (receivedTokens names ++ signs (" and " ++ names.result ++ ".body.reply_id == ") ++
        [.literal id])
  | .text none => some (receivedTokens names)
  | .text (some format) =>
      some (receivedTokens names ++ signs (" and text.match_regex(" ++ names.result ++
        ".body.text, ") ++ [.literal format.pattern] ++ signs ")")
  | .verdict => some (signs (names.result ++ " == true"))
  | .label name => some (signs (names.result ++ " == ") ++ [.literal name])
  | .otherwise | .aborted => none

theorem condition?_eq_map_compose (names : Names) (test : ExitTest) :
    condition? names test = (conditionTokens? names test).map compose := by
  cases test with
  | text format =>
      cases format <;>
        simp [condition?, conditionTokens?, compose, received, receivedTokens, String.append_assoc]
  | reply | verdict | label | otherwise | aborted =>
      simp [condition?, conditionTokens?, compose, received, receivedTokens, String.append_assoc]

def retryTokens (names : Names) : List Token :=
  receivedTokens names ++
    signs (" and " ++ attempts names ++ " < " ++ toString maxPromptAttempts)

theorem condition_retryCase (names : Names) :
    (retryCase names).condition = some (compose (retryTokens names)) := by
  simp [retryCase, Case.condition, compose, retryTokens, received, receivedTokens,
    String.append_assoc]

def compositions (names : Names) (fork : Fork) : List (List Token) :=
  fork.exits.flatMap fun exit =>
    (if fork.asksAgain ∧ exit.test = .otherwise then [retryTokens names] else []) ++
      (conditionTokens? names exit.test).toList

theorem filterMap_condition_cases (names : Names) (registry : Registry) (fork : Fork) :
    (fork.cases names registry fork.exits).filterMap Case.condition =
      (fork.compositions names).map compose := by
  rw [cases, compositions, List.filterMap_flatMap, List.map_flatMap]
  refine List.flatMap_congr fun exit _ => ?_
  have own : [exitCase names registry exit].filterMap Case.condition =
      (conditionTokens? names exit.test).toList.map compose := by
    have condition : (exitCase names registry exit).condition = condition? names exit.test := rfl
    rw [List.filterMap_cons, condition, condition?_eq_map_compose]
    cases conditionTokens? names exit.test <;> rfl
  rw [List.filterMap_append, List.map_append, own]
  split
  · rw [List.filterMap_cons, condition_retryCase]
    rfl
  · rfl

end Fork

namespace Subflow

def documentTokens (names : Names) : List Token :=
  signs (Registry.apiBase ++ " + ") ++ [.literal "/v1/subflows/"] ++
    signs (" + " ++ execution names)

theorem document_eq_compose (names : Names) :
    document names = compose (documentTokens names) := by
  simp [document, compose, documentTokens, String.append_assoc]

def stateTokens (names : Names) (state : String) : List Token :=
  signs (names.step "status" ++ ".body.status == ") ++ [.literal state]

def compositions (settings : Settings) (names : Names) : List (List Token) := [
  stateTokens names "completed",
  stateTokens names "failed",
  signs (polls names ++ " >= " ++ toString settings.subflowMaxPolls.toNat)]

theorem filterMap_condition_checkCases (settings : Settings) (names : Names)
    (registry : Registry) (called : Subflow) (exits : List Exit) :
    (called.checkCases settings names registry exits).filterMap Case.condition =
      (compositions settings names).map compose := by
  simp [checkCases, Case.condition, compositions, compose, stateTokens, String.append_assoc]

end Subflow

def LoopStart.guardTokens (names : Names) : List Token :=
  signs (Registry.loopIndex ++ " >= " ++ limitVariable names)

theorem LoopStart.conditions_guardStep (names : Names) :
    (guardStep names).cases.filterMap Case.condition = [guardTokens names].map compose := by
  rw [List.map_singleton, guardTokens, compose_signs]
  rfl

def Webhook.correlationTokens (names : Names) : List Token :=
  signs "tg.session_id + " ++ [.literal (":" ++ names.result)]

theorem Webhook.correlation_eq_compose (names : Names) :
    evaluate ("tg.session_id + " ++ literal (":" ++ names.result)) =
      compose (correlationTokens names) := by
  simp [compose, correlationTokens]

def Flow.logTokens (flow : Flow) : List Token :=
  [.literal ("Flow '" ++ flow.title ++ "' started for branch ")] ++
    signs (" + " ++ Registry.branchName)

theorem Flow.log_eq_compose (flow : Flow) :
    evaluate (literal ("Flow '" ++ flow.title ++ "' started for branch ") ++ " + " ++
      Registry.branchName) = compose flow.logTokens := by
  simp [compose, logTokens, String.append_assoc]

/-! ## Compositions of steps -/

/-! The expressions of a step that are composed: conditions, and arguments of operations. -/

def Call.compositions (call : Call) : List Json :=
  (Primitive.evaluatedKeys call.target).filterMap call.args.get?

def Step.compositions : Step → List Json
  | .call _ invocation => invocation.compositions
  | .switch _ cases => cases.filterMap Case.condition
  | _ => []

/-- What the arguments of a call are composed of that is emitted for a visit, or for none. -/
inductive Call.Composes (flow : Flow) : Option Visit → Call → List (List Token) → Prop
  | nothing {visit : Option Visit} {call : Call} (none : call.compositions = []) :
      Composes flow visit call []
  | endpoint {visit : Visit} {call : Call} {path : String}
      (target : call.target = Primitive.httpPost)
      (sent : path ∈ visit.node.kind.role.paths) :
      Composes flow (some visit) call [endpointTokens path]
  | clear {call : Call} (target : call.target = Primitive.httpPost) :
      Composes flow none call [endpointTokens "/v1/sessions/clear"]
  | document {visit : Visit} {called : Subflow} {call : Call}
      (role : visit.node.kind.role = .subflow called)
      (target : call.target ∈ [Primitive.httpGet, Primitive.httpDelete]) :
      Composes flow (some visit) call [Subflow.documentTokens visit.names]
  | reply {visit : Visit} {choice : Fork} {call : Call}
      (role : visit.node.kind.role = .fork choice)
      (target : call.target = Primitive.awaitCallback) :
      Composes flow (some visit) call [signs "tg.session_id"]
  | callback {visit : Visit} {hook : Webhook} {call : Call}
      (role : visit.node.kind.role = .action (.webhook hook))
      (target : call.target = Primitive.awaitCallback) :
      Composes flow (some visit) call [Webhook.correlationTokens visit.names]
  | log {call : Call} (target : call.target = Primitive.log) :
      Composes flow none call [flow.logTokens]

inductive Step.Composes (settings : Settings) (flow : Flow) :
    Option Visit → Step → List (List Token) → Prop
  | nothing {visit : Option Visit} {step : Step} (none : step.compositions = []) :
      Composes settings flow visit step []
  | call {visit : Option Visit} {step : Step} {call : Call} {parts : List (List Token)}
      (called : step.call? = some call) (composes : call.Composes flow visit parts) :
      Composes settings flow visit step parts
  | route {visit : Visit} {choice : Fork} {cases : List Case}
      (role : visit.node.kind.role = .fork choice) :
      Composes settings flow (some visit) (.switch (visit.names.step "route") cases)
        (choice.compositions visit.names)
  | check {visit : Visit} {called : Subflow} {cases : List Case}
      (role : visit.node.kind.role = .subflow called) :
      Composes settings flow (some visit) (.switch (visit.names.step "check") cases)
        (Subflow.compositions settings visit.names)
  | guard {visit : Visit} {start : LoopStart} {cases : List Case}
      (role : visit.node.kind.role = .loop start) :
      Composes settings flow (some visit) (.switch (visit.names.step "guard") cases)
        [LoopStart.guardTokens visit.names]

def Step.IsComposed (settings : Settings) (flow : Flow) (visit : Option Visit) (step : Step) :
    Prop :=
  ∃ parts, step.Composes settings flow visit parts ∧ step.compositions = parts.map compose

def Call.IsComposed (flow : Flow) (visit : Option Visit) (call : Call) : Prop :=
  ∃ parts, call.Composes flow visit parts ∧ call.compositions = parts.map compose

section

variable {settings : Settings} {flow : Flow} {visit? : Option Visit} {visit : Visit}
  {registry : Registry} {exits : List Exit} {step : Step} {call : Call}

theorem Step.isComposed_of_nothing (none : step.compositions = []) :
    step.IsComposed settings flow visit? :=
  ⟨[], .nothing none, none⟩

theorem Step.isComposed_call {name : String} (composed : call.IsComposed flow visit?) :
    (Step.call name call).IsComposed settings flow visit? := by
  rcases composed with ⟨parts, composes, equal⟩
  exact ⟨parts, .call rfl composes, equal⟩

theorem Step.isComposed_of_isPlain (plain : step.isPlain)
    (calls : ∀ call, step.call? = some call → call.IsComposed flow visit?) :
    step.IsComposed settings flow visit? := by
  cases step with
  | call name call => exact isComposed_call (calls call rfl)
  | assign | raise | «return» => exact isComposed_of_nothing rfl
  | switch | block | loop => cases plain

theorem Call.isComposed_of_nothing (none : call.compositions = []) :
    call.IsComposed flow visit? :=
  ⟨[], .nothing none, none⟩

theorem Call.isComposed_of_silent (target : String) (same : call.target = target)
    (silent : Primitive.evaluatedKeys target = []) : call.IsComposed flow visit? := by
  refine isComposed_of_nothing ?_
  rw [compositions, same, silent]
  rfl

theorem Call.compositions_ofPost (settings : Settings) (path : String) (body : Json)
    (result : Option String) :
    (ofPost settings path body result).compositions = [endpointTokens path].map compose := by
  rw [List.map_singleton, ← endpoint_eq_compose]
  rfl

theorem Call.isComposed_ofPost {path : String} {body : Json} {result : Option String}
    (sent : path ∈ visit.node.kind.role.paths) :
    (ofPost settings path body result).IsComposed flow (some visit) :=
  ⟨_, .endpoint rfl sent, compositions_ofPost settings path body result⟩

theorem Call.isComposed_dispatch (proper : visit.names.Proper) (slug : String) :
    (dispatchCall (visit.names.routine slug) visit.names registry).IsComposed flow visit? :=
  isComposed_of_silent _ rfl (Primitive.evaluatedKeys_routine proper slug)

/-! ## Steps of visits -/

theorem Action.isComposed_of_mem {act : Action} (role : visit.node.kind.role = .action act)
    (inside : step ∈ flattenSteps
      (act.steps settings visit.names registry ++ act.binding visit.names)) :
    step.IsComposed settings flow (some visit) := by
  have plain := isPlain_of_mem_flattenSteps (act.isPlain_steps settings visit.names registry) inside
  refine isComposed_of_isPlain plain fun call called => ?_
  have member : call ∈ callsWithin
      (act.steps settings visit.names registry ++ act.binding visit.names) :=
    List.mem_filterMap.mpr ⟨step, inside, called⟩
  cases act with
  | delay =>
      rw [List.mem_singleton.mp member]
      exact Call.isComposed_of_silent Primitive.sleep rfl (by decide)
  | apiCall =>
      rw [List.mem_singleton.mp member]
      exact Call.isComposed_of_silent Primitive.httpRequest rfl (by decide)
  | webhook =>
      rw [List.mem_singleton.mp member]
      refine ⟨_, .callback role rfl, ?_⟩
      rw [List.map_singleton, ← Webhook.correlation_eq_compose]
      rfl
  | message | saveFields | saveVariable | alert | utility =>
      rw [List.mem_singleton.mp member]
      refine Call.isComposed_ofPost ?_
      rw [role]
      exact List.mem_singleton_self _

theorem Fork.isComposed_of_mem_opening {choice : Fork} (role : visit.node.kind.role = .fork choice)
    (member : call ∈ callsWithin (choice.openingSteps settings visit.names registry)) :
    call.IsComposed flow (some visit) := by
  have prompt : choice.paths = [messagesPath] → ∀ call ∈
      callsWithin (choice.promptSteps settings visit.names registry),
        call.IsComposed flow (some visit) := by
    intro paths call member
    rw [callsWithin_promptSteps] at member
    rcases List.mem_pair.mp member with equal | equal
    · rw [equal]
      refine Call.isComposed_ofPost ?_
      rw [role, Role.paths, paths]
      exact List.mem_singleton_self _
    · rw [equal]
      refine ⟨_, .reply role rfl, ?_⟩
      rw [List.map_singleton, compose_signs]
      rfl
  cases choice with
  | split | branch =>
      rw [List.mem_singleton.mp member]
      refine Call.isComposed_ofPost ?_
      rw [role]
      exact List.mem_singleton_self _
  | text | buttons | list => exact prompt rfl _ member

theorem Fork.isComposed_of_mem (proper : visit.names.Proper) {choice : Fork}
    (role : visit.node.kind.role = .fork choice)
    (inside : step ∈ flattenSteps (choice.steps settings visit.names registry choice.exits)) :
    step.IsComposed settings flow (some visit) := by
  have calls : ∀ call, step.call? = some call → call.IsComposed flow (some visit) := by
    intro call called
    rcases opening_or_dispatch (List.mem_filterMap.mpr ⟨step, inside, called⟩) with
      opening | ⟨exit, _, equal⟩
    · exact isComposed_of_mem_opening role opening
    · rw [equal]
      exact Call.isComposed_dispatch proper exit.slug
  rw [steps, ← List.append_nil (_ ++ _)] at inside
  rcases isPlain_or_eq_of_mem_flattenSteps
    (choice.isPlain_openingSteps settings visit.names registry) rfl
    (Fork.hasPlainCases visit.names _ choice choice.exits _) inside with plain | equal
  · exact isComposed_of_isPlain plain calls
  · rw [equal]
    exact ⟨_, .route role, filterMap_condition_cases visit.names _ choice⟩

theorem Subflow.isComposed_of_mem_ownCalls {called : Subflow}
    (role : visit.node.kind.role = .subflow called)
    (own : call ∈ called.ownCalls settings visit.names registry) :
    call.IsComposed flow (some visit) := by
  have document : ∀ target ∈ [Primitive.httpGet, Primitive.httpDelete],
      ∀ result retry, (⟨target, .ofList [("url", document visit.names)], result, retry⟩ :
        Call).IsComposed flow (some visit) := by
    intro target request result retry
    refine ⟨_, .document role request, ?_⟩
    rw [List.map_singleton, ← document_eq_compose]
    rcases List.mem_pair.mp request with rfl | rfl <;> rfl
  simp only [ownCalls, List.mem_cons, List.not_mem_nil, or_false] at own
  rcases own with rfl | rfl | rfl | rfl | rfl | rfl
  · exact Call.isComposed_of_silent Primitive.getEnv rfl (by decide)
  · refine Call.isComposed_ofPost ?_
    rw [role]
    exact List.mem_cons_self
  · exact document _ List.mem_cons_self _ _
  · exact Call.isComposed_of_silent Primitive.sleep rfl (by decide)
  · exact document _ (List.mem_of_getLast? rfl) _ _
  · refine Call.isComposed_ofPost ?_
    rw [role]
    exact List.mem_of_getLast? rfl

theorem Subflow.isComposed_of_mem (proper : visit.names.Proper) {called : Subflow}
    (role : visit.node.kind.role = .subflow called)
    (inside : step ∈ flattenSteps (called.steps settings visit.names registry exits)) :
    step.IsComposed settings flow (some visit) := by
  have calls : ∀ call, step.call? = some call → call.IsComposed flow (some visit) := by
    intro call isCall
    rcases ownCall_or_dispatch (List.mem_filterMap.mpr ⟨step, inside, isCall⟩) with
      own | ⟨exit, _, equal⟩
    · exact isComposed_of_mem_ownCalls role own
    · rw [equal]
      exact Call.isComposed_dispatch proper exit.slug
  have cases := Subflow.hasPlainCases settings visit.names registry called exits
    (visit.names.step "check")
  rcases @isPlain_or_eq_of_mem_flattenSteps [_, _, _, _] [_, _, _] _ _ _ rfl rfl cases inside
    with plain | equal
  · exact isComposed_of_isPlain plain calls
  · rw [equal]
    exact ⟨_, .check role,
      filterMap_condition_checkCases settings visit.names registry called exits⟩

theorem LoopStart.isComposed_of_mem (proper : visit.names.Proper) {start : LoopStart}
    (role : visit.node.kind.role = .loop start)
    (inside : step ∈ flattenSteps (start.steps settings visit.names registry)) :
    step.IsComposed settings flow (some visit) := by
  rcases start.cases_of_mem_flattenSteps inside with rfl | rfl | rfl | rfl
  · exact isComposed_of_nothing rfl
  · exact isComposed_of_nothing rfl
  · exact ⟨_, .guard role, conditions_guardStep visit.names⟩
  · refine isComposed_of_isPlain rfl ?_
    rintro call ⟨⟩
    exact Call.isComposed_of_silent _ rfl (Primitive.evaluatedKeys_routine proper "body")

theorem Walk.EmittedAt.mem_visits {home : String} {scope : Scope} {part : Walk Visit}
    {emission : Emission} (emitted : EmittedAt settings home scope part emission)
    (own : emission.visit = some visit) : visit ∈ part.visits := by
  cases emitted with
  | block first | own first =>
      cases own
      exact mem_visits_of_first? first
  | closing door =>
      cases own
      exact mem_visits_of_first? (first?_of_mem_doors door)

/-- Every step that is emitted for a visit is composed as is right for it. -/
theorem Walk.EmittedAt.isComposed {home : String} {scope : Scope} {part : Walk Visit}
    {emission : Emission} {inside : Bool} (emitted : EmittedAt settings home scope part emission)
    (roles : part.InRoles Visit.node inside) (proper : part.Proper) :
    emission.step.IsComposed settings flow emission.visit := by
  cases emitted with
  | block => exact isComposed_of_nothing rfl
  | closing _ last => cases last <;> exact isComposed_of_nothing rfl
  | own first own =>
      have names := proper.names_of_mem (mem_visits_of_first? first)
      cases part with
      | done => cases first
      | terminal =>
          rw [List.mem_singleton.mp own]
          exact isComposed_of_nothing rfl
      | action =>
          cases first
          exact Action.isComposed_of_mem roles.1 own
      | fork visit choice exits =>
          cases first
          rw [ownSteps, proper.shaped.1] at own
          exact Fork.isComposed_of_mem names roles.1 own
      | subflow =>
          cases first
          exact Subflow.isComposed_of_mem names roles.1 own
      | loop =>
          cases first
          exact LoopStart.isComposed_of_mem names roles.1 own

end

/-! ## Clean compositions -/

section

variable {names : Names} (proper : names.Proper)

include proper

theorem Names.clean_result : Clean (signs names.result) :=
  clean_of_isIdentifier (names.isIdentifier_result proper)

theorem Names.clean_step {suffix : String} (known : Text.OnlyIdentifierChars suffix.toList) :
    Clean (signs (names.step suffix)) :=
  clean_of_isIdentifier (names.isIdentifier_step proper known)

theorem Fork.clean_received : Clean (receivedTokens names) := by
  have status : Clean (signs ".status == ") := by decide
  simp [receivedTokens, names.clean_result proper, status]

theorem Fork.clean_of_conditionTokens {test : ExitTest} {tokens : List Token}
    (condition : conditionTokens? names test = some tokens) : Clean tokens := by
  have result := names.clean_result proper
  have received := clean_received proper
  cases test with
  | reply id =>
      cases condition
      have joined : Clean (signs " and ") ∧ Clean (signs ".body.reply_id == ") := by decide
      simp [result, received, joined]
  | text format =>
      cases format with
      | none =>
          cases condition
          exact received
      | some format =>
          cases condition
          have joined : Clean (signs " and text.match_regex(") ∧ Clean (signs ".body.text, ") ∧
            Clean (signs ")") := by decide
          simp [result, received, joined]
  | verdict =>
      cases condition
      have verdict : Clean (signs " == true") := by decide
      simp [result, verdict]
  | label name =>
      cases condition
      have equals : Clean (signs " == ") := by decide
      simp [result, equals]
  | otherwise | aborted => cases condition

theorem Fork.clean_retry : Clean (retryTokens names) := by
  have counter : Clean (signs (attempts names)) := names.clean_step proper (by decide)
  have joined : Clean (signs " and ") ∧ Clean (signs " < ") := by decide
  have most : Clean (signs (toString maxPromptAttempts)) := clean_toString _
  rw [retryTokens, clean_append, signs_append, signs_append, signs_append, clean_append,
    clean_append, clean_append]
  exact ⟨clean_received proper, ⟨⟨joined.1, counter⟩, joined.2⟩, most⟩

theorem Fork.clean_of_mem_compositions {choice : Fork} {tokens : List Token}
    (member : tokens ∈ choice.compositions names) : Clean tokens := by
  rcases List.mem_flatMap.mp member with ⟨exit, _, inside⟩
  rcases List.mem_append.mp inside with again | own
  · split at again
    · rw [List.mem_singleton.mp again]
      exact clean_retry proper
    · cases again
  · exact clean_of_conditionTokens proper (Option.mem_toList.mp own)

theorem Subflow.clean_document : Clean (documentTokens names) := by
  have base : Clean (signs Registry.apiBase) ∧ Clean (signs " + ") := by decide
  have started : Clean (signs (started names)) := names.clean_step proper (by decide)
  have id : Clean (signs ".body.execution_id") := by decide
  simp [documentTokens, execution, base, started, id]

theorem Subflow.clean_of_mem_compositions {settings : Settings} {tokens : List Token}
    (member : tokens ∈ compositions settings names) : Clean tokens := by
  have state : ∀ word, Clean (stateTokens names word) := by
    intro word
    have answer : Clean (signs (names.step "status")) := names.clean_step proper (by decide)
    have status : Clean (signs ".body.status == ") := by decide
    simp [stateTokens, answer, status]
  simp only [compositions, List.mem_cons, List.not_mem_nil, or_false] at member
  rcases member with rfl | rfl | rfl
  · exact state _
  · exact state _
  · have counter : Clean (signs (polls names)) := names.clean_step proper (by decide)
    have reached : Clean (signs " >= ") := by decide
    have most := clean_toString settings.subflowMaxPolls.toNat
    rw [signs_append, signs_append, clean_append, clean_append]
    exact ⟨⟨counter, reached⟩, most⟩

theorem LoopStart.clean_guard : Clean (guardTokens names) := by
  have limit : Clean (signs (limitVariable names)) := names.clean_step proper (by decide)
  have reached : Clean (signs Registry.loopIndex) ∧ Clean (signs " >= ") := by decide
  simp [guardTokens, limit, reached]

end

theorem Lowering.clean_endpoint (path : String) : Clean (endpointTokens path) := by
  have base : Clean (signs Registry.apiBase) ∧ Clean (signs " + ") := by decide
  simp [endpointTokens, base]

theorem Webhook.clean_correlation (names : Names) : Clean (correlationTokens names) := by
  have session : Clean (signs "tg.session_id + ") := by decide
  simp [correlationTokens, session]

theorem Flow.clean_log (flow : Flow) : Clean flow.logTokens := by
  have name : Clean (signs " + ") ∧ Clean (signs Registry.branchName) := by decide
  simp [logTokens, name]

section

variable {settings : Settings} {flow : Flow} {visit? : Option Visit} {parts : List (List Token)}

/-- Whatever a step is composed of has clean code, if the names of its visit are proper. -/
theorem Call.Composes.clean {call : Call} (composes : call.Composes flow visit? parts)
    (proper : ∀ visit ∈ visit?, visit.names.Proper) : ∀ tokens ∈ parts, Clean tokens := by
  intro tokens member
  cases composes with
  | nothing => cases member
  | endpoint | clear =>
      rw [List.mem_singleton.mp member]
      exact clean_endpoint _
  | document =>
      rw [List.mem_singleton.mp member]
      exact Subflow.clean_document (proper _ rfl)
  | reply =>
      rw [List.mem_singleton.mp member]
      decide
  | callback =>
      rw [List.mem_singleton.mp member]
      exact Webhook.clean_correlation _
  | log =>
      rw [List.mem_singleton.mp member]
      exact Flow.clean_log flow

theorem Step.Composes.clean {step : Step} (composes : step.Composes settings flow visit? parts)
    (proper : ∀ visit ∈ visit?, visit.names.Proper) : ∀ tokens ∈ parts, Clean tokens := by
  intro tokens member
  cases composes with
  | nothing => cases member
  | call _ composes => exact composes.clean proper tokens member
  | route => exact Fork.clean_of_mem_compositions (proper _ rfl) member
  | check => exact Subflow.clean_of_mem_compositions (proper _ rfl) member
  | guard =>
      rw [List.mem_singleton.mp member]
      exact LoopStart.clean_guard (proper _ rfl)

end

/-! ## Programs -/

namespace Compile

variable {settings : Settings} {lookup : BranchLookup} {flow : Flow} {program : Program}

theorem isComposed_of_mem_fixedSites {branch : Branch} {site : String × Step}
    (member : site ∈ fixedSites settings flow branch) : site.2.IsComposed settings flow none := by
  have steps : site.2 ∈ [setupStep (branchRegistry flow branch),
      clearSession settings "clear_session", Walk.finishStep] ++
        (setupRoutine settings flow (branchRegistry flow branch)).steps :=
    List.mem_map_of_mem (f := Prod.snd) member
  simp only [setupRoutine, List.cons_append, List.nil_append, List.mem_cons, List.not_mem_nil,
    or_false] at steps
  rcases steps with equal | equal | equal | equal | equal | equal
  all_goals rw [equal]
  · exact isComposed_call (Call.isComposed_of_silent setupName rfl (by decide))
  · exact isComposed_call ⟨_, .clear rfl, Call.compositions_ofPost _ _ _ _⟩
  · exact isComposed_of_nothing rfl
  · exact isComposed_call (Call.isComposed_of_silent Primitive.getEnv rfl (by decide))
  · refine isComposed_call ⟨_, .log rfl, ?_⟩
    rw [List.map_singleton, ← Flow.log_eq_compose]
    rfl
  · exact isComposed_of_nothing rfl

theorem isComposed_of_build (built : build settings lookup flow = .ok program)
    {site : String × Step} (member : site ∈ program.sites) :
    ∃ visit?, (∀ visit ∈ visit?, visit.node ∈ flow.nodes ∧ visit.names.Proper) ∧
      site.2.IsComposed settings flow visit? := by
  have emitted := (sites_perm_emissions built).mem_iff.mp member
  rcases exists_origin_of_build built with ⟨none, _⟩ | ⟨origin, found, proper, _⟩
  · rw [emissions, none, map_site_emitUnvisited] at emitted
    rw [List.mem_singleton.mp emitted]
    exact ⟨Option.none, by simp, isComposed_of_nothing rfl⟩
  rw [emissions, found, List.map_append, map_site_emitUnvisited] at emitted
  rcases List.mem_append.mp emitted with fixed | emitted
  · exact ⟨none, by simp, isComposed_of_mem_fixedSites fixed⟩
  rcases List.mem_map.mp emitted with ⟨emission, among, rfl⟩
  have roles := inRoles_origin found
  rcases Walk.emittedBehind_of_mem_emissions settings _ roles among with
    ⟨legs, part, trail, emitted⟩
  have composed : emission.step.IsComposed settings flow emission.visit :=
    emitted.isComposed (trail.inRoles roles) ((trail.place roles).proper proper)
  refine ⟨emission.visit, fun visit own => ?_, composed⟩
  have known := trail.visits_sublist.subset (emitted.mem_visits own)
  exact ⟨node_mem_of_origin found known, proper.names_of_mem known⟩

end Compile

/-- A literal ends where its text ends, whatever the text is and whatever follows it. The
expressions in a compiled program are composed of such literals and of clean code, so a scan yields
the parts of which they were composed, and among them the ids, labels, formats, names and titles of
the flow. -/
theorem quoted_texts_stay_in_literals :
    (∀ text rest : String, Json.Literal.scan (literal text ++ rest).toList =
      .ok (text.toList, rest.toList)) ∧
    Function.Injective literal ∧
    (∀ text, ∀ character ∈ (literal text).toList, ¬ character.toNat < 0x20) ∧
    (∀ body, body? (evaluate body) = some body) ∧
    ∀ (settings : Settings) (lookup : BranchLookup) (flow : Flow) (program : Program),
      compile settings lookup flow = .ok program →
        ∀ site ∈ program.sites, ∃ visit? parts,
          (∀ visit ∈ visit?, visit.node ∈ flow.nodes) ∧
          site.2.Composes settings flow visit? parts ∧
          site.2.compositions = parts.map compose ∧
          ∀ tokens ∈ parts, body? (compose tokens) = some (sentence tokens) ∧
            Expression.tokens (sentence tokens) = .ok tokens := by
  refine ⟨fun text rest => ?_, fun left right equal => ?_, fun text character member => ?_,
    body?_evaluate, fun settings lookup flow program compiled site member => ?_⟩
  · rw [String.toList_append, literal, String.toList_ofList]
    exact Json.Literal.scan_write text.toList rest.toList
  · exact String.toList_inj.mp (Json.Literal.write_injective (String.ofList_injective equal))
  · rw [literal, String.toList_ofList] at member
    exact Json.Literal.visible_of_mem_write member
  · rw [compile_eq_build] at compiled
    rcases Compile.isComposed_of_build compiled member with
      ⟨visit?, known, parts, composes, equal⟩
    refine ⟨visit?, parts, fun visit own => (known visit own).1, composes, equal,
      fun tokens among => ⟨body?_evaluate _, ?_⟩⟩
    exact tokens_sentence (composes.clean (fun visit own => (known visit own).2) tokens among)

/-- Wherever an expression of the sample program has a literal, its text is read back. -/
theorem quoted_texts_stay_in_literals_sample :
    ∃ program, compile .standard Compile.sampleLookup Compile.sampleFlow = .ok program ∧
      ∀ site ∈ program.sites, ∃ visit? parts,
        site.2.Composes .standard Compile.sampleFlow visit? parts ∧
        site.2.compositions = parts.map compose ∧
        ∀ tokens ∈ parts, Expression.tokens (sentence tokens) = .ok tokens := by
  obtain ⟨program, compiled⟩ := Compile.exists_sampleProgram
  obtain ⟨_, _, _, _, composed⟩ := quoted_texts_stay_in_literals
  refine ⟨program, compiled, fun site member => ?_⟩
  obtain ⟨visit?, parts, _, composes, equal, read⟩ := composed _ _ _ program compiled site member
  exact ⟨visit?, parts, composes, equal, fun tokens among => (read tokens among).2⟩

end FlowCompiler
