import FlowCompiler.Proofs.Arguments
import FlowCompiler.Proofs.SubflowSites

namespace FlowCompiler

/-! The calls of single visits: those of primitives, and those that hand over to a routine. Each
call passes values on under certain names, and outside of loops the variables of an iteration are
not among them. -/

open Expression Lowering Step

/-! ## Variables of an iteration -/

namespace Registry

def loopVariables : List String :=
  [loopItem, loopIndex]

theorem wordy_of_mem_loopVariables : ∀ name ∈ loopVariables, Text.Wordy name := by
  decide

theorem ne_state_of_mem_loopVariables : ∀ name ∈ loopVariables, name ≠ state := by
  decide

end Registry

theorem Names.Owns.not_mem_loopVariables {names : Names} (proper : names.Proper) {name : String}
    (owns : names.Owns name) : name ∉ Registry.loopVariables :=
  fun member => owns.not_wordy proper (Registry.wordy_of_mem_loopVariables name member)

/-! ## Passing variables on -/

def Json.argumentNames (body : Json) : List String :=
  match body.member? "args" with
  | some (.object members) => members.map Prod.fst
  | _ => []

/-- The names under which a call passes values on: its arguments, and those that a request to the
backend passes on to another flow. -/
def Call.forwards (call : Call) : List String :=
  call.args.keys ++
    if call.target = Primitive.httpPost then
      ((call.args.get? "body").map Json.argumentNames).getD []
    else []

def Call.Quiet (call : Call) : Prop :=
  ∀ name ∈ call.forwards, name ∉ Registry.loopVariables

namespace Call

def ofPost (settings : Settings) (path : String) (body : Json) (result : Option String) : Call where
  target := Primitive.httpPost
  args := .ofList [("url", endpoint path), ("body", body)]
  result
  retry := some settings.httpRetry

theorem quiet_ofPost {settings : Settings} {path : String} {body : Json} {result : Option String}
    (quiet : ∀ name ∈ body.argumentNames, name ∉ Registry.loopVariables) :
    (ofPost settings path body result).Quiet := by
  have forwards : (ofPost settings path body result).forwards =
      ["url", "body"] ++ body.argumentNames := rfl
  intro name member
  rw [forwards] at member
  rcases List.mem_append.mp member with member | member
  · have fixed : ∀ name ∈ ["url", "body"], name ∉ Registry.loopVariables := by decide
    exact fixed name member
  · exact quiet name member

theorem quiet_ofPost_of_nil {settings : Settings} {path : String} {body : Json}
    {result : Option String} (none : body.argumentNames = []) :
    (ofPost settings path body result).Quiet :=
  quiet_ofPost fun name member => by
    rw [none] at member
    cases member

/-- A call that is no request passes only its arguments on. -/
theorem quiet_of_args {call : Call} (target : String) (keys : List String)
    (same : call.target = target) (known : call.args.keys ⊆ keys)
    (other : target ≠ Primitive.httpPost)
    (quiet : ∀ name ∈ keys, name ∉ Registry.loopVariables) : call.Quiet := by
  intro name member
  rw [forwards, same, if_neg other, List.append_nil] at member
  exact quiet name (known member)

end Call

theorem Table.mem_keys_ofList {α : Type} {entries : List (String × α)} {name : String}
    (member : name ∈ (Table.ofList entries).keys) : name ∈ entries.map Prod.fst := by
  rcases List.mem_map.mp member with ⟨entry, among, rfl⟩
  exact List.mem_map_of_mem (Table.mem_of_mem_ofList among)

section

variable {settings : Settings} {names : Names} {registry : Registry}

theorem Action.quiet_of_mem {action : Action} {call : Call}
    (member : call ∈ callsWithin
      (action.steps settings names registry ++ action.binding names)) : call.Quiet := by
  cases action with
  | delay pause =>
      rw [List.mem_singleton.mp member]
      exact Call.quiet_of_args Primitive.sleep ["seconds"] rfl (List.Subset.refl _) (by decide)
        (by decide)
  | webhook hook =>
      rw [List.mem_singleton.mp member]
      exact Call.quiet_of_args Primitive.awaitCallback ["source", "timeout", "correlation_id"] rfl
        (List.Subset.refl _) (by decide) (by decide)
  | apiCall request =>
      rw [List.mem_singleton.mp member]
      refine Call.quiet_of_args Primitive.httpRequest (["method", "url"] ++ (["headers"] ++ ["body"]))
        rfl (fun name key => ?_) (by decide) (by decide)
      have among := Table.mem_keys_ofList key
      rw [List.append_assoc, List.map_append, List.map_append] at among
      refine (List.mem_append.mp among).elim (List.mem_append_left _) fun among => ?_
      refine List.mem_append_right _ ((List.mem_append.mp among).elim (fun among => ?_) fun among => ?_)
      · split at among
        · cases among
        · exact List.mem_append_left _ among
      · split at among
        · exact List.mem_append_right _ among
        · cases among
  | message | saveFields | saveVariable | alert | utility =>
      rw [List.mem_singleton.mp member]
      exact Call.quiet_ofPost_of_nil rfl

namespace Fork

def awaitCall (settings : Settings) (names : Names) (fork : Fork) : Call where
  target := Primitive.awaitCallback
  args := .ofList [
    ("source", .string "messaging"),
    ("timeout", .ofUInt64 (fork.timeout?.getD settings.responseTimeoutSecs)),
    ("correlation_id", evaluate "tg.session_id")]
  result := some names.result
  retry := none

theorem callsWithin_promptSteps (fork : Fork) :
    callsWithin (fork.promptSteps settings names registry) =
      [.ofPost settings messagesPath (messageBody registry fork.content.1 fork.content.2)
          (some (names.step "sent")),
        fork.awaitCall settings names] := by
  rw [promptSteps]
  cases fork.asksAgain <;> rfl

theorem quiet_of_mem_opening {fork : Fork} {call : Call}
    (member : call ∈ callsWithin (fork.openingSteps settings names registry)) : call.Quiet := by
  have prompt : ∀ fork : Fork, ∀ call ∈ callsWithin (fork.promptSteps settings names registry),
      call.Quiet := by
    intro fork call member
    rw [callsWithin_promptSteps] at member
    rcases List.mem_pair.mp member with equal | equal
    · rw [equal]
      exact Call.quiet_ofPost_of_nil rfl
    · rw [equal]
      exact Call.quiet_of_args Primitive.awaitCallback ["source", "timeout", "correlation_id"] rfl
        (List.Subset.refl _) (by decide) (by decide)
  cases fork with
  | split | branch =>
      rw [List.mem_singleton.mp member]
      exact Call.quiet_ofPost_of_nil rfl
  | text | buttons | list => exact prompt _ call member

end Fork

theorem Fork.opening_or_dispatch {fork : Fork} {exits : List Exit} {call : Call}
    (member : call ∈ callsWithin (fork.steps settings names registry exits)) :
    call ∈ callsWithin (fork.openingSteps settings names registry) ∨ ∃ exit ∈ exits,
      call = dispatchCall (names.routine exit.slug) names
        (registry.bindVariable names.result) := by
  rw [steps, callsWithin_append] at member
  exact (List.mem_append.mp member).imp_right exists_exit_of_mem_route

theorem Names.routine_ne_of_wordy (proper : names.Proper) (slug : String) {name : String}
    (wordy : Text.Wordy name) : names.routine slug ≠ name :=
  fun equal => names.not_wordy_routine proper slug (equal ▸ wordy)

theorem forwards_dispatchCall (proper : names.Proper) (clear : registry.Clear) (slug : String) :
    (dispatchCall (names.routine slug) names registry).forwards = registry.params := by
  have other : (dispatchCall (names.routine slug) names registry).target ≠ Primitive.httpPost :=
    Names.routine_ne_of_wordy proper slug (by decide)
  rw [Call.forwards, if_neg other, List.append_nil]
  exact Registry.keys_callArgs clear

/-! ## Calls of subflows -/

namespace Subflow

def ownCalls (settings : Settings) (names : Names) (registry : Registry) (subflow : Subflow) :
    List Call := [
  { target := Primitive.getEnv
    args := .ofList [("name", .string settings.executionIdEnv)]
    result := some (names.step "caller")
    retry := none },
  .ofPost settings "/v1/subflows/start"
    (.object [
      ("branch_id", registry.reference Registry.branchId),
      ("flow_id", .string subflow.subflowId),
      ("program", .string (subflow.subflowName.getD subflow.subflowId)),
      ("caller_execution_id", ofVariable (names.step "caller")),
      ("args", .object registry.callArgs.entries)])
    (some (started names)),
  { target := Primitive.httpGet
    args := .ofList [("url", document names)]
    result := some (names.step "status")
    retry := some settings.httpRetry },
  { target := Primitive.sleep
    args := .ofList [("seconds", .ofUInt64 settings.subflowPollIntervalSecs)]
    result := none
    retry := none },
  { target := Primitive.httpDelete
    args := .ofList [("url", document names)]
    result := none
    retry := some settings.httpRetry },
  .ofPost settings "/v1/sessions/clear"
    (.object [("session_id", evaluate "tg.session_id")]) none]

variable {subflow : Subflow} {exits : List Exit} {call : Call}

theorem ownCall_or_dispatch_of_abort {abort : Abort}
    (member : call ∈ callsWithin (subflow.abortSteps settings names registry exits abort)) :
    call ∈ subflow.ownCalls settings names registry ∨ ∃ exit ∈ exits,
      call = dispatchCall (names.routine exit.slug) names registry := by
  cases exits with
  | nil => cases member
  | cons exit rest =>
      rcases List.mem_pair.mp member with equal | equal
      · exact .inr ⟨exit, List.mem_cons_self, equal⟩
      · subst equal
        exact .inl (List.mem_of_getLast? rfl)

theorem ownCall_or_dispatch
    (member : call ∈ callsWithin (subflow.steps settings names registry exits)) :
    call ∈ subflow.ownCalls settings names registry ∨ ∃ exit ∈ exits,
      call = dispatchCall (names.routine exit.slug) names registry := by
  have front : callsWithin (subflow.startSteps settings names registry) =
      (subflow.ownCalls settings names registry).take 3 := rfl
  have check : callsWithin [.switch (names.step "check")
        (subflow.checkCases settings names registry exits)] =
      callsWithin (subflow.abortSteps settings names registry exits .failed) ++
        (callsWithin (subflow.abortSteps settings names registry exits .timedOut) ++
          ((subflow.ownCalls settings names registry).drop 3).take 1) := by
    simp only [callsWithin, checkCases, flattenSteps, flatten, flattenCases, List.append_nil,
      List.nil_append, List.filterMap_append, List.filterMap_cons, call?]
    rfl
  have back : callsWithin (settledSteps settings names) =
      (subflow.ownCalls settings names registry).drop 4 := rfl
  rw [steps_eq, List.append_cons, callsWithin_append, callsWithin_append, front, check,
    back] at member
  rcases List.mem_append.mp member with member | own
  · rcases List.mem_append.mp member with own | member
    · exact .inl (List.mem_of_mem_take own)
    · rcases List.mem_append.mp member with aborts | member
      · exact ownCall_or_dispatch_of_abort aborts
      · rcases List.mem_append.mp member with aborts | own
        · exact ownCall_or_dispatch_of_abort aborts
        · exact .inl (List.mem_of_mem_drop (List.mem_of_mem_take own))
  · exact .inl (List.mem_of_mem_drop own)

theorem isPrimitive_of_mem_ownCalls
    (member : call ∈ subflow.ownCalls settings names registry) :
    Primitive.isPrimitive call.target := by
  simp only [ownCalls, List.mem_cons, List.not_mem_nil, or_false] at member
  rcases member with rfl | rfl | rfl | rfl | rfl | rfl <;> simp [Call.ofPost]

/-- Outside of loops, a subflow passes no variable of an iteration on. -/
theorem quiet_of_mem_ownCalls (clear : registry.Clear)
    (outside : ∀ name ∈ registry.names, name ∉ Registry.loopVariables)
    (member : call ∈ subflow.ownCalls settings names registry) : call.Quiet := by
  have started : ∀ name ∈ registry.callArgs.keys, name ∉ Registry.loopVariables := by
    rw [Registry.keys_callArgs clear]
    intro name member
    rcases List.mem_cons.mp member with equal | member
    · exact fun among => Registry.ne_state_of_mem_loopVariables name among equal
    · exact outside name member
  simp only [ownCalls, List.mem_cons, List.not_mem_nil, or_false] at member
  rcases member with rfl | rfl | rfl | rfl | rfl | rfl
  · exact Call.quiet_of_args Primitive.getEnv ["name"] rfl (List.Subset.refl _) (by decide)
      (by decide)
  · exact Call.quiet_ofPost started
  · exact Call.quiet_of_args Primitive.httpGet ["url"] rfl (List.Subset.refl _) (by decide)
      (by decide)
  · exact Call.quiet_of_args Primitive.sleep ["seconds"] rfl (List.Subset.refl _) (by decide)
      (by decide)
  · exact Call.quiet_of_args Primitive.httpDelete ["url"] rfl (List.Subset.refl _) (by decide)
      (by decide)
  · exact Call.quiet_ofPost_of_nil rfl

end Subflow

end

end FlowCompiler
