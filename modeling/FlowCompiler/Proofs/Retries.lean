import FlowCompiler.Proofs.Emissions
import FlowCompiler.Proofs.VisitCalls

namespace FlowCompiler

/-! Which calls of a program are repeated when they fail: the requests, by the policy of the
settings, and no other calls. -/

open Lowering Step Walk

def Primitive.requests : List String :=
  [httpGet, httpPost, httpDelete, httpRequest]

theorem Primitive.wordy_of_mem_requests : ∀ name ∈ requests, Text.Wordy name := by
  decide

namespace Call

/-- Requests are repeated by the policy, and other calls are not repeated. -/
def Repeats (policy : RetryPolicy) (call : Call) : Prop :=
  call.retry = if call.target ∈ Primitive.requests then some policy else none

variable {policy : RetryPolicy} {call : Call}

theorem repeats_of_request (target : String) (same : call.target = target)
    (request : target ∈ Primitive.requests) (retry : call.retry = some policy) :
    call.Repeats policy := by
  rw [Repeats, same, if_pos request]
  exact retry

theorem repeats_of_other (target : String) (same : call.target = target)
    (other : target ∉ Primitive.requests) (retry : call.retry = none) : call.Repeats policy := by
  rw [Repeats, same, if_neg other]
  exact retry

theorem repeats_ofPost (settings : Settings) (path : String) (body : Json)
    (result : Option String) : (ofPost settings path body result).Repeats settings.httpRetry :=
  repeats_of_request Primitive.httpPost rfl (by decide) rfl

theorem repeats_of_routine {names : Names} (proper : names.Proper) {slug : String}
    (target : call.target = names.routine slug) (retry : call.retry = none) :
    call.Repeats policy := by
  refine repeats_of_other _ target (fun request => ?_) retry
  have wordy := Primitive.wordy_of_mem_requests _ request
  exact Names.routine_ne_of_wordy proper slug wordy rfl

end Call

/-! ## Calls of visits -/

section

variable {settings : Settings} {names : Names} {registry : Registry} {exits : List Exit}
  {call : Call}

theorem Action.repeats_of_mem {act : Action}
    (member : call ∈ callsWithin (act.steps settings names registry ++ act.binding names)) :
    call.Repeats settings.httpRetry := by
  cases act with
  | delay =>
      rw [List.mem_singleton.mp member]
      exact Call.repeats_of_other Primitive.sleep rfl (by decide) rfl
  | webhook =>
      rw [List.mem_singleton.mp member]
      exact Call.repeats_of_other Primitive.awaitCallback rfl (by decide) rfl
  | apiCall =>
      rw [List.mem_singleton.mp member]
      exact Call.repeats_of_request Primitive.httpRequest rfl (by decide) rfl
  | message | saveFields | saveVariable | alert | utility =>
      rw [List.mem_singleton.mp member]
      exact Call.repeats_ofPost settings _ _ _

theorem Fork.repeats_of_mem_opening {choice : Fork}
    (member : call ∈ callsWithin (choice.openingSteps settings names registry)) :
    call.Repeats settings.httpRetry := by
  have prompt : ∀ choice : Fork,
      ∀ call ∈ callsWithin (choice.promptSteps settings names registry),
        call.Repeats settings.httpRetry := by
    intro choice call member
    rw [callsWithin_promptSteps] at member
    rcases List.mem_pair.mp member with equal | equal
    · exact equal ▸ Call.repeats_ofPost settings _ _ _
    · rw [equal]
      exact Call.repeats_of_other Primitive.awaitCallback rfl (by decide) rfl
  cases choice with
  | split | branch =>
      rw [List.mem_singleton.mp member]
      exact Call.repeats_ofPost settings _ _ _
  | text | buttons | list => exact prompt _ call member

theorem Fork.repeats_of_mem (proper : names.Proper) {choice : Fork}
    (member : call ∈ callsWithin (choice.steps settings names registry exits)) :
    call.Repeats settings.httpRetry := by
  rcases opening_or_dispatch member with opening | ⟨exit, _, equal⟩
  · exact repeats_of_mem_opening opening
  · exact equal ▸ Call.repeats_of_routine proper rfl rfl

theorem Subflow.repeats_of_mem (proper : names.Proper) {called : Subflow}
    (member : call ∈ callsWithin (called.steps settings names registry exits)) :
    call.Repeats settings.httpRetry := by
  rcases ownCall_or_dispatch member with own | ⟨exit, _, equal⟩
  · simp only [ownCalls, List.mem_cons, List.not_mem_nil, or_false] at own
    rcases own with rfl | rfl | rfl | rfl | rfl | rfl
    · exact Call.repeats_of_other Primitive.getEnv rfl (by decide) rfl
    · exact Call.repeats_ofPost settings _ _ _
    · exact Call.repeats_of_request Primitive.httpGet rfl (by decide) rfl
    · exact Call.repeats_of_other Primitive.sleep rfl (by decide) rfl
    · exact Call.repeats_of_request Primitive.httpDelete rfl (by decide) rfl
    · exact Call.repeats_ofPost settings _ _ _
  · exact equal ▸ Call.repeats_of_routine proper rfl rfl

theorem LoopStart.repeats_of_mem (proper : names.Proper) {start : LoopStart}
    (member : call ∈ callsWithin (start.steps settings names registry)) :
    call.Repeats settings.httpRetry := by
  rw [callsWithin_steps] at member
  rw [List.mem_singleton.mp member]
  exact Call.repeats_of_routine proper rfl rfl

/-- Every call that is emitted for a visit is repeated if it is a request. -/
theorem Walk.EmittedFor.repeats {step : Step} (emitted : EmittedFor settings names step)
    (proper : names.Proper) (called : step.call? = some call) :
    call.Repeats settings.httpRetry := by
  cases emitted with
  | terminal | block => cases called
  | closing last =>
      cases last <;> cases called
  | action inside =>
      exact Action.repeats_of_mem (List.mem_filterMap.mpr ⟨step, inside, called⟩)
  | fork inside =>
      exact Fork.repeats_of_mem proper (List.mem_filterMap.mpr ⟨step, inside, called⟩)
  | subflow inside =>
      exact Subflow.repeats_of_mem proper (List.mem_filterMap.mpr ⟨step, inside, called⟩)
  | loop inside =>
      exact LoopStart.repeats_of_mem proper (List.mem_filterMap.mpr ⟨step, inside, called⟩)

end

/-! ## Calls of programs -/

namespace Compile

variable {settings : Settings} {lookup : BranchLookup} {flow : Flow} {program : Program}
  {call : Call}

theorem repeats_of_mem_fixedSites {branch : Branch} {site : String × Step}
    (member : site ∈ fixedSites settings flow branch) (called : site.2.call? = some call) :
    call.Repeats settings.httpRetry := by
  have steps : site.2 ∈ [setupStep (branchRegistry flow branch),
      clearSession settings "clear_session", Walk.finishStep] ++
        (setupRoutine settings flow (branchRegistry flow branch)).steps :=
    List.mem_map_of_mem (f := Prod.snd) member
  simp only [setupRoutine, List.cons_append, List.nil_append, List.mem_cons, List.not_mem_nil,
    or_false] at steps
  rcases steps with equal | equal | equal | equal | equal | equal
  all_goals
    rw [equal] at called
    cases called
  · exact Call.repeats_of_other setupName rfl (by decide) rfl
  · exact Call.repeats_ofPost settings _ _ _
  · exact Call.repeats_of_other Primitive.getEnv rfl (by decide) rfl
  · exact Call.repeats_of_other Primitive.log rfl (by decide) rfl

theorem repeats_of_build (built : build settings lookup flow = .ok program)
    {site : String × Step} (member : site ∈ program.sites) (called : site.2.call? = some call) :
    call.Repeats settings.httpRetry := by
  have emitted := (sites_perm_emissions built).mem_iff.mp member
  rcases exists_origin_of_build built with ⟨none, _⟩ | ⟨origin, found, proper, _⟩
  · rw [emissions, none, map_site_emitUnvisited] at emitted
    rw [List.mem_singleton.mp emitted] at called
    cases called
  · rw [emissions, found, List.map_append, map_site_emitUnvisited] at emitted
    rcases List.mem_append.mp emitted with fixed | emitted
    · exact repeats_of_mem_fixedSites fixed called
    · rcases List.mem_map.mp emitted with ⟨emission, among, rfl⟩
      rcases Walk.emittedAmong_of_mem_emissions settings _ _ _ proper.shaped emission among with
        ⟨visit, known, _, forVisit⟩
      exact forVisit.repeats (proper.names_of_mem known) called

end Compile

end FlowCompiler
