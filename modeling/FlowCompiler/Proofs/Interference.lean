import FlowCompiler.Proofs.Checked
import FlowCompiler.Proofs.Emissions
import FlowCompiler.Proofs.VisitSites
import FlowCompiler.Proofs.WalkSites

namespace FlowCompiler

/-! Generated names never interfere, whatever the titles of the nodes are. Steps have pairwise
different names, no routine replaces another, and a variable is only set by steps of one visit. -/

open Lowering Step

/-! ## Variables that are set -/

namespace Step

def sets : Step → List String
  | .loop _ head _ => head.bound
  | step => step.writes

def setsWithin (steps : List Step) : List String :=
  (flattenSteps steps).flatMap sets

theorem mem_setsWithin {steps : List Step} {name : String} :
    name ∈ setsWithin steps ↔ ∃ step ∈ flattenSteps steps, name ∈ step.sets :=
  List.mem_flatMap

@[simp] theorem setsWithin_append (left right : List Step) :
    setsWithin (left ++ right) = setsWithin left ++ setsWithin right := by
  rw [setsWithin, flattenSteps_append, List.flatMap_append, setsWithin, setsWithin]

end Step

def Names.MaySet (names : Names) (name : String) : Prop :=
  names.Owns name ∨ name = Registry.loopItem ∨ name = Registry.loopIndex

section

variable {settings : Settings} {names : Names} {registry : Registry} {name : String}

theorem Action.owns_of_mem_setsWithin {action : Action}
    (member : name ∈
      setsWithin (action.steps settings names registry ++ action.binding names)) :
    names.Owns name := by
  have flat : setsWithin (action.steps settings names registry ++ action.binding names) =
      (action.steps settings names registry ++ action.binding names).flatMap writes := by
    cases action <;> rfl
  exact owns_of_mem_writes (flat ▸ member)

theorem Fork.owns_of_mem_cases {fork : Fork} {exits : List Exit} {step : Step}
    (inside : step ∈ flattenCases (fork.cases names registry exits))
    (member : name ∈ step.sets) : names.Owns name := by
  rcases exists_case_of_mem_flattenCases inside with ⟨branch, isCase, inside⟩
  rcases retries_or_exists_exit isCase with ⟨_, retry⟩ | ⟨exit, _, own⟩
  · rw [retry] at inside
    rw [List.mem_singleton.mp inside] at member
    exact List.mem_singleton.mp member ▸ .step (by decide)
  · rw [own] at inside
    rw [List.mem_singleton.mp inside] at member
    exact List.mem_singleton.mp member ▸ .step (by decide)

theorem Fork.owns_of_mem_setsWithin {fork : Fork} {exits : List Exit}
    (member : name ∈ setsWithin (fork.steps settings names registry exits)) :
    names.Owns name := by
  rw [steps, setsWithin_append] at member
  rcases List.mem_append.mp member with member | member
  · have flat : setsWithin (fork.openingSteps settings names registry) =
        (fork.openingSteps settings names registry).flatMap writes := by
      have prompt : setsWithin (fork.promptSteps settings names registry) =
          (fork.promptSteps settings names registry).flatMap writes := by
        rw [promptSteps]
        cases fork.asksAgain <;> rfl
      cases fork with
      | split | branch => rfl
      | text | buttons | list => exact prompt
    exact owns_of_mem_writes (flat ▸ member)
  · rcases mem_setsWithin.mp member with ⟨step, inside, member⟩
    simp only [flattenSteps, flatten, List.append_nil] at inside
    rcases List.mem_cons.mp inside with equal | inside
    · rw [equal] at member
      cases member
    · exact owns_of_mem_cases inside member

theorem Subflow.owns_of_mem_setsWithin {subflow : Subflow} {exits : List Exit}
    (member : name ∈ setsWithin (subflow.steps settings names registry exits)) :
    names.Owns name := by
  have suffix : name = names.result ∨ ∃ suffix ∈
      ["caller", "started", "polls", "status", "outcome"], name = names.step suffix := by
    cases exits with
    | nil =>
        have sets : setsWithin (subflow.steps settings names registry []) =
            [names.step "caller", started names, polls names, names.step "status", polls names,
              names.result] := rfl
        rw [sets] at member
        simp only [List.mem_cons, List.not_mem_nil, or_false] at member
        rcases member with rfl | rfl | rfl | rfl | rfl | rfl <;> simp [started, polls]
    | cons exit rest =>
        have sets : setsWithin (subflow.steps settings names registry (exit :: rest)) =
            [names.step "caller", started names, polls names, names.step "status",
              names.step "outcome", names.step "outcome", polls names, names.result] := rfl
        rw [sets] at member
        simp only [List.mem_cons, List.not_mem_nil, or_false] at member
        rcases member with rfl | rfl | rfl | rfl | rfl | rfl | rfl | rfl <;>
          simp [started, polls]
  have wordy : ∀ suffix ∈ ["caller", "started", "polls", "status", "outcome"],
      Text.Wordy suffix := by decide
  rcases suffix with equal | ⟨suffix, among, equal⟩
  · exact equal ▸ .result
  · exact equal ▸ .step (wordy suffix among)

theorem LoopStart.maySet_of_mem_setsWithin {loop : LoopStart}
    (member : name ∈ setsWithin (loop.steps settings names registry)) :
    names.MaySet name := by
  have sets : setsWithin (loop.steps settings names registry) =
      (loop.steps settings names registry).flatMap writes ++ (loop.head settings names).bound ++
        [names.step "outcome"] := by
    rw [steps, iteration, setup, head]
    cases loop.loopValue <;> rfl
  rw [sets] at member
  rcases List.mem_append.mp member with member | member
  · rcases List.mem_append.mp member with member | member
    · rcases owns_of_mem_writes member with ⟨suffix, wordy, equal⟩
      exact .inl (equal ▸ .step wordy)
    · rw [head] at member
      cases value : loop.loopValue with
      | list expression =>
          rw [value] at member
          exact .inr (List.mem_pair.mp member)
      | count number =>
          rw [value] at member
          exact .inr (.inl (List.mem_singleton.mp member))
  · exact .inl (List.mem_singleton.mp member ▸ .step (by decide))

end

/-! ## Emissions of visits -/

def Emission.OwnedBy (visits : List Visit) (emission : Emission) : Prop :=
  ∃ visit ∈ visits, emission.visit = some visit ∧
    ∀ name ∈ emission.step.sets, visit.names.MaySet name

theorem Walk.EmittedFor.maySet {settings : Settings} {names : Names} {step : Step}
    (emitted : EmittedFor settings names step) : ∀ name ∈ step.sets, names.MaySet name := by
  intro name isSet
  have nested : ∀ {steps : List Step}, step ∈ flattenSteps steps → name ∈ setsWithin steps :=
    fun inside => mem_setsWithin.mpr ⟨step, inside, isSet⟩
  cases emitted with
  | terminal | block => cases isSet
  | closing closing => cases closing <;> cases isSet
  | action inside => exact .inl (Action.owns_of_mem_setsWithin (nested inside))
  | fork inside => exact .inl (Fork.owns_of_mem_setsWithin (nested inside))
  | subflow inside => exact .inl (Subflow.owns_of_mem_setsWithin (nested inside))
  | loop inside => exact LoopStart.maySet_of_mem_setsWithin (nested inside)

namespace Walk

theorem ownedBy_of_mem_emissions (settings : Settings) (home : String) (scope : Scope)
    {walk : Walk Visit} (shaped : walk.Shaped) :
    ∀ emission ∈ walk.emissions settings home scope, emission.OwnedBy walk.visits := by
  intro emission member
  rcases emittedAmong_of_mem_emissions settings home scope walk shaped emission member with
    ⟨visit, among, equal, emitted⟩
  exact ⟨visit, among, equal, emitted.maySet⟩

end Walk

/-! ## Names of emitted steps -/

/-- The names that end routines; all others occur once in a program. -/
def closingNames : List String :=
  ["finish", "no_further_steps"]

def openNames (emissions : List Emission) : List String :=
  (emissions.map fun emission => emission.step.name).filter (· ∉ closingNames)

theorem openNames_append (left right : List Emission) :
    openNames (left ++ right) = openNames left ++ openNames right := by
  rw [openNames, List.map_append, List.filter_append, openNames, openNames]

theorem openNames_cons_of_closing {emission : Emission} (closing : emission.step.name ∈ closingNames)
    (rest : List Emission) : openNames (emission :: rest) = openNames rest := by
  rw [openNames, List.map_cons, List.filter_cons_of_neg (by simpa using closing), openNames]

theorem NamedBy.of_sublist {visits : List Visit} {fewer names : List String}
    (named : NamedBy visits names) (sublist : fewer.Sublist names) : NamedBy visits fewer :=
  ⟨sublist.nodup named.distinct, fun name member => named.owned name (sublist.subset member)⟩

namespace Walk

theorem Numbered.namedBy_append {left right : List Visit} {leftNames rightNames : List String}
    (numbered : Numbered (left ++ right)) (first : NamedBy left leftNames)
    (second : NamedBy right rightNames) : NamedBy (left ++ right) (leftNames ++ rightNames) := by
  refine ⟨List.nodup_append.mpr ⟨first.distinct, second.distinct, ?_⟩, ?_⟩
  · intro name leftMember other rightMember equal
    rcases first.owned name leftMember with ⟨visit, leftVisit, owns⟩
    rcases second.owned other rightMember with ⟨later, rightVisit, laterOwns⟩
    exact numbered.number_ne leftVisit rightVisit
      (owns.number_eq (numbered.proper visit (List.mem_append_left _ leftVisit))
        (numbered.proper later (List.mem_append_right _ rightVisit)) (equal ▸ laterOwns))
  · intro name member
    rcases List.mem_append.mp member with member | member
    · exact (first.mono (List.subset_append_left _ _)).owned name member
    · exact (second.mono (List.subset_append_right _ _)).owned name member

/-- The block of a visit and its own steps, in front of what is emitted for other visits. -/
theorem Numbered.namedBy_visit {visit : Visit} {visits : List Visit}
    (numbered : Numbered (visit :: visits)) {suffixes : List String}
    (suffixesProper : ProperSuffixes suffixes) {own : List Step}
    (names : namesWithin own = suffixes.map visit.names.step) {rest : List Emission}
    (named : NamedBy visits (openNames rest)) (home : String) (steps : List Step) :
    NamedBy (visit :: visits)
      (openNames (⟨home, some visit, .block visit.names.result steps⟩ ::
        (emit home visit own ++ rest))) := by
  have all := named.visit (numbered.proper visit List.mem_cons_self)
    (fun other among => numbered.proper other (List.mem_cons_of_mem _ among))
    (List.nodup_cons.mp numbered.distinct).1 suffixesProper
  refine all.of_sublist ?_
  have emitted : (emit home visit own).map (fun emission => emission.step.name) =
      suffixes.map visit.names.step := by
    rw [emit, List.map_map, ← names]
    rfl
  rw [← List.cons_append, openNames_append, ← List.cons_append]
  refine List.Sublist.append ?_ (List.Sublist.refl _)
  rw [openNames, List.map_cons, emitted]
  exact List.filter_sublist

mutual
/-- The steps that are emitted for a walk have different names, unless they end routines. -/
theorem namedBy_emissions (settings : Settings) :
    ∀ (home : String) (scope : Scope) (walk : Walk Visit), walk.Shaped →
      Numbered walk.visits →
        NamedBy walk.visits (openNames (walk.emissions settings home scope))
  | _, _, .done, _, _ => namedBy_nil _
  | home, scope, .terminal visit, _, numbered => by
      have none : ProperSuffixes [] := by decide
      have own := (namedBy_nil []).visit (numbered.proper visit List.mem_cons_self) (by simp)
        (by simp) none
      exact own.of_sublist List.filter_sublist
  | home, scope, .action visit act next, shaped, numbered => by
      have behind := namedBy_emissions settings home (scope.afterAction visit.names act) next shaped
        (numbered.of_sublist (List.sublist_cons_self _ _))
      rw [emissions]
      exact numbered.namedBy_visit act.properSuffixes (act.namesWithin_steps settings _ _) behind _ _
  | home, scope, .fork visit choice exits, shaped, numbered => by
      have behind := namedBy_exitEmissions settings visit (scope.bindResult visit.names) exits
        shaped.2 (numbered.of_sublist (List.sublist_cons_self _ _))
      have names := choice.namesWithin_steps settings visit.names scope.registry
        (exits.map Prod.fst)
      rw [emissions]
      exact numbered.namedBy_visit (shaped.1 ▸ choice.properSuffixes) names behind _ _
  | home, scope, .subflow visit called exits next, shaped, numbered => by
      have others := numbered.of_sublist (List.sublist_cons_self _ _)
      have exitsBehind := namedBy_exitEmissions settings visit scope exits shaped.2.1
        (others.of_sublist (List.sublist_append_left _ _))
      have nextBehind := namedBy_emissions settings home (scope.bindResult visit.names) next
        shaped.2.2 (others.of_sublist (List.sublist_append_right _ _))
      have behind := others.namedBy_append exitsBehind nextBehind
      rw [← openNames_append] at behind
      rw [emissions]
      exact numbered.namedBy_visit (Subflow.properSuffixes_of_shape shaped.1)
        (called.namesWithin_steps settings _ _ _) behind _ _
  | home, scope, .loop visit start body next, shaped, numbered => by
      have others := numbered.of_sublist (List.sublist_cons_self _ _)
      have inside := namedBy_emissions settings (LoopStart.bodyRoutine visit.names)
        scope.enterLoop body shaped.1 (others.of_sublist (List.sublist_append_left _ _))
      have nextBehind := namedBy_emissions settings home scope next shaped.2
        (others.of_sublist (List.sublist_append_right _ _))
      have behind := others.namedBy_append inside nextBehind
      rw [emissions]
      refine numbered.namedBy_visit start.properSuffixes (start.namesWithin_steps settings _ _) ?_
        _ _
      rw [openNames_append, openNames_cons_of_closing (by simp [Step.name, closingNames])]
      exact behind

theorem namedBy_exitEmissions (settings : Settings) (visit : Visit) :
    ∀ (scope : Scope) (exits : List (Exit × Option (Walk Visit))), ShapedExits exits →
      Numbered (exitVisits exits) →
        NamedBy (exitVisits exits) (openNames (exitEmissions settings visit scope exits))
  | _, [], _, _ => namedBy_nil _
  | scope, (exit, none) :: rest, shaped, numbered => by
      rw [exitEmissions, openNames_cons_of_closing (by simp [stubStep, Step.name, closingNames])]
      exact namedBy_exitEmissions settings visit scope rest shaped numbered
  | scope, (exit, some walk) :: rest, shaped, numbered => by
      have first := namedBy_emissions settings (visit.names.routine exit.slug)
        scope.enterRoutine walk shaped.1 (numbered.of_sublist (List.sublist_append_left _ _))
      have others := namedBy_exitEmissions settings visit scope rest shaped.2
        (numbered.of_sublist (List.sublist_append_right _ _))
      rw [exitEmissions, openNames_append,
        openNames_cons_of_closing (by simp [finishStep, Step.name, closingNames])]
      exact numbered.namedBy_append first others
end

end Walk

/-! ## Programs -/

namespace Compile

def fixedNames : List String :=
  [setupName, "clear_session", "read_api_base", "log_start"]

theorem openNames_fixedSites (settings : Settings) (flow : Flow) (branch : Branch) :
    openNames (emitUnvisited (fixedSites settings flow branch)) = fixedNames := by
  have names : (emitUnvisited (fixedSites settings flow branch)).map
      (fun emission => emission.step.name) =
        [setupName, "clear_session", "finish", "read_api_base", "log_start", "finish"] := rfl
  rw [openNames, names]
  decide

theorem eq_apiBase_of_fixed {settings : Settings} {flow : Flow} {branch : Branch}
    {emission : Emission} (member : emission ∈ emitUnvisited (fixedSites settings flow branch))
    {name : String} (isSet : name ∈ emission.step.sets) : name = Registry.apiBase := by
  have sets : (emitUnvisited (fixedSites settings flow branch)).flatMap
      (fun emission => emission.step.sets) = [Registry.apiBase, Registry.apiBase] := rfl
  have found : name ∈ (emitUnvisited (fixedSites settings flow branch)).flatMap
      (fun emission => emission.step.sets) := List.mem_flatMap.mpr ⟨emission, member, isSet⟩
  rw [sets] at found
  exact (List.mem_pair.mp found).elim id id

section

variable {settings : Settings} {lookup : BranchLookup} {flow : Flow} {program : Program}

theorem numbered_visits (built : build settings lookup flow = .ok program) :
    Walk.Numbered (visits lookup flow) := by
  rw [visits]
  rcases exists_origin_of_build built with ⟨none, _⟩ | ⟨origin, found, proper, _⟩
  · rw [none]
    exact ⟨by simp, by simp⟩
  · rw [found]
    exact proper.numbered

/-- What is emitted belongs to a visit, or it is fixed and sets only the base address. -/
theorem ownedBy_visits (built : build settings lookup flow = .ok program) {emission : Emission}
    (member : emission ∈ emissions settings lookup flow) :
    emission.OwnedBy (visits lookup flow) ∨
      emission.visit = none ∧ ∀ name ∈ emission.step.sets, name = Registry.apiBase := by
  rw [emissions] at member
  rw [visits]
  rcases exists_origin_of_build built with ⟨none, _⟩ | ⟨origin, found, proper, _⟩
  · rw [none] at member
    rw [List.mem_singleton.mp member]
    exact .inr ⟨rfl, by simp [sets, writes]⟩
  · rw [found] at member ⊢
    rcases List.mem_append.mp member with fixed | member
    · rcases List.mem_map.mp fixed with ⟨site, _, equal⟩
      exact .inr ⟨equal ▸ rfl, fun name isSet => eq_apiBase_of_fixed fixed isSet⟩
    · exact .inl (Walk.ownedBy_of_mem_emissions settings _ _ proper.shaped emission member)

/-- What is set belongs to the visit for which the step is emitted, but for a few shared names. -/
theorem exists_owner_of_sets (built : build settings lookup flow = .ok program)
    {emission : Emission} (member : emission ∈ emissions settings lookup flow) {name : String}
    (isSet : name ∈ emission.step.sets)
    (unshared : name ∉ [Registry.apiBase, Registry.loopItem, Registry.loopIndex]) :
    ∃ visit ∈ visits lookup flow, emission.visit = some visit ∧ visit.names.Owns name := by
  simp only [List.mem_cons, List.not_mem_nil, or_false, not_or] at unshared
  rcases ownedBy_visits built member with ⟨visit, among, equal, sets⟩ | ⟨_, sets⟩
  · exact ⟨visit, among, equal, (sets name isSet).resolve_right (by simp [unshared])⟩
  · exact absurd (sets name isSet) unshared.1

theorem nodup_openNames (built : build settings lookup flow = .ok program) :
    (openNames (emissions settings lookup flow)).Nodup := by
  rw [emissions]
  rcases exists_origin_of_build built with ⟨none, _⟩ | ⟨origin, found, proper, _⟩
  · rw [none]
    exact List.nodup_singleton "no_reachable_action"
  · have named := Walk.namedBy_emissions settings Program.mainName origin.scope origin.walk
      proper.shaped proper.numbered
    have wordy : ∀ name ∈ fixedNames, Text.Wordy name := by decide
    rw [found]
    change (openNames (_ ++ _)).Nodup
    rw [openNames_append, openNames_fixedSites]
    refine List.nodup_append.mpr ⟨by decide, named.distinct, fun name fixed other member equal => ?_⟩
    rcases named.owned other member with ⟨visit, among, owns⟩
    exact owns.not_wordy (proper.names_of_mem among) (equal ▸ wordy name fixed)

end

structure Separated (settings : Settings) (lookup : BranchLookup) (flow : Flow)
    (program : Program) : Prop where
  /-- The steps of the program are those that are emitted, each in its routine. -/
  emitted : program.sites.Perm ((emissions settings lookup flow).map Emission.site)
  /-- Every step that is emitted for a visit belongs to one of the visits of the flow. -/
  visited : ∀ emission ∈ emissions settings lookup flow, ∀ visit ∈ emission.visit,
    visit ∈ visits lookup flow
  /-- No two visits have the same number, also where a node is visited several times. -/
  numbered : ((visits lookup flow).map fun visit => visit.names.number).Nodup
  /-- In the whole program no step name occurs twice but those that end routines. -/
  stepNames : ((program.sites.map fun site => site.2.name).filter (· ∉ closingNames)).Nodup
  /-- The routines of the program are those that are generated, -/
  registered : program = ⟨.ofList (registrations settings lookup flow)⟩
  /-- and none is generated under the name of another one. -/
  routineNames : ((registrations settings lookup flow).map Prod.fst).Nodup
  /-- The variables of a run are never set. -/
  untouched : ∀ emission ∈ emissions settings lookup flow, ∀ name ∈ emission.step.sets,
    name ∉ [Registry.state, Registry.branchId, Registry.branchName]
  /-- A variable that two steps set is one of the shared ones, or both steps are emitted for the
  same visit. -/
  unshared : ∀ first ∈ emissions settings lookup flow,
    ∀ second ∈ emissions settings lookup flow, ∀ name ∈ first.step.sets,
      name ∈ second.step.sets → name ∉ [Registry.apiBase, Registry.loopItem, Registry.loopIndex] →
        ∃ visit, first.visit = some visit ∧ second.visit = some visit

end Compile

/-- Whatever the titles of the nodes are, the names that are generated for a program do not
interfere. -/
theorem compiled_names_separated {settings : Settings} {lookup : BranchLookup} {flow : Flow}
    {program : Program} (compiled : compile settings lookup flow = .ok program) :
    Compile.Separated settings lookup flow program := by
  rw [compile_eq_build] at compiled
  have entries := Compile.entries_eq_registrations compiled
  have numbered := Compile.numbered_visits compiled
  have emitted := Compile.sites_perm_emissions compiled
  have distinct : ((Compile.registrations settings lookup flow).map Prod.fst).Nodup :=
    entries ▸ program.routines.distinct
  constructor
  case emitted => exact emitted
  case visited =>
    intro emission member visit isVisit
    rcases Compile.ownedBy_visits compiled member with ⟨owner, among, equal, _⟩ | ⟨none, _⟩
    · rw [equal] at isVisit
      exact Option.some.inj isVisit ▸ among
    · rw [none] at isVisit
      cases isVisit
  case numbered => exact numbered.distinct
  case stepNames =>
    have names := (emitted.map fun site => site.2.name).filter (· ∉ closingNames)
    rw [List.map_map] at names
    exact names.nodup_iff.mpr (Compile.nodup_openNames compiled)
  case registered =>
    have same : program.routines = .ofList (Compile.registrations settings lookup flow) :=
      Table.eq_of_entries_eq (entries.trans (Table.entries_ofList distinct).symm)
    rw [← same]
  case routineNames => exact distinct
  case untouched =>
    intro emission member name isSet reserved
    have wordy : ∀ name ∈ [Registry.state, Registry.branchId, Registry.branchName],
        Text.Wordy name ∧
          name ∉ [Registry.apiBase, Registry.loopItem, Registry.loopIndex] := by decide
    rcases wordy name reserved with ⟨isWordy, unshared⟩
    rcases Compile.exists_owner_of_sets compiled member isSet unshared with
      ⟨visit, among, _, owns⟩
    exact owns.not_wordy (numbered.proper visit among) isWordy
  case unshared =>
    intro first firstMember second secondMember name firstSets secondSets unshared
    rcases Compile.exists_owner_of_sets compiled firstMember firstSets unshared with
      ⟨visit, among, equal, owns⟩
    rcases Compile.exists_owner_of_sets compiled secondMember secondSets unshared with
      ⟨other, otherAmong, otherEqual, otherOwns⟩
    -- Only one visit has the number that stands in the name.
    have numbers := owns.number_eq (numbered.proper visit among)
      (numbered.proper other otherAmong) otherOwns
    have same := List.inj_on_of_nodup_map numbered.distinct among otherAmong numbers
    exact ⟨visit, equal, same ▸ otherEqual⟩

theorem compiled_names_separated_sample :
    ∃ program, compile .standard Compile.sampleLookup Compile.sampleFlow = .ok program ∧
      Compile.Separated .standard Compile.sampleLookup Compile.sampleFlow program := by
  rcases Compile.exists_sampleProgram with ⟨program, compiled⟩
  exact ⟨program, compiled, compiled_names_separated compiled⟩

end FlowCompiler
