import FlowCompiler.Proofs.Arguments
import FlowCompiler.Proofs.Reservations
import Mathlib.Data.List.Induction

namespace FlowCompiler

/-! Runs of changes of a registry. Whatever is bound, reserved and read anew, the variables of the
registry are those that the changes name, in the order in which they are named first, and the value
of a variable follows from the changes without a look at other variables. Unless a change names the
state, a call that passes on the registry fits every routine that is declared from it. -/

open Expression

namespace Registry

/-! ## Changes -/

inductive Change where
  | bind (name : String) (value : Json)
  | bindVariable (name : String)
  | reserve (name : String)
  | rebase

namespace Change

def name? : Change → Option String
  | .bind name _ | .bindVariable name | .reserve name => some name
  | .rebase => none

def apply (registry : Registry) : Change → Registry
  | .bind name value => registry.bind name value
  | .bindVariable name => registry.bindVariable name
  | .reserve name => registry.reserve name
  | .rebase => registry.rebased

def value? (query : String) (known : Option Json) : Change → Option Json
  | .bind name value => if name = query then some value else known
  | .bindVariable name => if name = query then some (ofVariable name) else known
  | .reserve name => known.or (if name = query then some .null else none)
  | .rebase => known.map fun _ => ofVariable query

/-- What a change makes of a registry: the variables keep their places, the one that the change
names is added behind them if it is unknown, and every value depends on what it was before. -/
structure Extends (change : Change) (before after : Registry) : Prop where
  names : after.names = before.names ++ before.unknown change.name?.toList
  values : ∀ query, after.get? query = change.value? query (before.get? query)

theorem extends_apply (change : Change) (registry : Registry) :
    change.Extends registry (change.apply registry) := by
  cases change with
  | bind name value =>
      exact ⟨registry.names_bind name value, fun query => registry.get?_bind name query value⟩
  | bindVariable name =>
      exact ⟨registry.names_bindVariable name, fun query => registry.get?_bind name query _⟩
  | reserve name => exact ⟨registry.names_reserve name, registry.get?_reserve name⟩
  | rebase =>
      refine ⟨?_, registry.get?_rebased⟩
      rw [apply, names_rebased, name?, Option.toList_none, unknown, List.filter_nil,
        List.append_nil]

end Change

theorem Clear.apply {registry : Registry} (clear : registry.Clear) {change : Change}
    (other : change.name? ≠ some state) : (change.apply registry).Clear := by
  intro member
  rw [(change.extends_apply registry).names] at member
  rcases List.mem_append.mp member with member | member
  · exact clear member
  · exact other (Option.mem_toList.mp (List.mem_filter.mp member).1)

/-! ## Runs -/

def run (changes : List Change) : Registry :=
  changes.foldl Change.apply .empty

theorem run_concat (earlier : List Change) (change : Change) :
    run (earlier ++ [change]) = change.apply (run earlier) :=
  List.foldl_concat _ _ _ _

theorem extends_run (earlier : List Change) (change : Change) :
    change.Extends (run earlier) (run (earlier ++ [change])) := by
  rw [run_concat]
  exact change.extends_apply (run earlier)

theorem clear_run {changes : List Change}
    (others : ∀ change ∈ changes, change.name? ≠ some state) : (run changes).Clear := by
  induction changes using List.reverseRecOn with
  | nil => exact clear_empty
  | append_singleton earlier change induction =>
      have before : (run earlier).Clear :=
        induction fun other member => others other (List.mem_append_left _ member)
      rw [run_concat]
      exact before.apply (others change (List.mem_append_right _ List.mem_cons_self))

/-- A variable keeps its place for the rest of the run. -/
theorem names_isPrefix_run {earlier later : List Change} (before : earlier <+: later) :
    (run earlier).names <+: (run later).names := by
  obtain ⟨between, rfl⟩ := before
  induction between using List.reverseRecOn with
  | nil => simp
  | append_singleton between change induction =>
      refine induction.trans ?_
      rw [← List.append_assoc, (extends_run (earlier ++ between) change).names]
      exact List.prefix_append _ _

/-- The variables stand in the order in which they are named first. -/
theorem names_run (changes : List Change) :
    (run changes).names = (changes.filterMap Change.name?).eraseDups := by
  induction changes using List.reverseRecOn with
  | nil => rfl
  | append_singleton earlier change induction =>
      rw [(extends_run earlier change).names, List.filterMap_append]
      cases named : change.name? with
      | none =>
          rw [List.filterMap_cons_none named, List.filterMap_nil, List.append_nil, ← induction]
          exact List.append_nil _
      | some name =>
          rw [List.filterMap_cons_some named, List.filterMap_nil, Option.toList_some]
          have known : name ∈ (run earlier).names ↔ name ∈ earlier.filterMap Change.name? := by
            rw [induction, List.mem_eraseDups]
          by_cases member : name ∈ (run earlier).names
          · rw [unknown_of_known member, eraseDups_concat_of_mem (known.mp member), ← induction]
            exact List.append_nil _
          · rw [unknown_of_absent member, eraseDups_concat_of_not_mem (mt known.mpr member),
              ← induction]

theorem get?_run (changes : List Change) (query : String) :
    (run changes).get? query = changes.foldl (Change.value? query) none := by
  induction changes using List.reverseRecOn with
  | nil => rfl
  | append_singleton earlier change induction =>
      rw [(extends_run earlier change).values, induction, List.foldl_concat]

/-! ## The law of registries -/

structure Lawful (registry : Registry) : Prop where
  distinct : registry.names.Nodup
  /-- A reservation keeps the values that are known. -/
  reserved : ∀ name query value, registry.get? query = some value →
    (registry.reserve name).get? query = some value
  /-- Inside a routine, the same variables in the same order are read by their own names. -/
  rebased : registry.rebased.bindings.entries =
    registry.names.map fun name => (name, ofVariable name)
  settled : registry.rebased.rebased = registry.rebased
  /-- A call passes on the state and the values of all variables. -/
  arguments : registry.callArgs.entries =
    (state, ofVariable state) :: registry.bindings.entries
  keys : registry.callArgs.keys = registry.params
  params : registry.params.Nodup
  fits : ∀ (call : Call) (routine : Routine), call.args = registry.callArgs →
    routine.params = registry.params ∨ routine.params = registry.rebased.params →
      call.Fits routine

theorem Clear.lawful {registry : Registry} (clear : registry.Clear) : registry.Lawful where
  distinct := registry.bindings.nodup_keys
  reserved := by
    intro name query value known
    rw [get?_reserve, known, Option.some_or]
  rebased := registry.entries_rebased
  settled := registry.rebased_rebased
  arguments := entries_callArgs clear
  keys := keys_callArgs clear
  params := nodup_params clear
  fits := by
    intro call routine arguments declared
    rw [params_rebased, or_self] at declared
    exact clear.fits arguments declared

end Registry

open Registry

/-- However a registry comes about, unless the state is bound as a variable: at every point of the
run its variables are pairwise different and in the order in which they were named first, reserving
changes no value, entering a routine makes every variable read itself, and what a call passes on are
exactly the parameters of a routine that is declared there. Later changes add variables at the end
or change values in place. -/
theorem registry_runs_lawful (changes : List Change)
    (others : ∀ change ∈ changes, change.name? ≠ some Registry.state) :
    (∀ earlier, earlier <+: changes → (run earlier).Lawful) ∧
    (∀ earlier later, earlier <+: later → later <+: changes →
      (run earlier).names <+: (run later).names) ∧
    (∀ earlier change, earlier ++ [change] <+: changes →
      change.Extends (run earlier) (run (earlier ++ [change]))) ∧
    (run changes).names = (changes.filterMap Change.name?).eraseDups ∧
    ∀ query, (run changes).get? query = changes.foldl (Change.value? query) none := by
  refine ⟨fun earlier before => ?_, fun _ _ before _ => names_isPrefix_run before,
    fun earlier change _ => extends_run earlier change, names_run changes, get?_run changes⟩
  exact (clear_run fun change member => others change (before.subset member)).lawful

/-- A branch is bound and an answer reserved. In a routine, the answer is then bound, reserved again
without effect, and followed by the reservation of another one. -/
def Registry.sampleChanges : List Change :=
  [.bind branchId (.string "north"), .bindVariable apiBase, .reserve "ask_1", .rebase,
    .bindVariable "ask_1", .reserve "ask_1", .reserve "ask_2"]

theorem registry_runs_lawful_sample :
    (∀ change ∈ sampleChanges, change.name? ≠ some Registry.state) ∧
      (run sampleChanges).Lawful ∧
      (run sampleChanges).names = ["branch_id", "api_base", "ask_1", "ask_2"] ∧
      (run sampleChanges).get? "branch_id" = some (ofVariable "branch_id") ∧
      (run sampleChanges).get? "ask_2" = some .null := by
  have others : ∀ change ∈ sampleChanges, change.name? ≠ some Registry.state := by decide
  obtain ⟨lawful, _, _, names, values⟩ := registry_runs_lawful sampleChanges others
  refine ⟨others, lawful _ List.prefix_rfl, names.trans (by decide), ?_, ?_⟩
  · rw [values]
    rfl
  · rw [values]
    rfl

/-- If the state were bound as a variable, a call would have one argument for two parameters. -/
example : (run [.bindVariable Registry.state]).params = ["tg", "tg"] ∧
    (run [.bindVariable Registry.state]).callArgs.keys = ["tg"] := by
  decide

end FlowCompiler
