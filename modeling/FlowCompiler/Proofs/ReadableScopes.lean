import FlowCompiler.Proofs.Arguments
import FlowCompiler.Proofs.Reads
import FlowCompiler.Proofs.Sites

namespace FlowCompiler

/-! Registries that can be read where they are used. The values of a readable registry only read
variables that are defined, apart from placeholders, and writing a variable keeps it readable. -/

open Expression Lowering Step

variable {placeholder : String → Json → Prop} {defined : List String}

/-! ## Readable registries -/

structure Registry.Readable (placeholder : String → Json → Prop) (defined : List String)
    (registry : Registry) : Prop where
  state : Registry.state ∈ defined
  values : ∀ entry ∈ registry.bindings.entries, Forwarded placeholder defined entry.1 entry.2

/-! Names that stand for no placeholder, because programs write them. -/

structure Reserving (placeholder : String → Json → Prop) : Prop where
  step : ∀ (names : Names) (suffix : String) (value : Json), names.Proper →
    Text.Wordy suffix → ¬ placeholder (names.step suffix) value
  loopItem : ∀ value, ¬ placeholder Registry.loopItem value
  loopIndex : ∀ value, ¬ placeholder Registry.loopIndex value

theorem Forwarded.mono {name : String} {value : Json} {more : List String}
    (forwarded : Forwarded placeholder defined name value) (subset : defined ⊆ more)
    (fresh : name ∈ more → name ∈ defined ∨ ¬ placeholder name value) :
    Forwarded placeholder more name value := by
  cases forwarded with
  | reference known => exact .reference (subset known)
  | previous known => exact .previous (subset known)
  | placeholder given unset =>
      refine .placeholder given fun member => ?_
      rcases fresh member with known | other
      · exact unset known
      · exact other given

namespace Registry

theorem Readable.callArgs {registry : Registry}
    (readable : registry.Readable placeholder defined) :
    ∀ entry ∈ registry.callArgs.entries, Forwarded placeholder defined entry.1 entry.2 := by
  intro entry member
  rcases Table.mem_or_mem_of_mem_insertAll registry.bindings.entries member with member | member
  · rw [List.mem_singleton.mp member]
    exact .reference readable.state
  · exact readable.values entry member

/-- Writing variables that stand for no placeholder keeps a registry readable. -/
theorem Readable.mono {registry : Registry} (readable : registry.Readable placeholder defined)
    {more : List String} (subset : defined ⊆ more)
    (fresh : ∀ name ∈ more, name ∈ defined ∨ ∀ value, ¬ placeholder name value) :
    registry.Readable placeholder more := by
  refine ⟨subset readable.state, fun entry member => ?_⟩
  refine (readable.values entry member).mono subset fun present => ?_
  exact (fresh entry.1 present).imp_right fun other => other entry.2

theorem mem_bindVariable {registry : Registry} {name : String} {entry : String × Json}
    (member : entry ∈ (registry.bindVariable name).bindings.entries) :
    entry = (name, ofVariable name) ∨ entry.1 ≠ name ∧ entry ∈ registry.bindings.entries := by
  have found : (registry.bindVariable name).bindings.get? entry.1 = some entry.2 :=
    Table.get?_eq_some_iff.mpr member
  rw [bindVariable, bind, Table.get?_insert] at found
  by_cases same : name = entry.1
  · rw [if_pos same] at found
    exact .inl (Prod.ext same.symm (Option.some.inj found).symm)
  · rw [if_neg same] at found
    exact .inr ⟨fun equal => same equal.symm, Table.get?_eq_some_iff.mp found⟩

/-- A variable may be bound once it is written. -/
theorem Readable.bindVariable {registry : Registry}
    (readable : registry.Readable placeholder defined) {more : List String} {result : String}
    (subset : defined ⊆ more) (written : result ∈ more)
    (fresh : ∀ name ∈ more, name ∈ defined ∨ name = result ∨ ∀ value, ¬ placeholder name value) :
    (registry.bindVariable result).Readable placeholder more := by
  refine ⟨subset readable.state, fun entry member => ?_⟩
  rcases mem_bindVariable member with equal | ⟨other, member⟩
  · rw [equal]
    exact .reference written
  · refine (readable.values entry member).mono subset fun present => ?_
    rcases fresh entry.1 present with known | equal | free
    · exact .inl known
    · exact absurd equal other
    · exact .inr (free entry.2)

def Plain (registry : Registry) : Prop :=
  ∀ entry ∈ registry.bindings.entries, entry.2 = ofVariable entry.1

theorem plain_rebased (registry : Registry) : registry.rebased.Plain := by
  intro entry member
  rcases List.mem_map.mp member with ⟨other, _, equal⟩
  rw [← equal]

theorem Plain.bindVariable {registry : Registry} (plain : registry.Plain) (name : String) :
    (registry.bindVariable name).Plain := by
  intro entry member
  rcases mem_bindVariable member with equal | ⟨_, member⟩
  · rw [equal]
  · exact plain entry member

theorem Plain.readable {registry : Registry} (plain : registry.Plain) :
    registry.Readable placeholder registry.params := by
  refine ⟨List.mem_cons_self, fun entry member => ?_⟩
  have known : entry.1 ∈ registry.params :=
    List.mem_cons_of_mem _ (List.mem_map_of_mem member)
  have value : entry = (entry.1, ofVariable entry.1) := Prod.ext rfl (plain entry member)
  rw [value]
  exact .reference known

end Registry

/-! ## Plain steps -/

namespace Step

structure Basic (step : Step) : Prop where
  primitive : ∀ call ∈ step.call?, Primitive.isPrimitive call.target
  reads : ∀ value ∈ step.expressions, ∀ name ∈ variablesOf value,
    name = Registry.apiBase ∨ name = Registry.state

theorem basic_of_silent {step : Step} (silent : step.expressions = [])
    (primitive : ∀ call ∈ step.call?, Primitive.isPrimitive call.target) : step.Basic := by
  refine ⟨primitive, fun value member => ?_⟩
  rw [silent] at member
  cases member

theorem basic_assign (name : String) (bindings : List (String × Json)) :
    (assign name bindings).Basic := by
  refine basic_of_silent rfl ?_
  rintro call ⟨⟩

theorem expressions_post (settings : Settings) (name path : String) (body : Json)
    (result : Option String) :
    (post settings name path body result).expressions = [endpoint path] := rfl

theorem basic_post (settings : Settings) (name path : String) (body : Json)
    (result : Option String) : (post settings name path body result).Basic := by
  refine ⟨?_, fun value member read => ?_⟩
  · rintro call ⟨⟩
    exact Primitive.isPrimitive_httpPost
  · rw [expressions_post, List.mem_singleton] at member
    rw [member, variablesOf_endpoint, List.mem_singleton]
    exact .inl

theorem Basic.sound {step : Step} (basic : step.Basic) (base : Registry.apiBase ∈ defined)
    (state : Registry.state ∈ defined) : (⟨defined, step⟩ : Site).Sound placeholder := by
  refine ⟨fun value member name read => ?_, fun call called generated => ?_⟩
  · rcases basic.reads value member name read with equal | equal
    · exact equal ▸ base
    · exact equal ▸ state
  · rw [basic.primitive call called] at generated
    cases generated

theorem innerSites_of_isPlain {step : Step} (plain : step.isPlain) :
    innerSites defined step = [] := by
  cases step <;> first | rfl | cases plain

theorem soundAt_of_basic {steps : List Step} (plain : steps.all isPlain)
    (basic : ∀ step ∈ steps, step.Basic) (base : Registry.apiBase ∈ defined)
    (state : Registry.state ∈ defined) : SoundAt placeholder defined steps := by
  induction steps generalizing defined with
  | nil => exact soundAt_nil
  | cons step rest induction =>
      rw [List.all_cons, Bool.and_eq_true] at plain
      refine soundAt_cons ((basic step List.mem_cons_self).sound base state) ?_ ?_
      · rw [innerSites_of_isPlain plain.1]
        simp
      · exact induction plain.2 (fun other member => basic other (List.mem_cons_of_mem _ member))
          (List.mem_append_right _ base) (List.mem_append_right _ state)

end Step

end FlowCompiler
