import FlowCompiler.Lowering.Registry
import FlowCompiler.Proofs.TableEntries

namespace FlowCompiler.Registry

/-! The operations of registries. Each of them keeps the variables in their places and adds at most
one behind them. A registry in which the state is no variable passes on exactly what a routine that
is entered from it takes. -/

open Expression

variable {registry : Registry} {name : String}

/-! ## Reservations -/

theorem contains_iff : registry.contains name ↔ name ∈ registry.names :=
  Table.contains_iff

theorem reserve_of_known (registry : Registry) (known : name ∈ registry.names) :
    registry.reserve name = registry :=
  if_pos (contains_iff.mpr known)

theorem reserve_of_unknown (registry : Registry) (unknown : name ∉ registry.names) :
    registry.reserve name = registry.bind name .null :=
  if_neg fun known => unknown (contains_iff.mp known)

/-- A reservation is nothing or the binding of an empty value. -/
theorem reserve_preserves (Holds : Registry → Prop) (holds : Holds registry)
    (bound : Holds (registry.bind name .null)) : Holds (registry.reserve name) := by
  rw [reserve]
  split
  · exact holds
  · exact bound

/-! ## Variables -/

def unknown (registry : Registry) (names : List String) : List String :=
  names.filter (· ∉ registry.names)

theorem unknown_of_known (known : name ∈ registry.names) : registry.unknown [name] = [] := by
  simp [unknown, known]

theorem unknown_of_absent (absent : name ∉ registry.names) : registry.unknown [name] = [name] := by
  simp [unknown, absent]

theorem names_bind (registry : Registry) (name : String) (value : Json) :
    (registry.bind name value).names = registry.names ++ registry.unknown [name] := by
  apply (registry.bindings.keys_insert _ _).trans
  by_cases known : name ∈ registry.names
  · rw [unknown_of_known known, List.append_nil]
    exact if_pos known
  · rw [unknown_of_absent known]
    exact if_neg known

theorem names_bindVariable (registry : Registry) (name : String) :
    (registry.bindVariable name).names = registry.names ++ registry.unknown [name] :=
  registry.names_bind name _

theorem names_reserve (registry : Registry) (name : String) :
    (registry.reserve name).names = registry.names ++ registry.unknown [name] := by
  by_cases known : name ∈ registry.names
  · rw [registry.reserve_of_known known, unknown_of_known known, List.append_nil]
  · rw [registry.reserve_of_unknown known, names_bind]

@[simp] theorem names_rebased (registry : Registry) : registry.rebased.names = registry.names :=
  Table.keys_map _ _

theorem params_rebased (registry : Registry) : registry.rebased.params = registry.params := by
  rw [params, params, names_rebased]

theorem names_subset_bind (registry : Registry) (name : String) (value : Json) :
    registry.names ⊆ (registry.bind name value).names := by
  rw [names_bind]
  exact List.subset_append_left _ _

/-! ## Values -/

theorem get?_bind (registry : Registry) (name query : String) (value : Json) :
    (registry.bind name value).get? query =
      if name = query then some value else registry.get? query :=
  registry.bindings.get?_insert name query value

theorem get?_eq_none_of_absent (absent : name ∉ registry.names) : registry.get? name = none := by
  rw [← Option.not_isSome_iff_eq_none]
  exact fun known => absent (contains_iff.mp known)

/-- A reservation gives a value to a variable that has none, and changes no value. -/
theorem get?_reserve (registry : Registry) (name query : String) :
    (registry.reserve name).get? query =
      (registry.get? query).or (if name = query then some .null else none) := by
  by_cases same : name = query
  · subst same
    rw [if_pos rfl]
    by_cases known : name ∈ registry.names
    · obtain ⟨value, found⟩ := Option.isSome_iff_exists.mp (contains_iff.mpr known)
      rw [registry.reserve_of_known known, get?, found, Option.some_or]
    · rw [registry.reserve_of_unknown known, get?_bind, if_pos rfl,
        get?_eq_none_of_absent known, Option.none_or]
  · rw [if_neg same, Option.or_none]
    apply reserve_preserves (fun after => after.get? query = registry.get? query) rfl
    rw [get?_bind, if_neg same]

theorem get?_rebased (registry : Registry) (query : String) :
    registry.rebased.get? query = (registry.get? query).map fun _ => ofVariable query :=
  Table.get?_map (fun name _ => ofVariable name) registry.bindings query

theorem entries_rebased (registry : Registry) : registry.rebased.bindings.entries =
    registry.names.map fun name => (name, ofVariable name) := by
  rw [names, Table.keys, Entries.keys, List.map_map]
  rfl

theorem rebased_rebased (registry : Registry) : registry.rebased.rebased = registry.rebased := by
  have same : registry.rebased.rebased.bindings = registry.rebased.bindings := by
    apply Table.eq_of_entries_eq
    rw [entries_rebased, entries_rebased, names_rebased]
  exact congrArg Registry.mk same

/-! ## Registries without the state -/

/-- The state is no variable of the registry; it is passed on besides them. -/
def Clear (registry : Registry) : Prop :=
  state ∉ registry.names

theorem clear_empty : empty.Clear := by
  simp [Clear, names, empty]

theorem nodup_params (clear : registry.Clear) : registry.params.Nodup :=
  List.nodup_cons.mpr ⟨clear, registry.bindings.nodup_keys⟩

/-- What is passed on: the state, and behind it every variable with its value. -/
theorem entries_callArgs (clear : registry.Clear) : registry.callArgs.entries =
    (state, ofVariable state) :: registry.bindings.entries :=
  Table.entries_insertAll registry.bindings.entries (nodup_params clear)

theorem keys_callArgs (clear : registry.Clear) : registry.callArgs.keys = registry.params := by
  rw [Table.keys, entries_callArgs clear]
  rfl

namespace Clear

theorem bind (clear : registry.Clear) (other : name ≠ state) (value : Json) :
    (registry.bind name value).Clear := by
  intro member
  rcases Table.mem_keys_insert.mp member with equal | member
  · exact other equal.symm
  · exact clear member

theorem rebased (clear : registry.Clear) : registry.rebased.Clear := by
  rw [Clear, names_rebased]
  exact clear

end Clear

end FlowCompiler.Registry
