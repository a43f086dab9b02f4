import FlowCompiler.Proofs.LockStep
import FlowCompiler.Proofs.Reservations

namespace FlowCompiler

/-! Naming walks that are alike. Visits of the same nodes get their numbers in the same order, so
that their names correspond wherever names that are made with the same number do. -/

open Lowering

structure Visit.Alike (same : Node → Node → Prop) (pair : Names → Names → Prop)
    (visit other : Visit) : Prop where
  node : same visit.node other.node
  names : pair visit.names other.names

namespace NameSource

/-! Name sources are alike if they give away the same numbers and keep corresponding names for the
same nodes. -/

structure Alike (same : Node → Node → Prop) (pair : Names → Names → Prop)
    (source other : NameSource) : Prop where
  last : source.last = other.last
  reserved : ∀ {node partner : Node}, same node partner →
    Option.Rel pair (source.reserved.get? node.id) (other.reserved.get? partner.id)

structure Pairs (same : Node → Node → Prop) (pair : Names → Names → Prop) : Prop where
  made : ∀ {node other : Node} (number : Nat), same node other →
    pair (Names.ofNode number node) (Names.ofNode number other)
  ids : ∀ {node other second again : Node}, same node other → same second again →
    (second.id = node.id ↔ again.id = other.id)

variable {same : Node → Node → Prop} {pair : Names → Names → Prop} (pairs : Pairs same pair)
  {source other : NameSource} {node partner : Node}

theorem alike_start : start.Alike same pair start :=
  ⟨rfl, fun _ => .none⟩

include pairs

theorem Alike.fresh (alike : source.Alike same pair other) (related : same node partner) :
    pair (Names.ofNode (source.last + 1) node) (Names.ofNode (other.last + 1) partner) := by
  rw [alike.last]
  exact pairs.made _ related

theorem Alike.visit (alike : source.Alike same pair other) (related : same node partner) :
    (source.visit node).1.Alike same pair (other.visit partner).1 ∧
      (source.visit node).2.Alike same pair (other.visit partner).2 := by
  rcases none_or_some_of_rel (alike.reserved related) with
    ⟨unkept, alsoUnkept⟩ | ⟨names, others, kept, alsoKept, paired⟩
  · rw [visit_of_unkept unkept, visit_of_unkept alsoUnkept]
    exact ⟨⟨related, alike.fresh pairs related⟩, congrArg Nat.succ alike.last, alike.reserved⟩
  · rw [visit_of_kept kept, visit_of_kept alsoKept]
    refine ⟨⟨related, paired⟩, alike.last, fun again => ?_⟩
    simp only [Table.get?_erase, pairs.ids related again]
    split
    · exact .none
    · exact alike.reserved again

theorem Alike.reserve (alike : source.Alike same pair other) (related : same node partner) :
    pair (source.reserve node).1 (other.reserve partner).1 ∧
      (source.reserve node).2.Alike same pair (other.reserve partner).2 := by
  rcases none_or_some_of_rel (alike.reserved related) with
    ⟨unkept, alsoUnkept⟩ | ⟨names, others, kept, alsoKept, paired⟩
  · rw [reserve_of_unkept unkept, reserve_of_unkept alsoUnkept]
    have fresh := alike.fresh pairs related
    refine ⟨fresh, congrArg Nat.succ alike.last, fun again => ?_⟩
    simp only [Table.get?_insert, eq_comm (a := node.id), eq_comm (a := partner.id),
      pairs.ids related again]
    split
    · exact .some fresh
    · exact alike.reserved again
  · rw [reserve_of_kept kept, reserve_of_kept alsoKept]
    exact ⟨paired, alike⟩

end NameSource

namespace Compile

variable {same : Node → Node → Prop} {children others : List Node}
  (alike : List.Forall₂ same children others)

include alike

theorem reserveAll_alike {pair : Names → Names → Prop} (pairs : NameSource.Pairs same pair) :
    ∀ {source other : NameSource} (registry again : Registry), source.Alike same pair other →
      (reserveAll source registry children).1.Alike same pair
        (reserveAll other again others).1 := by
  induction alike with
  | nil => exact fun _ _ sources => sources
  | cons related _ induction =>
      intro source other registry again sources
      exact induction _ _ (sources.reserve pairs related).2

theorem reserveAll_registry_eq (pairs : NameSource.Pairs same Eq) :
    ∀ {source other : NameSource} (registry : Registry), source.Alike same Eq other →
      (reserveAll source registry children).2 = (reserveAll other registry others).2 := by
  induction alike with
  | nil => exact fun _ _ => rfl
  | cons related _ induction =>
      intro source other registry sources
      have first := sources.reserve pairs related
      rw [reserveAll, reserveAll]
      simp only [first.1]
      exact induction _ first.2

end Compile

namespace Walk

open NameSource

section

variable {same : Node → Node → Prop} {pair : Names → Names → Prop}

mutual
theorem Alike.name (pairs : Pairs same pair) {walk partner : Walk Node} :
    walk.Alike same partner →
    ∀ {source other : NameSource}, source.Alike same pair other →
      (walk.name source).1.Alike (Visit.Alike same pair) (partner.name other).1 ∧
        (walk.name source).2.Alike same pair (partner.name other).2
  | .done, _, _, sources => ⟨.done, sources⟩
  | .terminal related, _, _, sources =>
      have first := sources.visit pairs related
      ⟨.terminal first.1, first.2⟩
  | .action related rest, _, _, sources =>
      have first := sources.visit pairs related
      have behind := rest.name pairs first.2
      ⟨.action first.1 behind.1, behind.2⟩
  | .fork related exits, _, _, sources =>
      have first := sources.visit pairs related
      have behind := exits.nameExits pairs first.2
      ⟨.fork first.1 behind.1, behind.2⟩
  | .subflow related exits rest, _, _, sources =>
      have first := sources.visit pairs related
      have failing := exits.nameExits pairs first.2
      have behind := rest.name pairs failing.2
      ⟨.subflow first.1 failing.1 behind.1, behind.2⟩
  | .loop related entered rest, _, _, sources =>
      have first := sources.visit pairs related
      have inside := entered.name pairs first.2
      have behind := rest.name pairs inside.2
      ⟨.loop first.1 inside.1 behind.1, behind.2⟩

theorem AlikeExits.nameExits (pairs : Pairs same pair)
    {exits partners : List (Exit × Option (Walk Node))} :
    AlikeExits same exits partners →
      ∀ {source other : NameSource}, source.Alike same pair other →
        AlikeExits (Visit.Alike same pair) (Walk.nameExits source exits).1
            (Walk.nameExits other partners).1 ∧
          (Walk.nameExits source exits).2.Alike same pair (Walk.nameExits other partners).2
  | .nil, _, _, sources => ⟨.nil, sources⟩
  | .connected walk behind, _, _, sources =>
      have first := walk.name pairs sources
      have rest := behind.nameExits pairs first.2
      ⟨.connected first.1 rest.1, rest.2⟩
  | .unconnected behind, _, _, sources =>
      have rest := behind.nameExits pairs sources
      ⟨.unconnected rest.1, rest.2⟩
end

end

/-! ## Visits with the same names -/

section

variable {related : Visit → Visit → Prop}
  (equal : ∀ visit other, related visit other → visit.names = other.names) (settings : Settings)

include equal

/-- Steps depend on the names of the visits only. -/
theorem Alike.steps_eq {walk partner : Walk Visit} :
    walk.Alike related partner → ∀ scope, walk.steps settings scope = partner.steps settings scope
  | .done, _ => rfl
  | .terminal visits, _ => by
      rw [steps, steps, equal _ _ visits]
  | .action visits rest, _ => by
      rw [steps, steps, equal _ _ visits, rest.steps_eq]
  | .fork visits behind, _ => by
      rw [steps, steps, equal _ _ visits, behind.map_fst]
  | .subflow visits behind rest, _ => by
      rw [steps, steps, equal _ _ visits, behind.map_fst, rest.steps_eq]
  | .loop visits _ rest, _ => by
      rw [steps, steps, equal _ _ visits, rest.steps_eq]

mutual
/-- Routines depend on the names of the visits only. -/
theorem Alike.routines_eq {walk partner : Walk Visit} : walk.Alike related partner →
    ∀ scope, walk.routines settings scope = partner.routines settings scope
  | .done, _ => rfl
  | .terminal _, _ => rfl
  | .action visits rest, _ => by
      rw [routines, routines, equal _ _ visits, rest.routines_eq]
  | .fork visits behind, _ => by
      rw [routines, routines, equal _ _ visits, behind.exitRoutines_eq]
  | .subflow visits behind rest, _ => by
      rw [routines, routines, equal _ _ visits, behind.exitRoutines_eq, rest.routines_eq]
  | .loop visits entered rest, _ => by
      rw [routines, routines, equal _ _ visits, entered.routines_eq, rest.routines_eq,
        bodyRoutine, bodyRoutine, entered.steps_eq equal]

theorem AlikeExits.exitRoutines_eq {exits partners : List (Exit × Option (Walk Visit))} :
    AlikeExits related exits partners → ∀ names scope,
      exitRoutines settings names scope exits = exitRoutines settings names scope partners
  | .nil, _, _ => rfl
  | .connected first behind, _, _ => by
      rw [exitRoutines, exitRoutines, first.routines_eq, behind.exitRoutines_eq, exitRoutine,
        exitRoutine, first.steps_eq equal]
  | .unconnected behind, _, _ => by
      rw [exitRoutines, exitRoutines, behind.exitRoutines_eq]
end

end

end Walk

end FlowCompiler
