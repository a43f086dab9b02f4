import FlowCompiler.Proofs.Successors
import Mathlib.Data.List.Forall2

namespace FlowCompiler

/-! Unfolding in lock step. Where the nodes of two graphs correspond, and what is behind them
corresponds as well, both graphs are unfolded into walks that are alike, or both fail with
corresponding errors. -/

/-! ## Corresponding results -/

inductive Agree {ε δ α β : Type} (rename : ε → δ) (related : α → β → Prop) :
    Except ε α → Except δ β → Prop
  | ok {left : α} {right : β} (values : related left right) :
      Agree rename related (.ok left) (.ok right)
  | error (failure : ε) : Agree rename related (.error failure) (.error (rename failure))

namespace Agree

variable {ε δ α β σ τ : Type} {rename : ε → δ}

theorem mono {related coarser : α → β → Prop} {first : Except ε α} {second : Except δ β}
    (agree : Agree rename related first second)
    (coarsens : ∀ left right, related left right → coarser left right) :
    Agree rename coarser first second := by
  cases agree with
  | ok values => exact .ok (coarsens _ _ values)
  | error failure => exact .error failure

/-- What is done with related values agrees, if it agrees for all related values. -/
theorem bind {related : α → β → Prop} {after : σ → τ → Prop} {first : Except ε α}
    {second : Except δ β} {next : α → Except ε σ} {other : β → Except δ τ}
    (agree : Agree rename related first second)
    (behind : ∀ left right, related left right → Agree rename after (next left) (other right)) :
    Agree rename after (first >>= next) (second >>= other) := by
  cases agree with
  | ok values => exact behind _ _ values
  | error failure => exact .error failure

theorem foldlM {same : α → β → Prop} {related : σ → τ → Prop} {step : σ → α → Except ε σ}
    {other : τ → β → Except δ τ}
    (stepped : ∀ left right value partner, related left right → same value partner →
      Agree rename related (step left value) (other right partner))
    {values : List α} {partners : List β} (alike : List.Forall₂ same values partners) :
    ∀ {left : σ} {right : τ}, related left right →
      Agree rename related (values.foldlM step left) (partners.foldlM other right) := by
  induction alike with
  | nil => exact fun holds => .ok holds
  | cons first _ induction =>
      intro left right holds
      rw [List.foldlM_cons, List.foldlM_cons]
      exact (stepped left right _ _ holds first).bind fun _ _ later => induction later

theorem mapM {related : σ → τ → Prop} {read : α → Except ε σ} {other : α → Except δ τ}
    {values : List α}
    (agree : ∀ value ∈ values, Agree rename related (read value) (other value)) :
    Agree rename (List.Forall₂ related) (values.mapM read) (values.mapM other) := by
  induction values with
  | nil => exact .ok .nil
  | cons value rest induction =>
      rw [List.mapM_cons, List.mapM_cons]
      refine (agree value List.mem_cons_self).bind fun _ _ first => ?_
      refine (induction fun value member => agree value (List.mem_cons_of_mem _ member)).bind ?_
      intro _ _ behind
      exact .ok (.cons first behind)

end Agree

theorem isSome_eq_of_rel {α β : Type} {related : α → β → Prop} {first : Option α}
    {second : Option β} (found : Option.Rel related first second) :
    first.isSome = second.isSome := by
  cases found <;> rfl

theorem none_or_some_of_rel {α β : Type} {related : α → β → Prop} {first : Option α}
    {second : Option β} (found : Option.Rel related first second) :
    first = none ∧ second = none ∨
      ∃ value partner, first = some value ∧ second = some partner ∧ related value partner := by
  cases found with
  | some values => exact .inr ⟨_, _, rfl, rfl, values⟩
  | none => exact .inl ⟨rfl, rfl⟩

/-- Of two related results, if there are any, or else of related values. -/
theorem rel_or {α β : Type} {related : α → β → Prop} {first : Option α} {second : Option β}
    (found : Option.Rel related first second) {value : α} {partner : β}
    (last : related value partner) :
    Option.Rel related (first.or (some value)) (second.or (some partner)) := by
  cases found with
  | some values => exact .some values
  | none => exact .some last

theorem rel_find? {α β : Type} {related : α → β → Prop} {p : α → Bool} {q : β → Bool}
    {values : List α} {others : List β} (alike : List.Forall₂ related values others)
    (same : ∀ value other, related value other → q other = p value) :
    Option.Rel related (values.find? p) (others.find? q) := by
  induction alike with
  | nil => exact .none
  | @cons value other _ _ first _ induction =>
      rw [List.find?_cons, List.find?_cons, same value other first]
      cases p value with
      | true => exact .some first
      | false => exact induction

/-! ## Walks that are alike -/

namespace Walk

variable {α β : Type}

mutual
inductive Alike (same : α → β → Prop) : Walk α → Walk β → Prop
  | done : Alike same .done .done
  | terminal {visit : α} {other : β} (visits : same visit other) :
      Alike same (.terminal visit) (.terminal other)
  | action {visit : α} {other : β} {act : Action} {next : Walk α} {following : Walk β}
      (visits : same visit other) (rest : Alike same next following) :
      Alike same (.action visit act next) (.action other act following)
  | fork {visit : α} {other : β} {choice : Fork} {exits : List (Exit × Option (Walk α))}
      {others : List (Exit × Option (Walk β))} (visits : same visit other)
      (behind : AlikeExits same exits others) :
      Alike same (.fork visit choice exits) (.fork other choice others)
  | subflow {visit : α} {other : β} {called : Subflow} {exits : List (Exit × Option (Walk α))}
      {others : List (Exit × Option (Walk β))} {next : Walk α} {following : Walk β}
      (visits : same visit other) (behind : AlikeExits same exits others)
      (rest : Alike same next following) :
      Alike same (.subflow visit called exits next) (.subflow other called others following)
  | loop {visit : α} {other : β} {start : LoopStart} {body next : Walk α}
      {inside following : Walk β} (visits : same visit other) (entered : Alike same body inside)
      (rest : Alike same next following) :
      Alike same (.loop visit start body next) (.loop other start inside following)

inductive AlikeExits (same : α → β → Prop) :
    List (Exit × Option (Walk α)) → List (Exit × Option (Walk β)) → Prop
  | nil : AlikeExits same [] []
  | connected {exit : Exit} {walk : Walk α} {other : Walk β}
      {rest : List (Exit × Option (Walk α))} {others : List (Exit × Option (Walk β))}
      (first : Alike same walk other) (behind : AlikeExits same rest others) :
      AlikeExits same ((exit, some walk) :: rest) ((exit, some other) :: others)
  | unconnected {exit : Exit} {rest : List (Exit × Option (Walk α))}
      {others : List (Exit × Option (Walk β))} (behind : AlikeExits same rest others) :
      AlikeExits same ((exit, none) :: rest) ((exit, none) :: others)
end

theorem AlikeExits.map_fst {same : α → β → Prop} {exits : List (Exit × Option (Walk α))}
    {others : List (Exit × Option (Walk β))} :
    AlikeExits same exits others → exits.map Prod.fst = others.map Prod.fst
  | .nil => rfl
  | .connected _ behind => congrArg (List.cons _) behind.map_fst
  | .unconnected behind => congrArg (List.cons _) behind.map_fst

theorem alikeExits_of_forall₂ {same : α → β → Prop} {exits : List (Exit × Option (Walk α))}
    {others : List (Exit × Option (Walk β))}
    (alike : List.Forall₂ (fun exit other => exit.1 = other.1 ∧
      Option.Rel (Alike same) exit.2 other.2) exits others) : AlikeExits same exits others := by
  induction alike with
  | nil => exact .nil
  | @cons exit other _ _ first _ induction =>
      rcases exit with ⟨exit, walk⟩
      rcases other with ⟨other, partner⟩
      rcases first with ⟨rfl, walks⟩
      cases walks with
      | some walks => exact .connected walks induction
      | none => exact .unconnected induction

end Walk

def WalkError.rename (rename : String → String) : WalkError → WalkError
  | .cycleDetected nodeId => .cycleDetected (rename nodeId)
  | .nestedLoop loopId nestedId => .nestedLoop (rename loopId) (rename nestedId)
  | .unterminatedLoop loopId => .unterminatedLoop (rename loopId)

theorem WalkError.rename_id (error : WalkError) : error.rename (fun id => id) = error := by
  cases error <;> rfl

theorem WalkError.rename_rename (first second : String → String) (error : WalkError) :
    (error.rename first).rename second = error.rename (second ∘ first) := by
  cases error <;> rfl

namespace Graph

/-! ## Corresponding graphs -/

/-! Nodes of two graphs that are the same, but for their titles and their ids, which are renamed:
the nodes behind their outlets are the same as well. -/

structure Mirrors (left right : Graph) (rename : String → String) (same : Node → Node → Prop) :
    Prop where
  known : ∀ {node other : Node}, same node other → left.Knows node ∧ right.Knows other
  kind : ∀ {node other : Node}, same node other → other.kind = node.kind
  id : ∀ {node other : Node}, same node other → other.id = rename node.id
  injective : ∀ {first node second other : Node}, same first node → same second other →
    node.id = other.id → first.id = second.id
  next : ∀ {node other : Node}, same node other → ∀ outlet ∈ node.kind.outlets,
    Option.Rel same (left.next? node.id outlet) (right.next? other.id outlet)
  failure : ∀ {node other : Node}, same node other → .failure ∈ node.kind.outlets →
    right.subflowExits other.id = left.subflowExits node.id

structure Matching (same : Node → Node → Prop) (ids others : List String) : Prop where
  distinct : ids.Nodup
  othersDistinct : others.Nodup
  members : ∀ {node other : Node}, same node other → (node.id ∈ ids ↔ other.id ∈ others)

namespace Mirrors

variable {left right : Graph} {rename : String → String} {same : Node → Node → Prop}
  (mirrors : Mirrors left right rename same)

include mirrors

theorem id_eq_iff {first node second other : Node} (related : same first node)
    (others : same second other) : second.id = first.id ↔ other.id = node.id := by
  constructor
  · intro equal
    rw [mirrors.id others, mirrors.id related, equal]
  · exact mirrors.injective others related

theorem matching_ids : Matching same left.ids right.ids := by
  refine ⟨left.nodes.nodup_keys, right.nodes.nodup_keys, ?_⟩
  intro node other related
  have known := mirrors.known related
  exact iff_of_true (Table.contains_iff.mp (Option.isSome_of_eq_some known.1))
    (Table.contains_iff.mp (Option.isSome_of_eq_some known.2))

theorem matching_erase {ids others : List String} (matching : Matching same ids others)
    {node other : Node} (related : same node other) :
    Matching same (ids.erase node.id) (others.erase other.id) := by
  refine ⟨matching.distinct.erase _, matching.othersDistinct.erase _, ?_⟩
  intro second partner again
  rw [matching.distinct.mem_erase_iff, matching.othersDistinct.mem_erase_iff,
    matching.members again, Ne, mirrors.id_eq_iff related again]

theorem forall₂_followed {node other : Node} (related : same node other) :
    List.Forall₂ same (left.followed node) (right.followed other) := by
  have outlets : List.Forall₂
      (fun outlet partner => outlet = partner ∧ outlet ∈ node.kind.outlets)
      node.kind.outlets node.kind.outlets :=
    List.forall₂_same.mpr fun outlet member => ⟨rfl, member⟩
  rw [followed, followed, mirrors.kind related]
  refine List.rel_filterMap ?_ outlets
  rintro outlet _ ⟨rfl, member⟩
  exact mirrors.next related outlet member

end Mirrors

/-! ## Bodies of loops -/

structure BodySearch.Alike (same : Node → Node → Prop) (found other : BodySearch) : Prop where
  visited : ∀ {node partner : Node}, same node partner →
    (node.id ∈ found.visited ↔ partner.id ∈ other.visited)
  body : List.Forall₂ same found.body other.body
  finish : Option.Rel (fun marker partner => same marker partner ∧ marker.kind = .loopEnd)
    found.finish other.finish

structure LoopChain.Alike (same : Node → Node → Prop) (chain other : LoopChain) : Prop where
  body : List.Forall₂ same chain.body other.body
  finish : same chain.finish other.finish
  marker : chain.finish.kind = .loopEnd

section

variable {left right : Graph} {rename : String → String} {same : Node → Node → Prop}
  (mirrors : Mirrors left right rename same)

include mirrors

theorem BodySearch.Alike.visit {found partner : BodySearch} (alike : found.Alike same partner)
    {node other : Node} (related : same node other) {second again : Node}
    (others : same second again) :
    second.id ∈ node.id :: found.visited ↔ again.id ∈ other.id :: partner.visited := by
  rw [List.mem_cons, List.mem_cons, mirrors.id_eq_iff related others, alike.visited others]

theorem Mirrors.searchBody (loopId : String) {ids others : List String}
    {found partner : BodySearch} {node other : Node} (matching : Matching same ids others)
    (alike : found.Alike same partner) (related : same node other) :
    Agree (WalkError.rename rename) (BodySearch.Alike same)
      (left.searchBody loopId ids found node)
      (right.searchBody (rename loopId) others partner other) := by
  rw [Graph.searchBody, Graph.searchBody]
  by_cases fresh : node.id ∈ ids
  · rw [dif_pos fresh, dif_pos ((matching.members related).mp fresh)]
    by_cases seen : node.id ∈ found.visited
    · rw [if_pos seen, if_pos ((alike.visited related).mp seen)]
      exact .ok alike
    · rw [if_neg seen, if_neg fun again => seen ((alike.visited related).mpr again)]
      have further : Agree (WalkError.rename rename) (BodySearch.Alike same)
          ((left.followed node).foldlM
            (fun found next => left.searchBody loopId (ids.erase node.id) found next)
            ⟨node.id :: found.visited, found.body ++ [node], found.finish⟩)
          ((right.followed other).foldlM
            (fun found next => right.searchBody (rename loopId) (others.erase other.id) found next)
            ⟨other.id :: partner.visited, partner.body ++ [other], partner.finish⟩) := by
        refine Agree.foldlM ?_ (mirrors.forall₂_followed related)
          ⟨alike.visit mirrors related, ?_, alike.finish⟩
        · intro found partner next following alike behind
          exact Mirrors.searchBody loopId (mirrors.matching_erase matching related) alike behind
        · exact List.rel_append alike.body (.cons related .nil)
      rw [mirrors.kind related]
      cases kind : node.kind with
      | loopEnd =>
          have marker : same node other ∧ node.kind = .loopEnd := ⟨related, kind⟩
          exact .ok ⟨alike.visit mirrors related, alike.body, rel_or alike.finish marker⟩
      | loopStart =>
          rw [mirrors.id related]
          exact .error (WalkError.nestedLoop loopId node.id)
      | _ => exact further
  · rw [dif_neg fresh, dif_neg fun again => fresh ((matching.members related).mpr again),
      mirrors.id related]
    exact .error (WalkError.cycleDetected node.id)
termination_by ids.length
decreasing_by exact length_erase_lt fresh

theorem Mirrors.loopChain {start other : Node} (related : same start other)
    (enters : .nextStep ∈ start.kind.outlets) :
    Agree (WalkError.rename rename) (LoopChain.Alike same) (left.loopChain start)
      (right.loopChain other) := by
  have first := mirrors.next related .nextStep enters
  have nothing : BodySearch.Alike same ⟨[], [], none⟩ ⟨[], [], none⟩ :=
    ⟨fun _ => iff_of_false List.not_mem_nil List.not_mem_nil, .nil, .none⟩
  rw [Graph.loopChain, Graph.loopChain]
  generalize left.next? start.id .nextStep = next at first ⊢
  generalize right.next? other.id .nextStep = partner at first ⊢
  cases first with
  | none =>
      rw [mirrors.id related]
      exact .error (WalkError.unterminatedLoop start.id)
  | some next =>
      have matching := mirrors.matching_erase mirrors.matching_ids related
      have search := mirrors.searchBody start.id matching nothing next
      rw [← mirrors.id related] at search
      refine search.bind fun found partner alike => ?_
      have markers := alike.finish
      beta_reduce
      generalize found.finish = marker at markers ⊢
      generalize partner.finish = again at markers ⊢
      cases markers with
      | some markers => exact .ok ⟨alike.body, markers.1, markers.2⟩
      | none =>
          rw [mirrors.id related]
          exact .error (WalkError.unterminatedLoop start.id)

/-! ## Unfolding -/

structure LoopBounds.Alike (rename : String → String) (same : Node → Node → Prop)
    (loop other : LoopBounds) : Prop where
  start : other.start = rename loop.start
  finish : ∀ {node partner : Node}, same node partner →
    (loop.finish = node.id ↔ other.finish = partner.id)

omit mirrors in
theorem LoopBounds.Alike.any_iff {bounds others : Option LoopBounds}
    (alike : Option.Rel (LoopBounds.Alike rename same) bounds others) {node partner : Node}
    (related : same node partner) :
    (bounds.any fun loop => loop.finish = node.id) =
      others.any fun loop => loop.finish = partner.id := by
  cases alike with
  | some loop => simp [loop.finish related]
  | none => rfl

section

variable {unfold other : Node → Except WalkError (Walk Node)}
  (unfolded : ∀ node partner, same node partner →
    Agree (WalkError.rename rename) (Walk.Alike same) (unfold node) (other partner))

include unfolded

theorem Mirrors.behind {node partner : Node} (related : same node partner) {outlet : Outlet}
    (among : outlet ∈ node.kind.outlets) :
    Agree (WalkError.rename rename) (Walk.Alike same) (left.behind node.id outlet unfold)
      (right.behind partner.id outlet other) := by
  have first := mirrors.next related outlet among
  rw [Graph.behind, Graph.behind]
  generalize left.next? node.id outlet = next at first ⊢
  generalize right.next? partner.id outlet = following at first ⊢
  cases first with
  | some next => exact unfolded _ _ next
  | none => exact .ok .done

theorem Mirrors.behindExits {node partner : Node} (related : same node partner)
    {exits : List Exit} (among : ∀ exit ∈ exits, exit.outlet ∈ node.kind.outlets) :
    Agree (WalkError.rename rename) (Walk.AlikeExits same) (left.behindExits node.id exits unfold)
      (right.behindExits partner.id exits other) := by
  rw [Graph.behindExits, Graph.behindExits]
  refine (Agree.mapM ?_).mono fun _ _ alike => Walk.alikeExits_of_forall₂ alike
  intro exit member
  have first := mirrors.next related exit.outlet (among exit member)
  generalize left.next? node.id exit.outlet = next at first ⊢
  generalize right.next? partner.id exit.outlet = following at first ⊢
  cases first with
  | some next => exact (unfolded _ _ next).bind fun _ _ walks => .ok ⟨rfl, .some walks⟩
  | none => exact .ok ⟨rfl, .none⟩

/-- Behind a loop the walk goes on from its end marker. -/
theorem Mirrors.behindLoop {node partner marker again : Node} (related : same node partner)
    (markers : same marker again) (ends : marker.kind = .loopEnd) (start : LoopStart)
    {body inside : Walk Node} (entered : body.Alike same inside) :
    Agree (WalkError.rename rename) (Walk.Alike same)
      (do
        let next ← left.behind marker.id .nextStep unfold
        return .loop node start body next)
      (do
        let next ← right.behind again.id .nextStep other
        return .loop partner start inside next) := by
  have leaves : .nextStep ∈ marker.kind.outlets := by
    rw [ends]
    exact List.mem_singleton_self _
  refine (mirrors.behind unfolded markers leaves).bind fun _ _ rest => ?_
  exact .ok (.loop related entered rest)

end

theorem Mirrors.nestedLoop {loop partner : LoopBounds} (alike : loop.Alike rename same partner)
    {node other : Node} (related : same node other) :
    Agree (WalkError.rename rename) (Walk.Alike same)
      (.error (.nestedLoop loop.start node.id)) (.error (.nestedLoop partner.start other.id)) := by
  rw [alike.start, mirrors.id related]
  exact .error (WalkError.nestedLoop loop.start node.id)

theorem Mirrors.unfold {ids partners : List String} {bounds others : Option LoopBounds}
    {node other : Node} (matching : Matching same ids partners)
    (alike : Option.Rel (LoopBounds.Alike rename same) bounds others)
    (related : same node other) :
    Agree (WalkError.rename rename) (Walk.Alike same) (left.unfold bounds ids node)
      (right.unfold others partners other) := by
  rw [Graph.unfold, Graph.unfold, ← LoopBounds.Alike.any_iff alike related]
  by_cases ended : bounds.any fun loop => loop.finish = node.id
  · rw [if_pos ended, if_pos ended]
    exact .ok .done
  · rw [if_neg ended, if_neg ended]
    by_cases fresh : node.id ∈ ids
    · rw [dif_pos fresh, dif_pos ((matching.members related).mp fresh)]
      have unfolded : ∀ {bounds others : Option LoopBounds},
          Option.Rel (LoopBounds.Alike rename same) bounds others →
            ∀ node' partner, same node' partner →
              Agree (WalkError.rename rename) (Walk.Alike same)
                (left.unfold bounds (ids.erase node.id) node')
                (right.unfold others (partners.erase other.id) partner) :=
        fun alike _ _ next => Mirrors.unfold (mirrors.matching_erase matching related) alike next
      simp only [mirrors.kind related]
      cases role : node.kind.role with
      | terminal => exact .ok (.terminal related)
      | action act =>
          have next : .nextStep ∈ node.kind.outlets := by
            rw [Kind.outlets_of_action role]
            exact List.mem_singleton_self _
          refine (mirrors.behind (unfolded alike) related next).bind fun _ _ rest => ?_
          rw [← isSome_eq_of_rel alike]
          by_cases passed : act.isDelay && bounds.isSome
          · rw [if_pos passed, if_pos passed]
            exact .ok rest
          · rw [if_neg passed, if_neg passed]
            exact .ok (.action related rest)
      | fork choice =>
          have among : ∀ exit ∈ choice.exits, exit.outlet ∈ node.kind.outlets := by
            intro exit member
            rw [← Kind.map_outlet_exits role]
            exact List.mem_map_of_mem member
          refine (mirrors.behindExits (unfolded alike) related among).bind fun _ _ behind => ?_
          exact .ok (.fork related behind)
      | subflow called =>
          have outlets := Kind.outlets_of_subflow role
          have failure : .failure ∈ node.kind.outlets := by
            rw [outlets]
            exact List.mem_cons_self
          have next : .nextStep ∈ node.kind.outlets := by
            rw [outlets]
            exact List.mem_cons_of_mem _ (List.mem_singleton_self _)
          have among : ∀ exit ∈ left.subflowExits node.id, exit.outlet ∈ node.kind.outlets :=
            fun _ member => outlet_of_mem_subflowExits member ▸ failure
          rw [mirrors.failure related failure]
          refine (mirrors.behindExits (unfolded alike) related among).bind fun _ _ behind => ?_
          refine (mirrors.behind (unfolded alike) related next).bind fun _ _ rest => ?_
          exact .ok (.subflow related behind rest)
      | loop start =>
          cases alike with
          | some loops => exact mirrors.nestedLoop loops related
          | none =>
              have enters : .nextStep ∈ node.kind.outlets := by
                rw [Kind.role_eq_loop_iff.mp role]
                exact List.mem_singleton_self _
              refine (mirrors.loopChain related enters).bind fun chain partner chains => ?_
              have inner : LoopBounds.Alike rename same ⟨node.id, chain.finish.id⟩
                  ⟨other.id, partner.finish.id⟩ :=
                ⟨mirrors.id related, fun others => mirrors.id_eq_iff others chains.finish⟩
              have continued := fun body inside (entered : Walk.Alike same body inside) =>
                mirrors.behindLoop (unfolded .none) related chains.finish chains.marker start
                  entered
              have bodies := chains.body
              generalize chain.body = body at bodies ⊢
              generalize partner.body = inside at bodies ⊢
              cases bodies with
              | nil => exact continued _ _ .done
              | cons first _ => exact (unfolded (.some inner) _ _ first).bind continued
    · rw [dif_neg fresh, dif_neg fun again => fresh ((matching.members related).mpr again),
        mirrors.id related]
      exact .error (WalkError.cycleDetected node.id)
termination_by ids.length
decreasing_by exact length_erase_lt fresh

end

end Graph

end FlowCompiler
