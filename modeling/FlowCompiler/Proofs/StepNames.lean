import FlowCompiler.Lowering.Emission
import FlowCompiler.Proofs.NameParts
import Mathlib.Data.List.Nodup

namespace FlowCompiler

/-! The names of the steps that are emitted for one visit. They are made from a list of
suffixes, which depends on what the node does, and which has no numerals and no repetitions. -/

open Text

/-! ## Flattened steps -/

namespace Step

@[simp] theorem flattenSteps_append (left right : List Step) :
    flattenSteps (left ++ right) = flattenSteps left ++ flattenSteps right := by
  induction left with
  | nil => simp [flattenSteps]
  | cons step rest induction => simp [flattenSteps, induction]

theorem flattenCases_append (left right : List Case) :
    flattenCases (left ++ right) = flattenCases left ++ flattenCases right := by
  induction left with
  | nil => simp [flattenCases]
  | cons first rest induction =>
      rcases first with ⟨condition, steps, next⟩
      simp [flattenCases, induction]

theorem exists_case_of_mem_flattenCases {step : Step} : ∀ {cases : List Case},
    step ∈ flattenCases cases → ∃ branch ∈ cases, step ∈ flattenSteps branch.steps
  | .mk _ _ _ :: rest, member => by
      rcases List.mem_append.mp member with member | member
      · exact ⟨_, List.mem_cons_self, member⟩
      · rcases exists_case_of_mem_flattenCases member with ⟨branch, among, inside⟩
        exact ⟨branch, List.mem_cons_of_mem _ among, inside⟩

def namesWithin (steps : List Step) : List String :=
  (flattenSteps steps).map name

@[simp] theorem namesWithin_append (left right : List Step) :
    namesWithin (left ++ right) = namesWithin left ++ namesWithin right := by
  simp [namesWithin]

end Step

open Step

/-! ## Cases of forks -/

namespace Fork

theorem cases_cons (names : Names) (registry : Registry) (fork : Fork) (exit : Exit)
    (rest : List Exit) :
    fork.cases names registry (exit :: rest) =
      ((if fork.asksAgain ∧ exit.test = .otherwise then [retryCase names] else []) ++
        [exitCase names registry exit]) ++ fork.cases names registry rest :=
  rfl

/-- Every case belongs to an exit, but for the one in which a prompt is sent again. -/
theorem retries_or_exists_exit {names : Names} {registry : Registry} {fork : Fork}
    {exits : List Exit} {branch : Case} (member : branch ∈ fork.cases names registry exits) :
    (fork.asksAgain ∧ branch = retryCase names) ∨
      ∃ exit ∈ exits, branch = exitCase names registry exit := by
  rcases List.mem_flatMap.mp member with ⟨exit, among, member⟩
  rcases List.mem_append.mp member with member | member
  · by_cases again : fork.asksAgain ∧ exit.test = .otherwise
    · rw [if_pos again] at member
      exact .inl ⟨again.1, List.mem_singleton.mp member⟩
    · rw [if_neg again] at member
      cases member
  · exact .inr ⟨exit, among, List.mem_singleton.mp member⟩

end Fork

/-! ## Suffixes -/

def Action.suffixes : Action → List String
  | .message _ => ["send", "assign"]
  | .delay _ => ["sleep"]
  | .saveFields _ => ["save", "assign"]
  | .saveVariable _ => ["save", "assign"]
  | .apiCall _ => ["request", "assign"]
  | .webhook _ => ["await", "assign"]
  | .alert _ => ["send", "assign"]
  | .utility _ => ["run", "assign"]

theorem Action.namesWithin_steps (settings : Settings) (names : Names) (registry : Registry)
    (action : Action) :
    namesWithin (action.steps settings names registry ++ action.binding names) =
      action.suffixes.map names.step := by
  cases action <;> rfl

namespace Fork

def openingSuffixes (fork : Fork) : List String :=
  match fork with
  | .split _ | .branch _ => ["evaluate", "assign"]
  | prompt => (if prompt.asksAgain then ["init"] else []) ++ ["send", "await"]

def caseSuffixes (fork : Fork) (exits : List Exit) : List String :=
  exits.flatMap fun exit =>
    (if fork.asksAgain ∧ exit.test = .otherwise then ["retry"] else []) ++ [exit.dispatch]

def suffixes (fork : Fork) (exits : List Exit) : List String :=
  fork.openingSuffixes ++ "route" :: fork.caseSuffixes exits

theorem namesWithin_promptSteps (settings : Settings) (names : Names) (registry : Registry)
    (fork : Fork) :
    namesWithin (fork.promptSteps settings names registry) =
      ((if fork.asksAgain then ["init"] else []) ++ ["send", "await"]).map names.step := by
  rw [promptSteps]
  cases fork.asksAgain <;> rfl

theorem namesWithin_openingSteps (settings : Settings) (names : Names) (registry : Registry)
    (fork : Fork) :
    namesWithin (fork.openingSteps settings names registry) =
      fork.openingSuffixes.map names.step := by
  cases fork with
  | split | branch => rfl
  | text | buttons | list => exact namesWithin_promptSteps settings names registry _

theorem names_flattenCases (names : Names) (registry : Registry) (fork : Fork)
    (exits : List Exit) :
    (flattenCases (fork.cases names registry exits)).map name =
      (fork.caseSuffixes exits).map names.step := by
  induction exits with
  | nil => rfl
  | cons exit rest induction =>
      have suffixes : fork.caseSuffixes (exit :: rest) =
          ((if fork.asksAgain ∧ exit.test = .otherwise then ["retry"] else []) ++
            [exit.dispatch]) ++ fork.caseSuffixes rest := rfl
      rw [cases_cons, suffixes, flattenCases_append, List.map_append, List.map_append, induction]
      congr 1
      by_cases again : fork.asksAgain ∧ exit.test = .otherwise
      · rw [if_pos again, if_pos again]
        rfl
      · rw [if_neg again, if_neg again]
        rfl

theorem namesWithin_steps (settings : Settings) (names : Names) (registry : Registry)
    (fork : Fork) (exits : List Exit) :
    namesWithin (fork.steps settings names registry exits) =
      (fork.suffixes exits).map names.step := by
  rw [steps, namesWithin_append, namesWithin_openingSteps, suffixes, List.map_append]
  congr 1
  simp only [namesWithin, flattenSteps, flatten, List.append_nil, List.map_cons, Step.name]
  rw [names_flattenCases]

end Fork

namespace Subflow

def abortSuffixes (exits : List Exit) (abort : Abort) : List String :=
  match exits with
  | [] => [abort.label ++ "_raise"]
  | exit :: _ =>
      [abort.label ++ "_" ++ exit.dispatch, abort.label ++ "_clear_session",
        abort.label ++ "_return"]

def suffixes (exits : List Exit) : List String :=
  ["read_caller", "start", "poll_init", "poll", "check"] ++
    (abortSuffixes exits .failed ++ abortSuffixes exits .timedOut ++ ["poll_count", "wait"]) ++
    ["collect", "release", "clear_session"]

theorem namesWithin_steps (settings : Settings) (names : Names) (registry : Registry)
    (subflow : Subflow) (exits : List Exit) :
    namesWithin (subflow.steps settings names registry exits) =
      (suffixes exits).map names.step := by
  cases exits <;> rfl

end Subflow

namespace LoopStart

def suffixes (loop : LoopStart) : List String :=
  match loop.loopValue with
  | .list _ => ["setup", "iterate", "guard", "iteration"]
  | .count _ => ["setup", "iterate", "iteration"]

theorem namesWithin_steps (settings : Settings) (names : Names) (registry : Registry)
    (loop : LoopStart) :
    namesWithin (loop.steps settings names registry) = loop.suffixes.map names.step := by
  rw [steps, iteration, suffixes]
  cases loop.loopValue <;> rfl

end LoopStart

/-! ## No numerals, no repetitions -/

structure ProperSuffixes (suffixes : List String) : Prop where
  wordy : ∀ suffix ∈ suffixes, Wordy suffix
  distinct : suffixes.Nodup

instance (suffixes : List String) : Decidable (ProperSuffixes suffixes) :=
  decidable_of_iff ((∀ suffix ∈ suffixes, Wordy suffix) ∧ suffixes.Nodup)
    ⟨fun parts => ⟨parts.1, parts.2⟩, fun proper => ⟨proper.wordy, proper.distinct⟩⟩

theorem Action.properSuffixes (action : Action) : ProperSuffixes action.suffixes := by
  cases action <;> simp only [suffixes] <;> decide

theorem LoopStart.properSuffixes (loop : LoopStart) : ProperSuffixes loop.suffixes := by
  rw [suffixes]
  cases loop.loopValue <;> simp only [] <;> decide

theorem Subflow.properSuffixes_nil : ProperSuffixes (suffixes []) := by
  decide

theorem Subflow.properSuffixes_failure : ProperSuffixes (suffixes [.failure]) := by
  decide

theorem Subflow.properSuffixes_of_shape {exits : List Exit}
    (shape : exits = [] ∨ exits = [.failure]) : ProperSuffixes (suffixes exits) := by
  rcases shape with none | failure
  · exact none ▸ properSuffixes_nil
  · exact failure ▸ properSuffixes_failure

namespace Exit

def numberedDispatch (letters : List Char) (index : Nat) : String :=
  String.ofList letters ++ toString index ++ "_dispatch"

theorem parts_numberedDispatch {letters : List Char} (joined : '_' ∉ letters) (index : Nat) :
    parts (numberedDispatch letters index) =
      [letters ++ Nat.toDigits 10 index, "dispatch".toList] := by
  have split : "_dispatch" = "_" ++ "dispatch" := rfl
  have single : '_' ∉ (String.ofList letters ++ toString index).toList := by
    rw [String.toList_append, String.toList_ofList, Nat.toString_eq_repr, Nat.toList_repr]
    intro inside
    rcases List.mem_append.mp inside with inside | inside
    · exact joined inside
    · exact Nat.underscore_not_in_toDigits inside
  rw [numberedDispatch, split, ← String.append_assoc, parts_join, parts_eq_singleton single,
    String.toList_append, String.toList_ofList, Nat.toString_eq_repr, Nat.toList_repr]
  rfl

theorem wordy_numberedDispatch {letter : Char} {letters : List Char}
    (isLetter : letter.isDigit = false) (joined : '_' ∉ letter :: letters) (index : Nat) :
    Wordy (numberedDispatch (letter :: letters) index) := by
  intro part member
  rw [parts_numberedDispatch joined] at member
  rcases List.mem_cons.mp member with equal | member
  · subst equal
    simp [isNumeral, isLetter]
  · rw [List.mem_singleton] at member
    subst member
    decide

theorem numberedDispatch_injective {letters : List Char} (joined : '_' ∉ letters) {left right : Nat}
    (equal : numberedDispatch letters left = numberedDispatch letters right) : left = right := by
  have same := congrArg parts equal
  rw [parts_numberedDispatch joined, parts_numberedDispatch joined] at same
  exact toDigits_injective (List.append_cancel_left (List.cons.inj same).1)

end Exit

theorem properSuffixes_numbered {letter : Char} {letters : List Char}
    (isLetter : letter.isDigit = false) (joined : '_' ∉ letter :: letters) (count : Nat)
    {front rest : List String} (fixed : ProperSuffixes (front ++ rest))
    (other : ∀ suffix ∈ front ++ rest, (parts suffix).length ≠ 2) :
    ProperSuffixes (front ++
      ((List.range count).map (Exit.numberedDispatch (letter :: letters)) ++ rest)) := by
  constructor
  · intro suffix member
    rw [List.mem_append, List.mem_append] at member
    rcases member with member | member | member
    · exact fixed.wordy suffix (List.mem_append_left _ member)
    · rcases List.mem_map.mp member with ⟨index, _, equal⟩
      rw [← equal]
      exact Exit.wordy_numberedDispatch isLetter joined index
    · exact fixed.wordy suffix (List.mem_append_right _ member)
  · have dispatches : ((List.range count).map
        (Exit.numberedDispatch (letter :: letters))).Nodup := by
      refine List.nodup_range.map_on ?_
      intro left _ right _ equal
      exact Exit.numberedDispatch_injective joined equal
    have apart : ∀ suffix ∈ front ++ rest, suffix ∉ (List.range count).map
        (Exit.numberedDispatch (letter :: letters)) := by
      intro suffix member numbered
      rcases List.mem_map.mp numbered with ⟨index, _, equal⟩
      apply other suffix member
      rw [← equal, Exit.parts_numberedDispatch joined]
      rfl
    have permuted : ((List.range count).map (Exit.numberedDispatch (letter :: letters)) ++
        (front ++ rest)).Nodup := by
      refine List.nodup_append.mpr ⟨dispatches, fixed.distinct, ?_⟩
      intro left leftMember right rightMember equal
      exact apart right rightMember (equal ▸ leftMember)
    refine (List.Perm.nodup_iff ?_).mp permuted
    rw [← List.append_assoc, ← List.append_assoc]
    exact List.perm_append_comm.append_right rest

theorem map_mapIdx_eq_map_range {α β γ : Type} (values : List α) (make : Nat → α → β)
    (view : β → γ) (number : Nat → γ)
    (same : ∀ index value, view (make index value) = number index) :
    (values.mapIdx make).map view = (List.range values.length).map number := by
  apply List.ext_getElem
  · simp
  · intro index _ _
    simp [same]

namespace Fork

theorem caseSuffixes_append (fork : Fork) (left right : List Exit) :
    fork.caseSuffixes (left ++ right) = fork.caseSuffixes left ++ fork.caseSuffixes right := by
  simp [caseSuffixes]

theorem caseSuffixes_eq_map {fork : Fork} {exits : List Exit}
    (chosen : ∀ exit ∈ exits, exit.test ≠ .otherwise) :
    fork.caseSuffixes exits = exits.map Exit.dispatch := by
  induction exits with
  | nil => rfl
  | cons exit rest induction =>
      have other := chosen exit List.mem_cons_self
      have tail := induction fun exit member => chosen exit (List.mem_cons_of_mem _ member)
      rw [caseSuffixes] at tail ⊢
      simp [other, tail]

theorem properSuffixes_options (fork : Fork) {α : Type} (values : List α) (id label : α → String)
    (opening : fork.openingSuffixes =
      (if fork.asksAgain then ["init"] else []) ++ ["send", "await"]) :
    ProperSuffixes (fork.suffixes
      (values.mapIdx (fun index value => .option index (id value) (label value)) ++
        [.noResponse])) := by
  have chosen : ∀ exit ∈ values.mapIdx (fun index value =>
      Exit.option index (id value) (label value)), exit.test ≠ .otherwise := by
    intro exit member
    rcases List.mem_mapIdx.mp member with ⟨index, _, equal⟩
    rw [← equal]
    simp [Exit.option]
  have dispatches := map_mapIdx_eq_map_range values
    (fun index value => Exit.option index (id value) (label value)) Exit.dispatch
    (Exit.numberedDispatch "option".toList) (fun _ _ => rfl)
  have last : fork.caseSuffixes [.noResponse] =
      (if fork.asksAgain then ["retry"] else []) ++ ["no_response_dispatch"] := by
    simp [caseSuffixes, Exit.noResponse]
  rw [suffixes, caseSuffixes_append, caseSuffixes_eq_map chosen, dispatches, last, opening,
    List.append_cons]
  cases fork.asksAgain <;>
    exact properSuffixes_numbered (by decide) (by decide) values.length (by decide) (by decide)

theorem properSuffixes (fork : Fork) : ProperSuffixes (fork.suffixes fork.exits) := by
  cases fork with
  | text message =>
      have shape : ∀ again, (Fork.text message).asksAgain = again →
          (Fork.text message).suffixes (Fork.text message).exits =
            (if again then ["init"] else []) ++ ["send", "await", "route", "yes_dispatch"] ++
              (if again then ["retry"] else []) ++ ["no_response_dispatch"] := by
        intro again asks
        cases again <;>
          simp [suffixes, openingSuffixes, caseSuffixes, exits, asks, Exit.anyReply,
            Exit.noResponse]
      rw [shape _ rfl]
      cases (Fork.text message).asksAgain <;> decide
  | buttons prompt =>
      exact properSuffixes_options (.buttons prompt) prompt.buttons Button.id Button.label rfl
  | list prompt =>
      exact properSuffixes_options (.list prompt) prompt.rows ListRow.id ListRow.title rfl
  | split rules =>
      have shape : (Fork.split rules).suffixes (Fork.split rules).exits =
          ["evaluate", "assign", "route", "yes_dispatch", "no_dispatch"] := rfl
      rw [shape]
      decide
  | branch choice =>
      have chosen : ∀ exit ∈ (Fork.branch choice).exits, exit.test ≠ .otherwise := by
        intro exit member
        rcases List.mem_mapIdx.mp member with ⟨index, _, equal⟩
        rw [← equal]
        simp [Exit.path]
      have dispatches := map_mapIdx_eq_map_range choice.paths
        (fun index path => Exit.path index path.label) Exit.dispatch
        (Exit.numberedDispatch "path".toList) (fun _ _ => rfl)
      have shape : (Fork.branch choice).suffixes (Fork.branch choice).exits =
          ["evaluate", "assign", "route"] ++ ((List.range choice.paths.length).map
            (Exit.numberedDispatch "path".toList) ++ []) := by
        rw [suffixes, caseSuffixes_eq_map chosen, exits, dispatches, List.append_nil]
        rfl
      rw [shape]
      exact properSuffixes_numbered (by decide) (by decide) choice.paths.length (by decide)
        (by decide)

end Fork

end FlowCompiler
