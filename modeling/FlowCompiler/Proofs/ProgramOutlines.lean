import FlowCompiler.Proofs.Jumps
import FlowCompiler.Proofs.Outlines

namespace FlowCompiler

/-! The outline of a program: its routines with their steps, and the cases of switches as a level of
their own. The tree view has one line for each entry, in this order, and its prefixes tell how the
entries are nested. -/

/-! ## Entries -/

namespace Tree

inductive Entry where
  | routine (name : String) (routine : Routine)
  | step (step : Step)
  | branch (branch : Case)

namespace Entry

def label : Entry → String
  | .routine name own => name ++ "(" ++ ", ".intercalate own.params ++ ")"
  | .step own => own.name ++ ": " ++ summary own
  | .branch own => caseSummary own.condition own.next

def routine? : Entry → Option (String × Routine)
  | .routine name own => some (name, own)
  | .step _ | .branch _ => none

def step? : Entry → Option Step
  | .step own => some own
  | .routine .. | .branch _ => none

def branch? : Entry → Option Case
  | .branch own => some own
  | .routine .. | .step _ => none

/-- Every entry stands for a routine, a step or a case. -/
theorem length_eq (entries : List Entry) :
    entries.length = (entries.filterMap routine?).length + (entries.filterMap step?).length +
      (entries.filterMap branch?).length := by
  induction entries with
  | nil => rfl
  | cons first rest induction =>
      cases first <;>
        simp only [List.length_cons, List.filterMap_cons, routine?, step?, branch?, induction] <;>
        omega

end Entry

mutual
def nestedOutline : Step → Outline Entry
  | .block _ steps => stepsOutline steps
  | .switch _ cases => casesOutline cases
  | .loop _ _ steps => stepsOutline steps
  | .call .. | .assign .. | .raise .. | .return .. => .empty

def stepsOutline : List Step → Outline Entry
  | [] => .empty
  | step :: rest => .entry (.step step) (nestedOutline step) (stepsOutline rest)

def casesOutline : List Case → Outline Entry
  | [] => .empty
  | .mk condition steps next :: rest =>
      .entry (.branch (.mk condition steps next)) (stepsOutline steps) (casesOutline rest)
end

def routinesOutline : List (String × Routine) → Outline Entry
  | [] => .empty
  | (name, routine) :: rest =>
      .entry (.routine name routine) (stepsOutline routine.steps) (routinesOutline rest)

end Tree

def Program.outline (program : Program) : Outline Tree.Entry :=
  Tree.routinesOutline program.routines.entries

def Program.rows (program : Program) : List Row :=
  (program.outline.map Tree.Entry.label).titledRows

namespace Tree

/-! ## Lines -/

def indent (around : List Bool) : String :=
  String.join (around.map indentation)

theorem indent_concat (around : List Bool) (last : Bool) :
    indent (around ++ [last]) = indent around ++ indentation last := by
  simp [indent]

theorem text_step (around : List Bool) (last : Bool) (step : Step) :
    (Row.branch around last (Entry.step step).label).text =
      indent around ++ marker last ++ step.name ++ ": " ++ summary step := by
  simp only [Row.text, Entry.label, indent, String.append_assoc]

theorem text_branch (around : List Bool) (last : Bool) (branch : Case) :
    (Row.branch around last (Entry.branch branch).label).text =
      indent around ++ marker last ++ caseSummary branch.condition branch.next := rfl

def linesOf (around : List Bool) (outline : Outline Entry) : List String :=
  ((outline.map Entry.label).rows around).map Row.text

theorem linesOf_entry (around : List Bool) (entry : Entry) (nested next : Outline Entry) :
    linesOf around (.entry entry nested next) =
      (Row.branch around next.isEmpty entry.label).text ::
        (linesOf (around ++ [next.isEmpty]) nested ++ linesOf around next) := by
  rw [linesOf, Outline.map, Outline.rows, Outline.isEmpty_map, List.map_cons, List.map_append]
  rfl

theorem isEmpty_stepsOutline (steps : List Step) :
    (stepsOutline steps).isEmpty = steps.isEmpty := by
  cases steps <;> rfl

theorem isEmpty_casesOutline (cases : List Case) :
    (casesOutline cases).isEmpty = cases.isEmpty := by
  rcases cases with _ | ⟨⟨_, _, _⟩, _⟩ <;> rfl

mutual
theorem stepLines_eq : ∀ (around : List Bool) (last : Bool) (step : Step),
    stepLines (indent around) last step =
      (Row.branch around last (Entry.step step).label).text ::
        linesOf (around ++ [last]) (nestedOutline step)
  | around, last, .block name steps => by
      rw [stepLines, text_step, nestedOutline, ← indent_concat, stepsLines_eq]
      rfl
  | around, last, .switch name cases => by
      rw [stepLines, text_step, nestedOutline, ← indent_concat, casesLines_eq]
      rfl
  | around, last, .loop name head steps => by
      rw [stepLines, text_step, nestedOutline, ← indent_concat, stepsLines_eq]
      rfl
  | around, last, .call .. | around, last, .assign .. | around, last, .raise ..
  | around, last, .return .. => by
      rw [stepLines, text_step]
      · rfl
      all_goals nofun

theorem stepsLines_eq : ∀ (around : List Bool) (steps : List Step),
    stepsLines (indent around) steps = linesOf around (stepsOutline steps)
  | _, [] => rfl
  | around, step :: rest => by
      rw [stepsLines, stepLines_eq, stepsLines_eq, stepsOutline, linesOf_entry,
        isEmpty_stepsOutline, List.cons_append]

theorem casesLines_eq : ∀ (around : List Bool) (cases : List Case),
    casesLines (indent around) cases = linesOf around (casesOutline cases)
  | _, [] => rfl
  | around, .mk condition steps next :: rest => by
      rw [casesLines, ← indent_concat, stepsLines_eq, casesLines_eq, casesOutline, linesOf_entry,
        isEmpty_casesOutline, text_branch]
      rfl
end

theorem routineLines_eq (entries : List (String × Routine)) :
    entries.flatMap (fun entry => routineLines entry.1 entry.2) =
      ((routinesOutline entries).map Entry.label).titledRows.map Row.text := by
  induction entries with
  | nil => rfl
  | cons first rest induction =>
      have own : stepsLines "" first.2.steps = linesOf [] (stepsOutline first.2.steps) :=
        stepsLines_eq [] first.2.steps
      rw [List.flatMap_cons, induction, routineLines, own, routinesOutline, Outline.map,
        Outline.titledRows, List.map_cons, List.map_append]
      rfl

/-! ## What the entries stand for -/

mutual
theorem step?_nestedOutline : ∀ step : Step,
    step :: (nestedOutline step).items.filterMap Entry.step? = Step.flatten step
  | .block name steps => by
      rw [nestedOutline, step?_stepsOutline, Step.flatten]
  | .switch name cases => by
      rw [nestedOutline, step?_casesOutline, Step.flatten]
  | .loop name head steps => by
      rw [nestedOutline, step?_stepsOutline, Step.flatten]
  | .call .. | .assign .. | .raise .. | .return .. => rfl

theorem step?_stepsOutline : ∀ steps : List Step,
    (stepsOutline steps).items.filterMap Entry.step? = Step.flattenSteps steps
  | [] => rfl
  | step :: rest => by
      rw [stepsOutline, Outline.items, List.filterMap_cons_some (f := Entry.step?) rfl,
        List.filterMap_append, ← List.cons_append, step?_nestedOutline, step?_stepsOutline,
        Step.flattenSteps]

theorem step?_casesOutline : ∀ cases : List Case,
    (casesOutline cases).items.filterMap Entry.step? = Step.flattenCases cases
  | [] => rfl
  | .mk condition steps next :: rest => by
      rw [casesOutline, Outline.items, List.filterMap_cons_none (f := Entry.step?) rfl,
        List.filterMap_append, step?_stepsOutline, step?_casesOutline, Step.flattenCases]
end

mutual
theorem branch?_nestedOutline : ∀ step : Step,
    ((nestedOutline step).items.filterMap Entry.branch?).Perm
      ((Step.flatten step).flatMap Step.cases)
  | .block name steps => by
      rw [nestedOutline, Step.flatten]
      exact branch?_stepsOutline steps
  | .switch name cases => by
      rw [nestedOutline, Step.flatten]
      exact branch?_casesOutline cases
  | .loop name head steps => by
      rw [nestedOutline, Step.flatten]
      exact branch?_stepsOutline steps
  | .call .. | .assign .. | .raise .. | .return .. => .refl _

theorem branch?_stepsOutline : ∀ steps : List Step,
    ((stepsOutline steps).items.filterMap Entry.branch?).Perm
      ((Step.flattenSteps steps).flatMap Step.cases)
  | [] => .refl _
  | step :: rest => by
      rw [stepsOutline, Outline.items, List.filterMap_cons_none (f := Entry.branch?) rfl,
        List.filterMap_append, Step.flattenSteps, List.flatMap_append]
      exact (branch?_nestedOutline step).append (branch?_stepsOutline rest)

theorem branch?_casesOutline : ∀ cases : List Case,
    ((casesOutline cases).items.filterMap Entry.branch?).Perm
      (cases ++ (Step.flattenCases cases).flatMap Step.cases)
  | [] => .refl _
  | .mk condition steps next :: rest => by
      rw [casesOutline, Outline.items, List.filterMap_cons_some (f := Entry.branch?) rfl,
        List.filterMap_append, Step.flattenCases, List.flatMap_append, List.cons_append]
      refine (((branch?_stepsOutline steps).append (branch?_casesOutline rest)).trans ?_).cons _
      exact List.perm_append_comm_assoc _ _ _
end

mutual
theorem routine?_nestedOutline : ∀ step : Step,
    (nestedOutline step).items.filterMap Entry.routine? = []
  | .block name steps => by rw [nestedOutline, routine?_stepsOutline]
  | .switch name cases => by rw [nestedOutline, routine?_casesOutline]
  | .loop name head steps => by rw [nestedOutline, routine?_stepsOutline]
  | .call .. | .assign .. | .raise .. | .return .. => rfl

theorem routine?_stepsOutline : ∀ steps : List Step,
    (stepsOutline steps).items.filterMap Entry.routine? = []
  | [] => rfl
  | step :: rest => by
      rw [stepsOutline, Outline.items, List.filterMap_cons_none (f := Entry.routine?) rfl,
        List.filterMap_append, routine?_nestedOutline, routine?_stepsOutline, List.append_nil]

theorem routine?_casesOutline : ∀ cases : List Case,
    (casesOutline cases).items.filterMap Entry.routine? = []
  | [] => rfl
  | .mk condition steps next :: rest => by
      rw [casesOutline, Outline.items, List.filterMap_cons_none (f := Entry.routine?) rfl,
        List.filterMap_append, routine?_stepsOutline, routine?_casesOutline, List.append_nil]
end

theorem routine?_routinesOutline (entries : List (String × Routine)) :
    (routinesOutline entries).items.filterMap Entry.routine? = entries := by
  induction entries with
  | nil => rfl
  | cons first rest induction =>
      rw [routinesOutline, Outline.items, List.filterMap_cons_some (f := Entry.routine?) rfl,
        List.filterMap_append, routine?_stepsOutline, List.nil_append, induction]

theorem step?_routinesOutline (entries : List (String × Routine)) :
    (routinesOutline entries).items.filterMap Entry.step? =
      entries.flatMap fun entry => entry.2.flatten := by
  induction entries with
  | nil => rfl
  | cons first rest induction =>
      rw [routinesOutline, Outline.items, List.filterMap_cons_none (f := Entry.step?) rfl,
        List.filterMap_append, step?_stepsOutline, induction, List.flatMap_cons, Routine.flatten]

theorem branch?_routinesOutline (entries : List (String × Routine)) :
    ((routinesOutline entries).items.filterMap Entry.branch?).Perm
      ((entries.flatMap fun entry => entry.2.flatten).flatMap Step.cases) := by
  induction entries with
  | nil => exact .refl _
  | cons first rest induction =>
      rw [routinesOutline, Outline.items, List.filterMap_cons_none (f := Entry.branch?) rfl,
        List.filterMap_append, List.flatMap_cons, List.flatMap_append]
      exact (branch?_stepsOutline first.2.steps).append induction

theorem titled_header {name : String} (proper : Text.IsIdentifier name) (routine : Routine) :
    (Row.header (Entry.routine name routine).label).Titled := by
  have nonempty := proper.nonempty
  have known := proper.known
  rw [Row.Titled, Entry.label, String.toList_append, String.toList_append, String.toList_append]
  cases characters : name.toList with
  | nil => exact absurd characters nonempty
  | cons first rest =>
      rw [characters] at known
      exact known first List.mem_cons_self

end Tree

/-! ## Tree views -/

namespace Program

def allSteps (program : Program) : List Step :=
  program.routines.values.flatMap Routine.flatten

def caseCount (program : Program) : Nat :=
  (program.allSteps.flatMap Step.cases).length

variable (program : Program)

theorem treeLines_eq : program.treeLines = program.rows.map Row.text :=
  Tree.routineLines_eq program.routines.entries

theorem stepCount_eq_length : program.stepCount = program.allSteps.length := by
  rw [stepCount, allSteps, List.length_flatMap]
  induction program.routines.values with
  | nil => rfl
  | cons first rest induction =>
      rw [List.foldr_cons, induction, List.map_cons, List.sum_cons, Routine.stepCount]

theorem step?_outline : program.outline.items.filterMap Tree.Entry.step? = program.allSteps := by
  rw [outline, Tree.step?_routinesOutline, allSteps, Table.values, List.flatMap_map]

theorem branch?_outline : (program.outline.items.filterMap Tree.Entry.branch?).Perm
    (program.allSteps.flatMap Step.cases) := by
  have cases := Tree.branch?_routinesOutline program.routines.entries
  rw [← Tree.step?_routinesOutline] at cases
  rw [← step?_outline]
  exact cases

theorem routine?_outline :
    program.outline.items.filterMap Tree.Entry.routine? = program.routines.entries :=
  Tree.routine?_routinesOutline program.routines.entries

theorem length_treeLines :
    program.treeLines.length = program.size + program.stepCount + program.caseCount := by
  have items : program.treeLines.length = program.outline.items.length := by
    rw [treeLines_eq, List.length_map, ← List.length_map (f := Row.label), rows,
      Outline.label_titledRows, Outline.items_map, List.length_map]
  rw [items, Tree.Entry.length_eq, routine?_outline, step?_outline,
    program.branch?_outline.length_eq, stepCount_eq_length, caseCount, size, Table.size]

/-- The headers of a program are titled if its routines are named by identifiers. -/
theorem titled_of_mem_rows (names : ∀ name ∈ program.routines.keys, Text.IsIdentifier name)
    {row : Row} (member : row ∈ program.rows) : row.Titled := by
  have titled : ∀ entries : List (String × Routine),
      (∀ entry ∈ entries, Text.IsIdentifier entry.1) →
        ∀ row ∈ ((Tree.routinesOutline entries).map Tree.Entry.label).titledRows, row.Titled := by
    intro entries
    induction entries with
    | nil => exact fun _ _ member => nomatch member
    | cons first rest induction =>
        intro proper row member
        rcases List.mem_cons.mp member with rfl | member
        · exact Tree.titled_header (proper first List.mem_cons_self) first.2
        · rcases List.mem_append.mp member with nested | behind
          · exact Outline.titled_of_mem_rows _ nested
          · have others := fun entry among => proper entry (List.mem_cons_of_mem _ among)
            exact induction others row behind
  exact titled _ (fun entry among => names _ (List.mem_map_of_mem (f := Prod.fst) among)) row member

def outlineOfLines (lines : List String) : Outline String :=
  Outline.ofRows (lines.map fun line => Row.read line.toList)

/-- The prefixes of the lines tell how the entries of a program are nested. -/
theorem outlineOfLines_treeLines (names : ∀ name ∈ program.routines.keys, Text.IsIdentifier name) :
    outlineOfLines program.treeLines = program.outline.map Tree.Entry.label := by
  have read : program.treeLines.map (fun line => Row.read line.toList) = program.rows := by
    have own : ∀ row ∈ program.rows, Row.read row.text.toList = id row :=
      fun row member => Row.read_text (program.titled_of_mem_rows names member)
    rw [treeLines_eq, List.map_map]
    exact (List.map_congr_left own).trans (List.map_id _)
  rw [outlineOfLines, read, rows, Outline.ofRows_titledRows]

end Program

end FlowCompiler
