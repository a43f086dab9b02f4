import FlowCompiler.Program.Basic
import FlowCompiler.Program.Primitive

namespace FlowCompiler

/-! The control structure of programs: what a routine does, step by step, with the routines that
it calls unfolded in place. Names, values and variables are left out, but for the titles of
blocks. -/

inductive Ending where
  /-- Behind all its other steps. -/
  | finish
  /-- At once, because nothing is connected. -/
  | stub
  /-- In a step that belongs to a node. -/
  | own
deriving DecidableEq

inductive Control where
  | operation (target : String)
  | assign
  | raise
  | return (ending : Ending)
  | block (title : String) (inside : List Control)
  | choice (cases : List (List Control))
  | iteration (inside : List Control)
  /-- The call of a routine that does this. -/
  | routine (inside : List Control)

namespace Ending

def ofName (name : String) : Ending :=
  if name = "finish" then .finish
  else if name = "no_further_steps" then .stub
  else .own

end Ending

namespace Text

/-- A name without the number behind its last underscore. -/
def withoutNumber (name : String) : String :=
  String.ofList (((name.toList.reverse.dropWhile Char.isDigit).drop 1).reverse)

example : withoutNumber "ask_1_send_12" = "ask_1_send" := by decide

theorem withoutNumber_append (base : String) (number : Nat) :
    withoutNumber (base ++ "_" ++ toString number) = base := by
  have digits : ∀ character ∈ (Nat.toDigits 10 number).reverse, character.isDigit := by
    intro character member
    exact Nat.isDigit_of_mem_toDigits (by decide) (by decide) (List.mem_reverse.mp member)
  have separator : "_".toList = ['_'] := rfl
  rw [withoutNumber, String.toList_append, String.toList_append, Nat.toString_eq_repr,
    Nat.toList_repr, List.reverse_append, List.dropWhile_append_of_pos digits, separator,
    List.reverse_append, List.reverse_singleton, List.singleton_append,
    List.dropWhile_cons_of_neg (by decide), List.drop_one, List.tail_cons, List.reverse_reverse,
    String.ofList_toList]

end Text

namespace Step

section

variable (resolve : String → Option (List Control))

mutual
def control? : Step → Option Control
  | .call _ invocation =>
      if Primitive.isPrimitive invocation.target then some (.operation invocation.target)
      else (resolve invocation.target).map .routine
  | .assign .. => some .assign
  | .switch _ cases => (casesControl? cases).map .choice
  | .block name steps => (stepsControl? steps).map (.block (Text.withoutNumber name))
  | .loop _ _ steps => (stepsControl? steps).map .iteration
  | .raise .. => some .raise
  | .return name _ => some (.return (.ofName name))

def stepsControl? : List Step → Option (List Control)
  | [] => some []
  | step :: rest => do return (← control? step) :: (← stepsControl? rest)

def casesControl? : List Case → Option (List (List Control))
  | [] => some []
  | .mk _ steps _ :: rest => do return (← stepsControl? steps) :: (← casesControl? rest)
end

end

end Step

namespace Program

/-- What a routine does, with calls of routines unfolded up to the given depth. There is no
result where a routine is missing, or calls go deeper. -/
def control? (program : Program) : Nat → String → Option (List Control)
  | 0, _ => none
  | depth + 1, name => do
      let routine ← program.routines.get? name
      Step.stepsControl? (program.control? depth) routine.steps

end Program

namespace Step

variable {resolve : String → Option (List Control)}

/-! ## Parts -/

theorem stepsControl?_cons {step : Step} {rest : List Step} {first : Control}
    {others : List Control} (head : control? resolve step = some first)
    (tail : stepsControl? resolve rest = some others) :
    stepsControl? resolve (step :: rest) = some (first :: others) := by
  rw [stepsControl?, head, tail]
  rfl

theorem stepsControl?_append {left right : List Step} {first second : List Control}
    (front : stepsControl? resolve left = some first)
    (behind : stepsControl? resolve right = some second) :
    stepsControl? resolve (left ++ right) = some (first ++ second) := by
  induction left generalizing first with
  | nil =>
      cases front
      exact behind
  | cons step rest induction =>
      rw [stepsControl?] at front
      cases head : control? resolve step with
      | none =>
          rw [head] at front
          cases front
      | some control =>
          rw [head] at front
          cases tail : stepsControl? resolve rest with
          | none =>
              rw [tail] at front
              cases front
          | some controls =>
              rw [tail] at front
              cases front
              exact stepsControl?_cons head (induction tail)

theorem control?_primitive {name : String} {invocation : Call}
    (primitive : Primitive.isPrimitive invocation.target) :
    control? resolve (.call name invocation) = some (.operation invocation.target) := by
  rw [control?, if_pos primitive]

theorem control?_routine {name : String} {invocation : Call} {inside : List Control}
    (generated : Primitive.isPrimitive invocation.target = false)
    (resolved : resolve invocation.target = some inside) :
    control? resolve (.call name invocation) = some (.routine inside) := by
  rw [control?, generated, resolved]
  rfl

theorem stepsControl?_block {name title : String} {steps : List Step} {inside : List Control}
    (titled : Text.withoutNumber name = title)
    (known : stepsControl? resolve steps = some inside) :
    stepsControl? resolve [.block name steps] = some [.block title inside] := by
  rw [stepsControl?, control?, known, titled]
  rfl

theorem casesControl?_cons {condition : Option Json} {steps : List Step} {next : Option String}
    {rest : List Case} {first : List Control} {others : List (List Control)}
    (head : stepsControl? resolve steps = some first)
    (tail : casesControl? resolve rest = some others) :
    casesControl? resolve (.mk condition steps next :: rest) = some (first :: others) := by
  rw [casesControl?, head, tail]
  rfl

end Step

end FlowCompiler
