import FlowCompiler.Lowering.Request
import FlowCompiler.Text.Blank

namespace FlowCompiler.LoopStart

/-! The steps of loops. The body of a loop is a routine of its own, which the engine's
iteration calls once for each element, up to a limit. -/

open Expression Lowering

def continueValue : String := "loop_continue"

def bodyRoutine (names : Names) : String :=
  names.routine "body"

def bodyRegistry (registry : Registry) : Registry :=
  (registry.rebased.bindVariable Registry.loopItem).bindVariable Registry.loopIndex

/-- The value of a list expression, which may be given with or without the signs around it. -/
def listValue (expression : String) : Json :=
  let trimmed := Text.trim expression
  if (body? (.string trimmed)).isSome then .string trimmed else evaluate trimmed

def limit (settings : Settings) (loop : LoopStart) : UInt32 :=
  loop.loopLimit.getD settings.defaultLoopLimit

def limitVariable (names : Names) : String :=
  names.step "limit"

def listVariable (names : Names) : String :=
  names.step "values"

/-- The call of the body. An iteration over a list binds the index itself; counting starts at
one, so there the index is one less than the element. -/
def bodyCall (names : Names) (registry : Registry) (loop : LoopStart) : Step :=
  let index := match loop.loopValue with
    | .list _ => ofVariable Registry.loopIndex
    | .count _ => evaluate (Registry.loopItem ++ " - 1")
  .call (names.step "iteration") {
    target := bodyRoutine names
    args := (registry.callArgs.insert Registry.loopItem (ofVariable Registry.loopItem)).insert
      Registry.loopIndex index
    result := some (names.step "outcome")
    retry := none }

def guardStep (names : Names) : Step :=
  .switch (names.step "guard")
    [.mk (some (evaluate (Registry.loopIndex ++ " >= " ++ limitVariable names))) []
      (some "break")]

def setup (settings : Settings) (names : Names) (loop : LoopStart) : List (String × Json) :=
  (limitVariable names, .ofUInt32 (loop.limit settings)) ::
    match loop.loopValue with
    | .list expression => [(listVariable names, listValue expression)]
    | .count _ => []

def head (settings : Settings) (names : Names) (loop : LoopStart) : LoopHead :=
  match loop.loopValue with
  | .list _ =>
      ⟨Registry.loopItem, some Registry.loopIndex, .list (ofVariable (listVariable names))⟩
  | .count number => ⟨Registry.loopItem, none, .range 1 (min number (loop.limit settings))⟩

def iteration (names : Names) (registry : Registry) (loop : LoopStart) : List Step :=
  match loop.loopValue with
  | .list _ => [guardStep names, loop.bodyCall names registry]
  | .count _ => [loop.bodyCall names registry]

def steps (settings : Settings) (names : Names) (registry : Registry) (loop : LoopStart) :
    List Step :=
  [.assign (names.step "setup") (loop.setup settings names),
    .loop (names.step "iterate") (loop.head settings names) (loop.iteration names registry)]

end FlowCompiler.LoopStart
