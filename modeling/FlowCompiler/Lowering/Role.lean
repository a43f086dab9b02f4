import FlowCompiler.Flow.Outlet

namespace FlowCompiler

/-! What nodes do to the course of a run. An action is followed by one next node; a fork ends
the routine it stands in and goes on in one of several others; subflows and loops do both in
ways of their own; all other nodes end the run. -/

/-! ## Actions -/

inductive Action where
  | message (message : TextMessage)
  | delay (delay : Delay)
  | saveFields (save : SaveFields)
  | saveVariable (save : SaveVariable)
  | apiCall (call : ApiCall)
  | webhook (webhook : Webhook)
  | alert (alert : Alert)
  | utility (call : UtilityCall)
deriving DecidableEq

def Action.isDelay : Action → Bool
  | .delay _ => true
  | _ => false

/-! ## Exits -/

inductive ExitTest where
  /-- The reply chooses the option with this id. -/
  | reply (id : String)
  /-- A reply has come, in the given format if there is one. -/
  | text (format : Option ReplyFormat)
  | verdict
  /-- The conditions of the path with this label hold. -/
  | label (label : String)
  /-- No other exit is taken. -/
  | otherwise
  /-- A subflow has failed or has not ended in time. -/
  | aborted
deriving DecidableEq

structure Exit where
  outlet : Outlet
  test : ExitTest
  /-- The last part of the name of the routine. -/
  slug : String
  /-- The last part of the name of the step that calls the routine. -/
  dispatch : String
  /-- What the exit is called where nothing is connected to it. -/
  label : String
deriving DecidableEq

namespace Exit

def noResponse : Exit :=
  ⟨.noResponse, .otherwise, "no_response", "no_response_dispatch", "no-response"⟩

def anyReply (format : Option ReplyFormat) : Exit :=
  ⟨.yes, .text format, "yes", "yes_dispatch", "yes"⟩

def option (index : Nat) (id label : String) : Exit :=
  let outlet := Outlet.option id
  ⟨outlet, .reply id, toString index ++ "_" ++ outlet.slug,
    "option" ++ toString index ++ "_dispatch", label⟩

def holds : Exit :=
  ⟨.yes, .verdict, "yes", "yes_dispatch", "yes"⟩

def fails : Exit :=
  ⟨.no, .otherwise, "no", "no_dispatch", "no"⟩

def path (index : Nat) (label : String) : Exit :=
  let outlet := Outlet.label label
  ⟨outlet, .label label, toString index ++ "_" ++ outlet.slug,
    "path" ++ toString index ++ "_dispatch", label⟩

def failure : Exit :=
  ⟨.failure, .aborted, "failure", "dispatch", "failure"⟩

end Exit

/-! ## Forks -/

inductive Fork where
  | text (message : TextMessage)
  | buttons (prompt : ButtonPrompt)
  | list (prompt : ListPrompt)
  | split (split : Split)
  | branch (choice : BranchChoice)
deriving DecidableEq

def Fork.exits : Fork → List Exit
  | .text message => [.anyReply message.responseFormat, .noResponse]
  | .buttons prompt =>
      prompt.buttons.mapIdx (fun index button => .option index button.id button.label) ++
        [.noResponse]
  | .list prompt =>
      prompt.rows.mapIdx (fun index row => .option index row.id row.title) ++ [.noResponse]
  | .split _ => [.holds, .fails]
  | .branch choice => choice.paths.mapIdx fun index path => .path index path.label

def Fork.asksAgain : Fork → Bool
  | .text message => message.responseFormat.isSome
  | .buttons prompt => prompt.retryInvalid
  | .list prompt => prompt.retryInvalid
  | .split _ => false
  | .branch _ => false

/-! ## Roles -/

inductive Role where
  | action (action : Action)
  | fork (fork : Fork)
  | subflow (subflow : Subflow)
  | loop (loop : LoopStart)
  | terminal
deriving DecidableEq

def Kind.role : Kind → Role
  | .trigger _ => .terminal
  | .sendText message =>
      if message.waitForResponse then .fork (.text message) else .action (.message message)
  | .sendButtons prompt => .fork (.buttons prompt)
  | .sendList prompt => .fork (.list prompt)
  | .delay settings => .action (.delay settings)
  | .conditionalSplit settings => .fork (.split settings)
  | .conditionalBranch choice => .fork (.branch choice)
  | .saveData save => .action (.saveFields save)
  | .saveVariable save => .action (.saveVariable save)
  | .loopStart settings => .loop settings
  | .loopEnd => .terminal
  | .apiCall settings => .action (.apiCall settings)
  | .webhook settings => .action (.webhook settings)
  | .subflow settings => .subflow settings
  | .alert settings => .action (.alert settings)
  | .utilityFunction call => .action (.utility call)
  | .unsupported _ => .terminal

end FlowCompiler
