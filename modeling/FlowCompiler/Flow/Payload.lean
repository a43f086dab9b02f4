import FlowCompiler.Json.Basic
import FlowCompiler.Table

namespace FlowCompiler

/-! The settings that a designer can give to the nodes of a flow, one structure for each
kind of node. -/

/-! ## Entry -/

structure Trigger where
  event : Option String
deriving DecidableEq

/-! ## Messages -/

inductive ReplyFormat where
  | number
  | email
  | phone
deriving DecidableEq

def ReplyFormat.pattern : ReplyFormat → String
  | .number => "^[0-9]+([.,][0-9]+)?$"
  | .email => "^[^@\\s]+@[^@\\s]+\\.[^@\\s]+$"
  | .phone => "^\\+?[0-9 ()-]\x7b7,20\x7d$"

structure TextMessage where
  message : String
  waitForResponse : Bool
  timeoutSeconds : Option UInt64
  responseFormat : Option ReplyFormat
deriving DecidableEq

structure Button where
  id : String
  label : String
deriving DecidableEq

structure ButtonPrompt where
  message : String
  buttons : List Button
  timeoutSeconds : Option UInt64
  retryInvalid : Bool
deriving DecidableEq

structure ListRow where
  id : String
  title : String
  description : Option String
deriving DecidableEq

structure ListSection where
  title : String
  rows : List ListRow
deriving DecidableEq

structure ListPrompt where
  message : String
  buttonLabel : Option String
  sections : List ListSection
  timeoutSeconds : Option UInt64
  retryInvalid : Bool
deriving DecidableEq

def ListPrompt.rows (prompt : ListPrompt) : List ListRow :=
  prompt.sections.flatMap ListSection.rows

/-! ## Waiting -/

inductive DelayUnit where
  | seconds
  | minutes
  | hours
  | days
deriving DecidableEq

def DelayUnit.factor : DelayUnit → Nat
  | .seconds => 1
  | .minutes => 60
  | .hours => 3600
  | .days => 86400

structure Delay where
  duration : UInt64
  unit : DelayUnit
deriving DecidableEq

/-- The length of a delay in seconds, at most the largest 64-bit number. -/
def Delay.seconds (delay : Delay) : UInt64 :=
  UInt64.ofNat (min (delay.duration.toNat * delay.unit.factor) (twoTo 64 - 1))

structure Webhook where
  source : Option String
  timeoutSeconds : Option UInt64
deriving DecidableEq

/-! ## Decisions -/

structure Condition where
  field : String
  operator : String
  value : Json
deriving DecidableEq

inductive ConditionLogic where
  | and
  | or
deriving DecidableEq

structure Split where
  conditions : List Condition
  logic : ConditionLogic
deriving DecidableEq

structure BranchPath where
  label : String
  conditions : List Condition
  logic : ConditionLogic
deriving DecidableEq

structure BranchChoice where
  paths : List BranchPath
deriving DecidableEq

/-! ## Data -/

structure FieldValue where
  key : String
  value : Json
deriving DecidableEq

structure SaveFields where
  fields : List FieldValue
  collection : Option String
deriving DecidableEq

structure SaveVariable where
  variableName : String
  value : Json
deriving DecidableEq

/-! ## Loops -/

/-- What a loop iterates over: a fixed count, or a list expression such as `tg.order.items`. -/
inductive LoopValue where
  | count (count : UInt32)
  | list (expression : String)
deriving DecidableEq

structure LoopStart where
  loopValue : LoopValue
  loopLimit : Option UInt32
deriving DecidableEq

/-! ## Calls to other systems -/

inductive HttpMethod where
  | get
  | post
  | put
  | patch
  | delete
deriving DecidableEq

def HttpMethod.name : HttpMethod → String
  | .get => "GET"
  | .post => "POST"
  | .put => "PUT"
  | .patch => "PATCH"
  | .delete => "DELETE"

structure ApiCall where
  method : HttpMethod
  url : String
  headers : Table String
  body : Option Json
deriving DecidableEq

structure Subflow where
  subflowId : String
  subflowName : Option String
deriving DecidableEq

structure Alert where
  message : String
  recipients : List String
  channel : String
deriving DecidableEq

structure UtilityCall where
  function : String
  arguments : Table Json
deriving DecidableEq

end FlowCompiler
