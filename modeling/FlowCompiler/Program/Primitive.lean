namespace FlowCompiler.Primitive

/-! The operations that the engine itself provides. Their names have a dot, and the names of
routines have none. -/

def httpGet : String := "http.get"

def httpPost : String := "http.post"

def httpDelete : String := "http.delete"

def httpRequest : String := "http.request"

def sleep : String := "sys.sleep"

def log : String := "sys.log"

def getEnv : String := "sys.get_env"

def awaitCallback : String := "events.await_callback"

def isPrimitive (target : String) : Bool :=
  target.toList.contains '.'

def reservedJumps : List String :=
  ["break", "continue", "end"]

end FlowCompiler.Primitive
