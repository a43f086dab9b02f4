namespace FlowCompiler.Path

/-! Paths: texts in which slashes separate names. Each name leads from a directory to one of
its entries; one dot leads nowhere else, and two dots lead to the directory above. -/

/-- The names in a path. Slashes that follow each other, or end the path, count once. -/
def names (path : String) : List String :=
  (path.toList.splitOn '/').filterMap fun name =>
    if name.isEmpty then none else some (String.ofList name)

def isAbsolute (path : String) : Bool :=
  path.toList.head? = some '/'

def endsWithSlash (path : String) : Bool :=
  path.toList.getLast? = some '/'

/-- The path of an entry of a directory. An absolute path stays as it is. -/
def join (directory entry : String) : String :=
  if isAbsolute entry || directory.isEmpty then entry
  else if endsWithSlash directory then directory ++ entry
  else directory ++ "/" ++ entry

/-- A path, then the directory that it lies in, and so on upwards. Single dots do not count as
names here. -/
def upwards (path : String) : List String :=
  let names := (names path).filter (· ≠ ".")
  let start := if isAbsolute path then "/" else ""
  path :: ((List.range names.length).drop 1).reverse.map fun count =>
    start ++ "/".intercalate (names.take count)

example : names "a//b/./" = ["a", "b", "."] := by decide +kernel
example : upwards "a/b/./c/." = ["a/b/./c/.", "a/b", "a"] := by decide +kernel

end FlowCompiler.Path
