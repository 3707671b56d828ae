namespace FrameEngine.Asset.Path

def normalize (path : String) : String :=
  String.ofList (path.toList.map fun c => if c = '\\' then '/' else c)

def isAbsolute (path : String) : Bool := path.toList.head? = some '/'

def join (base path : String) : String :=
  if isAbsolute path ∨ base = "" then path
  else if base.toList.getLast? = some '/' then base ++ path
  else base ++ "/" ++ path

def components (path : String) : List String :=
  (path.toList.splitOn '/').map String.ofList

/-- The last component that names a file; none if the path ends in `..` or names no file. -/
def fileName? (path : String) : Option String :=
  match ((components path).filter fun c => c ≠ "" ∧ c ≠ ".").getLast? with
  | some ".." => none
  | name => name

/-- What follows the last dot of a file name, unless that dot is its first character. -/
def suffix? (name : List Char) : Option (List Char) :=
  match name.reverse.span (· ≠ '.') with
  | (_, []) | (_, [_]) => none
  | (after, _ :: _ :: _) => some after.reverse

def extension (path : String) : String :=
  match (fileName? path).bind fun name => suffix? name.toList with
  | some after => String.ofList ('.' :: after)
  | none => ""

end FrameEngine.Asset.Path
