import FrameEngine.Asset.Path

namespace FrameEngine.Asset

inductive FileError
  | notFound
  | denied
  | notDirectory
  | isDirectory
  | nameTooLong
  | nulInPath
  deriving DecidableEq

def FileError.message : FileError → String
  | .notFound => "No such file or directory (os error 2)"
  | .denied => "Permission denied (os error 13)"
  | .notDirectory => "Not a directory (os error 20)"
  | .isDirectory => "Is a directory (os error 21)"
  | .nameTooLong => "File name too long (os error 36)"
  | .nulInPath => "file name contained an unexpected NUL byte"

inductive Entry
  | file (bytes : ByteArray)
  | directory
  | unreadable (error : FileError)

/-- Entries by the components of their absolute paths; the top directory is always there. -/
structure FileTree where
  entries : List (List String × Entry) := []

namespace FileTree

def entry? (tree : FileTree) : List String → Option Entry
  | [] => some .directory
  | path => (tree.entries.find? (·.1 = path)).map (·.2)

def withParents (tree : FileTree) (path : List String) : FileTree :=
  ((List.range path.length).map path.take).foldl
    (fun tree above =>
      if (tree.entry? above).isSome then tree else ⟨(above, .directory) :: tree.entries⟩) tree

def insert (tree : FileTree) (path : List String) (entry : Entry) : FileTree :=
  let tree := tree.withParents path
  ⟨(path, entry) :: tree.entries.filter (·.1 ≠ path)⟩

/-- The longest file name, and the first path length that is refused, in bytes. -/
def longestName : Nat := 255

def pathLimit : Nat := 4096

def walk (tree : FileTree) : List String → List String → Except FileError Entry
  | here, [] => match tree.entry? here with
      | none => .error .notFound
      | some entry => .ok entry
  | here, c :: rest => match tree.entry? here with
      | none => .error .notFound
      | some (.file _) => .error .notDirectory
      | some (.unreadable error) => .error error
      | some .directory =>
          if c = "" ∨ c = "." then tree.walk here rest
          else if c = ".." then tree.walk here.dropLast rest
          else if c.utf8ByteSize > longestName then .error .nameTooLong
          else tree.walk (here ++ [c]) rest

end FileTree

/-- A directory that assets are read from: the files there are, the current directory, and the text
of the root. -/
structure AssetRoot where
  files : FileTree
  current : List String
  path : String

namespace AssetRoot

/-- What a path below the root leads to. The text of the two together is what may be too long, and an
empty one leads nowhere. -/
def resolve (root : AssetRoot) (path : String) : Except FileError Entry :=
  let path := Path.join root.path path
  if '\x00' ∈ path.toList then .error .nulInPath
  else if path = "" then .error .notFound
  else if path.utf8ByteSize ≥ FileTree.pathLimit then .error .nameTooLong
  else root.files.walk (if Path.isAbsolute path then [] else root.current) (Path.components path)

def read (root : AssetRoot) (path : String) : Except FileError ByteArray :=
  match root.resolve path with
  | .error error => .error error
  | .ok (.file bytes) => .ok bytes
  | .ok .directory => .error .isDirectory
  | .ok (.unreadable error) => .error error

def isFile (root : AssetRoot) (path : String) : Bool :=
  match root.resolve path with
  | .ok (.file _) => true
  | _ => false

end AssetRoot

end FrameEngine.Asset
