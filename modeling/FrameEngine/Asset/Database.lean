import FrameEngine.Asset.Error
import FrameEngine.Text.Quoted

namespace FrameEngine.Asset

structure Database where
  root : Option AssetRoot := none
  /-- The path each id was first registered with, with slashes. -/
  paths : List (AssetId × String) := []
  extensions : List (AssetId × String) := []
  /-- Bytes given from memory, the latest first. -/
  memory : List (AssetId × ByteArray) := []

namespace Database

def path? (db : Database) (id : AssetId) : Option String :=
  (db.paths.find? (·.1 = id)).map (·.2)

def contains (db : Database) (id : AssetId) : Bool := (db.path? id).isSome

def extension? (db : Database) (id : AssetId) : Option String :=
  (db.extensions.find? (·.1 = id)).map (·.2)

def size (db : Database) : Nat := db.paths.length

def isEmpty (db : Database) : Bool := db.paths.isEmpty

def register (db : Database) (path : String) : AssetId × Database :=
  let id := AssetId.ofPath path
  if db.contains id then (id, db)
  else
    let path := Path.normalize path
    (id, { db with
      paths := (id, path) :: db.paths
      extensions := (id, Path.extension path) :: db.extensions })

@[simp] theorem register_fst (db : Database) (path : String) : (db.register path).1 = .ofPath path := by
  rw [register]
  split <;> rfl

@[simp] theorem root_register (db : Database) (path : String) : (db.register path).2.root = db.root := by
  rw [register]
  split <;> rfl

@[simp] theorem memory_register (db : Database) (path : String) : (db.register path).2.memory = db.memory := by
  rw [register]
  split <;> rfl

def insertBytes (db : Database) (path : String) (bytes : ByteArray) : AssetId × Database :=
  let (id, db) := db.register path
  (id, { db with memory := (id, bytes) :: db.memory })

def inMemory? (db : Database) (id : AssetId) : Option ByteArray :=
  (db.memory.find? (·.1 = id)).map (·.2)

def read (db : Database) (id : AssetId) : Except AssetError ByteArray :=
  match db.inMemory? id with
  | some bytes => .ok bytes
  | none => match db.path? id, db.root with
      | none, _ => .error (.unknownAsset id)
      | some path, none => .error (.notFound path)
      | some path, some root => match root.read path with
          | .ok bytes => .ok bytes
          | .error .notFound => .error (.notFound path)
          | .error cause => .error (.io cause)

def isAvailable (db : Database) (id : AssetId) : Bool :=
  (db.inMemory? id).isSome ||
    match db.path? id, db.root with
    | some path, some root => root.isFile path
    | _, _ => false

def describe (db : Database) (id : AssetId) : String := (db.path? id).getD id.text

def debugText (db : Database) : String :=
  let root := Text.Quoted.optional (db.root.map fun root => Text.Quoted.quote root.path)
  "AssetDb \x7b root: " ++ root ++ ", assets: " ++ toString db.size ++ " \x7d"

end Database

end FrameEngine.Asset
