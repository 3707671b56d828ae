import FrameEngine.Asset.Database
import FrameEngine.Proofs.Asset.Separators
import Mathlib.Data.List.Induction

namespace FrameEngine.Asset

inductive Filing
  | register (path : String)
  | insertBytes (path : String) (bytes : ByteArray)

namespace Filing

def path : Filing → String
  | .register path | .insertBytes path _ => path

def id (call : Filing) : AssetId := .ofPath call.path

def bytes? : Filing → Option ByteArray
  | .register _ => none
  | .insertBytes _ bytes => some bytes

def bytesFor? (call : Filing) (id : AssetId) : Option ByteArray := if call.id = id then call.bytes? else none

end Filing

def firstPath? (calls : List Filing) (id : AssetId) : Option String :=
  (calls.find? (·.id = id)).map fun call => Path.normalize call.path

def latestBytes? (calls : List Filing) (id : AssetId) : Option ByteArray :=
  calls.reverse.findSome? (·.bytesFor? id)

theorem firstPath?_append (calls : List Filing) (call : Filing) (id : AssetId) :
    firstPath? (calls ++ [call]) id =
      (firstPath? calls id).or (if call.id = id then some (Path.normalize call.path) else none) := by
  rw [firstPath?, List.find?_append, Option.map_or, firstPath?]
  by_cases h : call.id = id <;> simp [h]

theorem latestBytes?_append (calls : List Filing) (call : Filing) (id : AssetId) :
    latestBytes? (calls ++ [call]) id = (call.bytesFor? id).or (latestBytes? calls id) := by
  rw [latestBytes?, List.reverse_append, List.findSome?_append, latestBytes?]
  simp

namespace Database

variable {db : Database}

def perform (db : Database) : Filing → Database
  | .register path => (db.register path).2
  | .insertBytes path bytes => (db.insertBytes path bytes).2

def after (calls : List Filing) : Database := calls.foldl perform {}

theorem after_append (calls : List Filing) (call : Filing) : after (calls ++ [call]) = (after calls).perform call := by
  rw [after, List.foldl_append, List.foldl_cons, List.foldl_nil, after]

theorem insertBytes_eq (db : Database) (path : String) (bytes : ByteArray) :
    db.insertBytes path bytes = (.ofPath path, { (db.register path).2 with
      memory := (.ofPath path, bytes) :: (db.register path).2.memory }) := by
  rw [← db.register_fst path]
  rfl

section Register

variable (db) (path : String) (id : AssetId)

theorem path?_register : (db.register path).2.path? id =
    (db.path? id).or (if AssetId.ofPath path = id then some (Path.normalize path) else none) := by
  rw [register]
  by_cases hid : AssetId.ofPath path = id
  · subst hid
    cases hpath : db.path? (AssetId.ofPath path) with
    | none =>
        rw [if_neg (by simp [contains, hpath])]
        simp [path?]
    | some known =>
        rw [if_pos (by simp [contains, hpath])]
        simp [hpath]
  · simp only [hid, if_false, Option.or_none]
    split
    · rfl
    · simp [path?, hid]

/-- An id gets an extension just when it gets a path. -/
theorem extension?_register (h : ∀ id, db.extension? id = (db.path? id).map Path.extension) :
    (db.register path).2.extension? id = ((db.register path).2.path? id).map Path.extension := by
  rw [register]
  split
  · exact h id
  · by_cases hid : AssetId.ofPath path = id
    · simp [extension?, path?, hid]
    · have hkept := h id
      rw [extension?, path?] at hkept
      simp only [extension?, path?, List.find?_cons, hid, decide_false]
      exact hkept

@[simp] theorem inMemory?_register : (db.register path).2.inMemory? id = db.inMemory? id := by
  rw [inMemory?, memory_register, inMemory?]

end Register

section Known

variable {id : AssetId}

theorem contains_register (path : String) : (db.register path).2.contains (.ofPath path) := by
  rw [contains, path?_register, if_pos rfl]
  cases db.path? (.ofPath path) <;> rfl

theorem path?_register_of_contains (h : db.contains id) (path : String) :
    (db.register path).2.path? id = db.path? id := by
  rw [contains] at h
  obtain ⟨known, hknown⟩ := Option.isSome_iff_exists.mp h
  rw [path?_register, hknown]
  rfl

theorem path?_register_of_ne {path : String} (h : id ≠ .ofPath path) : (db.register path).2.path? id = db.path? id := by
  rw [path?_register, if_neg h.symm, Option.or_none]

theorem read_register_of_contains (h : db.contains id) (path : String) : (db.register path).2.read id = db.read id := by
  rw [read, inMemory?_register, path?_register_of_contains h, root_register, read]

end Known

theorem inMemory?_insertBytes (db : Database) (path : String) (bytes : ByteArray) (id : AssetId) :
    (db.insertBytes path bytes).2.inMemory? id =
      if AssetId.ofPath path = id then some bytes else db.inMemory? id := by
  rw [insertBytes_eq, inMemory?, List.find?_cons]
  by_cases hid : AssetId.ofPath path = id <;> simp [hid, inMemory?]

structure Reflects (calls : List Filing) (db : Database) : Prop where
  root : db.root = none
  path : ∀ id, db.path? id = firstPath? calls id
  extension : ∀ id, db.extension? id = (db.path? id).map Path.extension
  bytes : ∀ id, db.inMemory? id = latestBytes? calls id

theorem reflects_new : Reflects [] {} := ⟨rfl, fun _ => rfl, fun _ => rfl, fun _ => rfl⟩

variable {calls : List Filing}

theorem Reflects.register (h : Reflects calls db) (path : String) :
    Reflects (calls ++ [.register path]) (db.register path).2 where
  root := (db.root_register path).trans h.root
  path id := by
    rw [path?_register, firstPath?_append, h.path, Filing.id, Filing.path]
  extension id := db.extension?_register path id h.extension
  bytes id := by
    rw [inMemory?_register, latestBytes?_append, h.bytes]
    simp [Filing.bytesFor?, Filing.bytes?]

theorem Reflects.insertBytes (h : Reflects calls db) (path : String) (bytes : ByteArray) :
    Reflects (calls ++ [.insertBytes path bytes]) (db.insertBytes path bytes).2 where
  root := (db.root_register path).trans h.root
  path id := by
    -- the bytes change nothing of what registering the path does
    have hregistered := (h.register path).path id
    rw [firstPath?_append] at hregistered ⊢
    exact hregistered
  extension id := db.extension?_register path id h.extension
  bytes id := by
    rw [inMemory?_insertBytes, latestBytes?_append, h.bytes, Filing.bytesFor?, Filing.id, Filing.path]
    split
    · rfl
    · simp

theorem Reflects.perform (h : Reflects calls db) (call : Filing) : Reflects (calls ++ [call]) (db.perform call) := by
  cases call with
  | register path => exact h.register path
  | insertBytes path bytes => exact h.insertBytes path bytes

theorem reflects_after (calls : List Filing) : Reflects calls (after calls) := by
  induction calls using List.reverseRecOn with
  | nil => exact reflects_new
  | append_singleton calls call ih =>
      rw [after_append]
      exact ih.perform call

/-- Without a root directory the bytes that are read are those in memory. -/
theorem read_of_root (hroot : db.root = none) (id : AssetId) :
    db.read id = match db.inMemory? id, db.path? id with
      | some bytes, _ => .ok bytes
      | none, none => .error (.unknownAsset id)
      | none, some path => .error (.notFound path) := by
  rw [read, hroot]
  cases db.inMemory? id with
  | some bytes => rfl
  | none => cases db.path? id <;> rfl

section Reading

variable (h : Reflects calls db)
include h

theorem Reflects.read (id : AssetId) :
    db.read id = match latestBytes? calls id, firstPath? calls id with
      | some bytes, _ => .ok bytes
      | none, none => .error (.unknownAsset id)
      | none, some path => .error (.notFound path) := by
  rw [read_of_root h.root, h.bytes, h.path]

theorem Reflects.read_ok_iff (id : AssetId) (bytes : ByteArray) :
    db.read id = .ok bytes ↔ latestBytes? calls id = some bytes := by
  rw [h.read]
  cases latestBytes? calls id with
  | some found => simp
  | none => cases firstPath? calls id <;> simp

end Reading

/-- A path is kept as its own text unless another text of the same hash was registered before it. What is read of
another path changes with the bytes of this one just if the two have the same hash. -/
theorem paths_apart_unless_hashes_meet (calls : List Filing) (p q : String) :
    (((after calls).register p).2.path? ((after calls).register p).1 = some (Path.normalize p) ↔
      ∀ text, firstPath? calls (.ofPath p) = some text → text = Path.normalize p) ∧
    ∀ bytes, ((after calls).insertBytes p bytes).2.read (.ofPath q) =
      if AssetId.ofPath p = AssetId.ofPath q then .ok bytes else (after calls).read (.ofPath q) := by
  have h := reflects_after calls
  constructor
  · rw [register_fst, path?_register, h.path]
    cases firstPath? calls (.ofPath p) <;> simp
  · intro bytes
    rw [(h.insertBytes p bytes).read, h.read, latestBytes?_append, firstPath?_append, Filing.bytesFor?, Filing.id,
      Filing.path, Filing.bytes?]
    by_cases hid : AssetId.ofPath p = AssetId.ofPath q
    · simp [hid]
    · simp [hid]

/-- Two paths of the same hash: the second is taken for the first, and its bytes replace those of the first. -/
theorem paths_mixed_where_hashes_meet :
    Path.normalize "old_clay_floor_r.png" ≠ Path.normalize "dry_tile_grass.png" ∧
    ((after [.register "old_clay_floor_r.png"]).register "dry_tile_grass.png").2.path?
      (.ofPath "dry_tile_grass.png") = some "old_clay_floor_r.png" ∧
    (after [.insertBytes "old_clay_floor_r.png" ⟨#[1]⟩]).read (.ofPath "old_clay_floor_r.png") = .ok ⟨#[1]⟩ ∧
    ((after [.insertBytes "old_clay_floor_r.png" ⟨#[1]⟩]).insertBytes "dry_tile_grass.png" ⟨#[2]⟩).2.read
      (.ofPath "old_clay_floor_r.png") = .ok ⟨#[2]⟩ := by
  refine ⟨by decide, by decide, ?_, ?_⟩
  · rw [(reflects_after _).read_ok_iff]
    decide
  · rw [((reflects_after _).insertBytes _ _).read_ok_iff]
    decide

end Database

end FrameEngine.Asset
