import FrameEngine.Proofs.Asset.Registry

namespace FrameEngine.Asset.Database

def registerAll (db : Database) (paths : List String) : Database :=
  paths.foldl (fun db path => (db.register path).2) db

/-- Databases with the same assets, but one of them has `bytes` in the one database and `bytes'` in the other. It stays
so when paths are registered. -/
structure SameBut (id : AssetId) (bytes bytes' : ByteArray) (db db' : Database) : Prop where
  paths : db'.paths = db.paths
  extensions : db'.extensions = db.extensions
  elsewhere : ∀ paths other, other ≠ id → (db'.registerAll paths).read other = (db.registerAll paths).read other
  content : db.read id = .ok bytes
  content' : db'.read id = .ok bytes'

variable {id : AssetId} {bytes bytes' : ByteArray} {db db' : Database}

theorem read_register_of_ok (h : db.read id = .ok bytes) (path : String) :
    (db.register path).2.read id = .ok bytes := by
  cases hmemory : db.inMemory? id with
  | some known =>
      rw [read, hmemory] at h
      rw [read, inMemory?_register, hmemory]
      exact h
  | none =>
      have hcontains : db.contains id := by
        rw [read, hmemory] at h
        rw [contains, Option.isSome_iff_ne_none]
        intro hpath
        rw [hpath] at h
        cases h
      rw [read_register_of_contains hcontains, h]

section Paths

variable (h : db'.paths = db.paths)

include h

theorem path?_congr (other : AssetId) : db'.path? other = db.path? other := by rw [path?, path?, h]

theorem contains_congr (other : AssetId) : db'.contains other = db.contains other := by
  rw [contains, contains, path?_congr h]

theorem paths_register_congr (path : String) : (db'.register path).2.paths = (db.register path).2.paths := by
  rw [register, register, contains_congr h]
  split
  · exact h
  · exact congrArg ((_, Path.normalize path) :: ·) h

/-- What is in memory differs for other ids alone, and so it stays. -/
theorem read_registerAll_congr {other : AssetId} (hroot : db'.root = db.root)
    (hmemory : db'.inMemory? other = db.inMemory? other) (paths : List String) :
    (db'.registerAll paths).read other = (db.registerAll paths).read other := by
  induction paths generalizing db db' with
  | nil =>
      rw [registerAll, registerAll, List.foldl_nil, List.foldl_nil, read, read, hmemory, path?_congr h, hroot]
  | cons path paths ih =>
      apply ih (paths_register_congr h path)
      · rw [root_register, root_register, hroot]
      · rw [inMemory?_register, inMemory?_register, hmemory]

end Paths

theorem SameBut.describe (h : db.SameBut id bytes bytes' db') (other : AssetId) :
    db'.describe other = db.describe other := by
  rw [Database.describe, Database.describe, path?_congr h.paths]

theorem SameBut.register (h : db.SameBut id bytes bytes' db') (path : String) :
    (db.register path).2.SameBut id bytes bytes' (db'.register path).2 where
  paths := paths_register_congr h.paths path
  extensions := by
    rw [Database.register, Database.register, contains_congr h.paths]
    split
    · exact h.extensions
    · exact congrArg ((_, Path.extension (Path.normalize path)) :: ·) h.extensions
  elsewhere paths := h.elsewhere (path :: paths)
  content := read_register_of_ok h.content path
  content' := read_register_of_ok h.content' path

theorem read_insertBytes (db : Database) (path : String) (bytes : ByteArray) :
    (db.insertBytes path bytes).2.read (.ofPath path) = .ok bytes := by
  rw [read, inMemory?_insertBytes, if_pos rfl]

/-- Whatever there was before, two databases are the same but for what was put under one path. -/
theorem sameBut_insertBytes (db : Database) (path : String) (bytes bytes' : ByteArray) :
    (db.insertBytes path bytes).2.SameBut (.ofPath path) bytes bytes' (db.insertBytes path bytes').2 where
  paths := rfl
  extensions := rfl
  elsewhere paths other hother := by
    apply read_registerAll_congr
    · rfl
    · rfl
    · rw [inMemory?_insertBytes, inMemory?_insertBytes, if_neg hother.symm, if_neg hother.symm]
  content := read_insertBytes db path bytes
  content' := read_insertBytes db path bytes'

end FrameEngine.Asset.Database
