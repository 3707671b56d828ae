import FrameEngine.Proofs.Slots.Conservation
import FrameEngine.Texture.Uploader

namespace FrameEngine.Texture

open FrameEngine.Slots

theorem made_cons (texture : GpuTexture) (calls : List (Entry GpuTexture)) :
    (Entry.made texture :: calls).filterMap Entry.made? = texture :: calls.filterMap Entry.made? := rfl

theorem given_cons (texture : GpuTexture) (calls : List (Entry GpuTexture)) :
    (Entry.given texture :: calls).filterMap Entry.given? = texture :: calls.filterMap Entry.given? := rfl

def GpuTexture.handles (texture : GpuTexture) : List Nat := [texture.image, texture.view]

namespace Uploader

def Uploads (u : Uploader) (texture : GpuTexture) (u' : Uploader) : Prop :=
  (∃ name data, u.uploadTexture name data = .ok (texture, u')) ∨
    ∃ name data, u.uploadCubemap name data = .ok (texture, u')

/-- Calls take the uploader from one state to another: images that it makes, and that it takes back. Slots
that are unloaded are no concern of it. -/
inductive Calls : Uploader → List (Entry GpuTexture) → Uploader → Prop
  | nil (u) : Calls u [] u
  | upload {u texture u' calls v} (hmade : u.Uploads texture u') (rest : Calls u' calls v) :
      Calls u (.made texture :: calls) v
  | destroy {u calls v} (texture) (rest : Calls u.destroy calls v) : Calls u (.given texture :: calls) v
  | unloaded {u calls v} (slot) (rest : Calls u calls v) : Calls u (.unloaded slot :: calls) v

/-- There is one image more, and it has the next two handles. -/
theorem Uploads.eq {u u' : Uploader} {texture : GpuTexture} (h : u.Uploads texture u') :
    texture.handles = [2 * u.created + 1, 2 * u.created + 2] ∧
      ∃ bytes, u' = { u with created := u.created + 1, bytes := bytes } := by
  rcases h with ⟨name, data, h⟩ | ⟨name, data, h⟩
  · rw [uploadTexture] at h
    split at h
    · cases h
    · cases h
      exact ⟨rfl, _, rfl⟩
  · rw [uploadCubemap] at h
    split at h
    · cases h
    · cases h
      exact ⟨rfl, _, rfl⟩

namespace Calls

variable {u v w : Uploader} {calls more : List (Entry GpuTexture)}

theorem append (h : Calls u calls v) (h' : Calls v more w) : Calls u (calls ++ more) w := by
  induction h with
  | nil => exact h'
  | upload hmade _ ih => exact .upload hmade (ih h')
  | destroy texture _ ih => exact .destroy texture (ih h')
  | unloaded slot _ ih => exact .unloaded slot (ih h')

theorem refused (h : Calls u calls v) : v.refused = u.refused := by
  induction h with
  | nil => rfl
  | upload hmade _ ih =>
      obtain ⟨_, _, rfl⟩ := hmade.eq
      exact ih
  | destroy texture _ ih => exact ih
  | unloaded slot _ ih => exact ih

theorem created (h : Calls u calls v) : v.created = u.created + (calls.filterMap Entry.made?).length := by
  induction h with
  | nil => rfl
  | @upload u texture u' calls v hmade _ ih =>
      obtain ⟨_, _, rfl⟩ := hmade.eq
      change v.created = u.created + 1 + _ at ih
      rw [ih, made_cons, List.length_cons]
      omega
  | destroy texture _ ih => exact ih
  | unloaded slot _ ih => exact ih

theorem destroyed (h : Calls u calls v) :
    v.destroyed = u.destroyed + (calls.filterMap Entry.given?).length := by
  induction h with
  | nil => rfl
  | upload hmade _ ih =>
      obtain ⟨_, _, rfl⟩ := hmade.eq
      exact ih
  | @destroy u calls v texture _ ih =>
      change v.destroyed = u.destroyed + 1 + _ at ih
      rw [ih, given_cons, List.length_cons]
      omega
  | unloaded slot _ ih => exact ih

/-- The handles of all images that are made are consecutive numbers. -/
theorem handles (h : Calls u calls v) : (calls.filterMap Entry.made?).flatMap GpuTexture.handles =
    List.range' (2 * u.created + 1) (2 * (calls.filterMap Entry.made?).length) := by
  induction h with
  | nil => rfl
  | @upload u texture u' calls v hmade _ ih =>
      obtain ⟨hhandles, _, rfl⟩ := hmade.eq
      rw [made_cons, List.flatMap_cons, hhandles, ih, List.length_cons,
        Nat.mul_succ 2 (List.length _), List.range'_succ, List.range'_succ]
      rfl
  | destroy texture _ ih => exact ih
  | unloaded slot _ ih => exact ih

theorem handles_nodup (h : Calls u calls v) :
    ((calls.filterMap Entry.made?).flatMap GpuTexture.handles).Nodup := by
  rw [h.handles]
  exact List.nodup_range'

theorem handles_pos (h : Calls u calls v) :
    ∀ handle ∈ (calls.filterMap Entry.made?).flatMap GpuTexture.handles, 0 < handle := by
  intro handle hmem
  rw [h.handles, List.mem_range'_1] at hmem
  omega

end Calls

end Uploader

end FrameEngine.Texture
