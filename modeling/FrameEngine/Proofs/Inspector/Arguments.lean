import FrameEngine.Inspector.Options
import Mathlib.Data.List.Perm.Basic

namespace FrameEngine.Inspector.Options

section Writing

def flags : List String := ["--assets", "--material", "--cubemap", "--workers", "--blur"]

inductive Group
  | assets (path : String)
  | material (path : String)
  | cubemap (path : String)
  | workers (n : Nat)
  | blur
  deriving DecidableEq

namespace Group

def assets? : Group → Option String
  | .assets path => some path
  | _ => none

def material? : Group → Option String
  | .material path => some path
  | _ => none

def cubemap? : Group → Option String
  | .cubemap path => some path
  | _ => none

def workers? : Group → Option Nat
  | .workers n => some n
  | _ => none

end Group

def groups (r : Options) : List Group :=
  r.assets.toList.map .assets ++ r.materials.map .material ++ r.cubemap.toList.map .cubemap ++
    r.workers.toList.map .workers ++ if r.blur then [.blur] else []

structure IsDecimal (n : Nat) (text : String) : Prop where
  ne_nil : text.toList ≠ []
  digits : ∀ c ∈ text.toList, c.isDigit
  value : Nat.ofDigitChars 10 text.toList 0 = n

inductive Group.IsWritten : Group → List String → Prop
  | assets (path) : IsWritten (.assets path) ["--assets", path]
  | material (path) : IsWritten (.material path) ["--material", path]
  | cubemap (path) : IsWritten (.cubemap path) ["--cubemap", path]
  | workers {n text} (h : IsDecimal n text) : IsWritten (.workers n) ["--workers", text]
  | blur : IsWritten .blur ["--blur"]

/-- Arguments made of groups in their order, with any tokens but flags around them. -/
inductive IsLine : List Group → List String → Prop
  | nil : IsLine [] []
  | group {group groups tokens arguments} (h : group.IsWritten tokens) (rest : IsLine groups arguments) :
      IsLine (group :: groups) (tokens ++ arguments)
  | other {groups token arguments} (h : token ∉ flags) (rest : IsLine groups arguments) :
      IsLine groups (token :: arguments)

end Writing

section Counts

variable {n : Nat} {text : String} {digits : List Char}

theorem digit?_of_isDigit {c : Char} (h : c.isDigit) : digit? c = some (c.toNat - 48) := by
  have hrange : '0' ≤ c ∧ c ≤ '9' := by simpa [Char.isDigit, Char.le_def] using h
  rw [digit?, if_pos hrange]

/-- More digits do not make a number smaller. -/
theorem le_ofDigitChars (digits : List Char) (n : Nat) : n ≤ Nat.ofDigitChars 10 digits n := by
  induction digits generalizing n with
  | nil => exact Nat.le_refl n
  | cons c digits ih =>
      rw [Nat.ofDigitChars_cons]
      exact Nat.le_trans (by omega) (ih _)

/-- No number on the way to the last digit is too large if the whole is not. -/
theorem foldlM_addDigit (hdigits : ∀ c ∈ digits, c.isDigit) (hlimit : Nat.ofDigitChars 10 digits n < countLimit) :
    digits.foldlM addDigit n = some (Nat.ofDigitChars 10 digits n) := by
  induction digits generalizing n with
  | nil => rfl
  | cons c digits ih =>
      obtain ⟨hc, hrest⟩ := List.forall_mem_cons.mp hdigits
      rw [Nat.ofDigitChars_cons] at hlimit ⊢
      have hnow : 10 * n + (c.toNat - 48) < countLimit := Nat.lt_of_le_of_lt (le_ofDigitChars digits _) hlimit
      have hadd : addDigit n c = some (10 * n + (c.toNat - 48)) := by
        simp only [addDigit, digit?_of_isDigit hc, Option.bind_eq_bind, Option.bind_some, if_pos hnow]
      rw [List.foldlM_cons, hadd]
      exact ih hrest hlimit

theorem count?_of_isDecimal (h : IsDecimal n text) (hn : n < countLimit) : count? text = some n := by
  obtain ⟨hne, hdigits, hvalue⟩ := h
  rw [count?]
  split
  next heq =>
    rw [heq] at hdigits
    exact absurd (hdigits '+' List.mem_cons_self) (by decide)
  · rw [if_neg (by simpa using hne), foldlM_addDigit hdigits (hvalue.symm ▸ hn), hvalue]

end Counts

section Taking

variable {options : Options} {token : String} {tokens arguments : List String} {group : Group} {line : List Group}

def set (options : Options) : Group → Options
  | .assets path => { options with assets := some path }
  | .material path => { options with materials := options.materials ++ [path] }
  | .cubemap path => { options with cubemap := some path }
  | .workers n => { options with workers := some n }
  | .blur => { options with blur := true }

theorem take_other (h : token ∉ flags) : take options (token :: arguments) = take options arguments := by
  simp only [flags, List.mem_cons, List.not_mem_nil, or_false, not_or] at h
  obtain ⟨hassets, hmaterial, hcubemap, hworkers, hblur⟩ := h
  cases arguments with
  | nil => rw [take, take, if_neg hblur]
  | cons value rest =>
      rw [take, if_neg hassets, if_neg hmaterial, if_neg hcubemap, if_neg hworkers, if_neg hblur]

theorem take_group (h : group.IsWritten tokens) (hcount : ∀ n, group = .workers n → n < countLimit) :
    take options (tokens ++ arguments) = take (options.set group) arguments := by
  cases h with
  | assets path | material path | cubemap path =>
      rw [List.cons_append, List.cons_append, List.nil_append, take]
      simp [set]
  | @workers n text hdecimal =>
      rw [List.cons_append, List.cons_append, List.nil_append, take, count?_of_isDecimal hdecimal (hcount n rfl)]
      simp [set]
  | blur =>
      rw [List.cons_append, List.nil_append]
      cases arguments with
      | nil => rw [take, take, if_pos rfl, set]
      | cons value rest =>
          rw [take]
          simp [set]

/-- Taking arguments off stays in step with their groups. -/
theorem take_line (h : IsLine line arguments) (hcount : ∀ n, .workers n ∈ line → n < countLimit) :
    take options arguments = line.foldl set options := by
  induction h generalizing options with
  | nil => rw [take, List.foldl_nil]
  | group hwritten _ ih =>
      rw [take_group hwritten fun n hn => hcount n (hn ▸ List.mem_cons_self), List.foldl_cons]
      exact ih fun n hn => hcount n (List.mem_cons_of_mem _ hn)
  | other hother _ ih =>
      rw [take_other hother]
      exact ih hcount

end Taking

section Arrangement

variable {r : Options} {line : List Group}

theorem materials_foldl (line : List Group) (options : Options) :
    (line.foldl set options).materials = options.materials ++ line.filterMap Group.material? := by
  induction line generalizing options with
  | nil => simp
  | cons group line ih =>
      rw [List.foldl_cons, ih]
      cases group <;> simp [set, Group.material?, List.filterMap_cons]

/-- A field that each group sets or leaves alone has the latest of the values that groups give it. -/
theorem latest_foldl {β : Type} (field : Options → Option β) (value? : Group → Option β)
    (hset : ∀ options group, field (set options group) = (value? group).or (field options)) (line : List Group)
    (options : Options) :
    field (line.foldl set options) = (line.filterMap value?).getLast?.or (field options) := by
  induction line generalizing options with
  | nil => rfl
  | cons group line ih =>
      rw [List.foldl_cons, ih, hset]
      cases hvalue : value? group with
      | none => rw [List.filterMap_cons_none hvalue, Option.none_or]
      | some value =>
          rw [List.filterMap_cons_some hvalue, List.getLast?_cons, Option.some_or]
          cases (line.filterMap value?).getLast? <;> rfl

theorem eq_toList_of_perm {β : Type} {value? : Option β} {values : List β} (h : values.Perm value?.toList) :
    values = value?.toList := by
  cases value? with
  | none => exact List.perm_nil.mp h
  | some value => exact List.perm_singleton.mp h

/-- In whatever order the groups of options come, a field that at most one of them sets is the one of the options. -/
theorem field_foldl {β : Type} (field : Options → Option β) (value? : Group → Option β)
    (hset : ∀ options group, field (set options group) = (value? group).or (field options)) (hnone : field {} = none)
    (hvalue : r.groups.filterMap value? = (field r).toList) (h : line.Perm r.groups) :
    field (line.foldl set {}) = field r := by
  have hvalues : line.filterMap value? = (field r).toList := eq_toList_of_perm (hvalue ▸ h.filterMap value?)
  rw [latest_foldl field value? hset, hvalues, hnone, Option.or_none]
  cases field r <;> rfl

theorem blur_foldl (line : List Group) (options : Options) :
    (line.foldl set options).blur = (options.blur || decide (.blur ∈ line)) := by
  induction line generalizing options with
  | nil => simp
  | cons group line ih =>
      rw [List.foldl_cons, ih]
      cases group <;> simp [set]

theorem workers_mem_groups {n : Nat} : .workers n ∈ r.groups ↔ r.workers = some n := by
  simp [groups]

theorem blur_mem_groups : .blur ∈ r.groups ↔ r.blur := by
  simp [groups]

/-- The groups of options make these options, in any order that keeps the materials in theirs. -/
theorem foldl_groups (h : line.Perm r.groups) (hmaterials : line.filterMap Group.material? = r.materials) :
    line.foldl set {} = r := by
  have hassets : (line.foldl set {}).assets = r.assets :=
    field_foldl (fun options => options.assets) Group.assets? (by rintro options (_ | _ | _ | _ | _) <;> rfl) rfl
      (by simp [groups, Group.assets?, List.filterMap_append, List.filterMap_map, Function.comp_def]) h
  have hcubemap : (line.foldl set {}).cubemap = r.cubemap :=
    field_foldl (fun options => options.cubemap) Group.cubemap? (by rintro options (_ | _ | _ | _ | _) <;> rfl) rfl
      (by simp [groups, Group.cubemap?, List.filterMap_append, List.filterMap_map, Function.comp_def]) h
  have hworkers : (line.foldl set {}).workers = r.workers :=
    field_foldl (fun options => options.workers) Group.workers? (by rintro options (_ | _ | _ | _ | _) <;> rfl) rfl
      (by simp [groups, Group.workers?, List.filterMap_append, List.filterMap_map, Function.comp_def]) h
  have hblur : (line.foldl set {}).blur = r.blur := by
    rw [blur_foldl, Bool.false_or, Bool.eq_iff_iff, decide_eq_true_iff, h.mem_iff, blur_mem_groups]
  have hlist := materials_foldl line {}
  rw [List.nil_append, hmaterials] at hlist
  cases hresult : line.foldl set {} with
  | mk assets materials cubemap workers blur =>
      rw [hresult] at hassets hcubemap hworkers hblur hlist
      cases r
      congr

end Arrangement

/-- Options are taken off any arguments that are made of their groups, in any order that keeps the materials in theirs,
with any tokens but flags around them. Workers have to be few enough to be counted. -/
theorem ofArguments_of_line (r : Options) (hcount : ∀ n, r.workers = some n → n < countLimit) {line : List Group}
    {arguments : List String} (hgroups : line.Perm r.groups)
    (hmaterials : line.filterMap Group.material? = r.materials) (hline : IsLine line arguments) :
    ofArguments arguments = r := by
  have hworkers : ∀ n, .workers n ∈ line → n < countLimit :=
    fun n hn => hcount n (workers_mem_groups.mp (hgroups.mem_iff.mp hn))
  rw [ofArguments, take_line hline hworkers]
  exact foldl_groups hgroups hmaterials

/-- Values that look like flags, and other tokens around the groups; the flag behind `--material` is its value. -/
theorem ofArguments_of_line_flags :
    ofArguments ["many", "--blur", "--material", "--blur", "-v", "--workers", "007", "--assets", "--workers",
        "--material", "--material", "12", ""] =
      { assets := some "--workers", materials := ["--blur", "--material"], workers := some 7, blur := true } := by
  have hseven : IsDecimal 7 "007" := ⟨by decide, List.all_eq_true.mp (by decide), by decide⟩
  have hline : IsLine [.blur, .material "--blur", .workers 7, .assets "--workers", .material "--material"]
      ("many" :: (["--blur"] ++ (["--material", "--blur"] ++ ("-v" :: (["--workers", "007"] ++
        (["--assets", "--workers"] ++ (["--material", "--material"] ++ ["12", ""]))))))) := by
    apply IsLine.other (by decide)
    apply IsLine.group .blur
    apply IsLine.group (.material "--blur")
    apply IsLine.other (by decide)
    apply IsLine.group (.workers hseven)
    apply IsLine.group (.assets "--workers")
    apply IsLine.group (.material "--material")
    exact .other (by decide) (.other (by decide) .nil)
  refine ofArguments_of_line _ ?_ ?_ rfl hline
  · rintro n ⟨rfl⟩
    decide
  · decide

end FrameEngine.Inspector.Options
