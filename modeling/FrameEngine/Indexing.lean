namespace FrameEngine.Indexing

variable {α : Type} {n : Nat}

theorem get_set_self (v : Vector α n) (i : Fin n) (a : α) : (v.set i.val a i.isLt).get i = a :=
  Vector.getElem_set_self i.isLt

theorem get_set_of_ne (v : Vector α n) {i j : Fin n} (a : α) (h : i ≠ j) :
    (v.set i.val a i.isLt).get j = v.get j :=
  Vector.getElem_set_ne i.isLt j.isLt fun hij => h (Fin.ext hij)

end FrameEngine.Indexing
