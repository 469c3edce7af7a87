import Mathlib.Data.List.Basic

/-! # Iterators that change the list they walk through

A Java-style iterator stands between two elements: it returns the next one and
steps over it, and the element it has stepped over last can be replaced or
taken out. The two relations say where it stands in terms of the elements
before it and after it, so that a loop is an induction on those ahead. -/
namespace KmreManager.Lib.MutableIterator

/-- The position of the next element, and of the one returned last. -/
structure Cursor where
  i : Nat := 0
  n : Option Nat := none
deriving DecidableEq

variable {α : Type*} {l done rest : List α} {c : Cursor} {x : α}

def hasNext (l : List α) (c : Cursor) : Bool := c.i ≠ l.length

/-- `n = i++` -/
def Cursor.next (c : Cursor) : Cursor := ⟨c.i + 1, some c.i⟩

/-- The element returned last is assigned to. -/
def modify (l : List α) (c : Cursor) (f : α → α) : List α :=
  match c.n with
  | some k => l.modify k f
  | none => l

/-- The element returned last is taken out, once. -/
def remove (l : List α) (c : Cursor) : List α × Cursor :=
  match c.n with
  | some k => (l.eraseIdx k, ⟨k, none⟩)
  | none => (l, c)

/-- The iterator stands behind `done`. -/
structure At (l : List α) (c : Cursor) (done rest : List α) : Prop where
  list : l = done ++ rest
  position : c.i = done.length

/-- It has just returned `x`. -/
structure On (l : List α) (c : Cursor) (done : List α) (x : α) (rest : List α) : Prop where
  list : l = done ++ x :: rest
  position : c.i = done.length + 1
  last : c.n = some done.length

theorem At.start (l : List α) : At l {} [] l := ⟨rfl, rfl⟩

theorem At.hasNext_iff (h : At l c done rest) : hasNext l c = true ↔ rest ≠ [] := by
  rw [hasNext, decide_eq_true_iff, h.list, h.position, List.length_append]
  cases rest <;> simp

theorem At.get (h : At l c done (x :: rest)) : l[c.i]? = some x := by
  rw [h.list, h.position, List.getElem?_append_right (Nat.le_refl _), Nat.sub_self]
  rfl

theorem At.next (h : At l c done (x :: rest)) : On l c.next done x rest :=
  ⟨h.list, by rw [Cursor.next, h.position], by rw [Cursor.next, h.position]⟩

theorem On.keep (h : On l c done x rest) : At l c (done ++ [x]) rest :=
  ⟨by rw [h.list, List.append_assoc]; rfl, by rw [h.position, List.length_append]; rfl⟩

theorem On.modify_eq (h : On l c done x rest) (f : α → α) :
    modify l c f = done ++ f x :: rest := by
  rw [modify, h.last, h.list]
  exact List.modifyTailIdx_add (List.modifyHead f) 0 done (x :: rest)

theorem On.modify (h : On l c done x rest) (f : α → α) :
    On (modify l c f) c done (f x) rest :=
  ⟨h.modify_eq f, h.position, h.last⟩

theorem On.remove_eq (h : On l c done x rest) :
    remove l c = (done ++ rest, ⟨done.length, none⟩) := by
  rw [remove, h.last, h.list]
  simp [List.eraseIdx_append_of_length_le]

theorem On.remove (h : On l c done x rest) : At (remove l c).1 (remove l c).2 done rest := by
  rw [h.remove_eq]
  exact ⟨rfl, rfl⟩

end KmreManager.Lib.MutableIterator
