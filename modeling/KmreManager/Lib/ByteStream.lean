import Mathlib.Data.List.Basic

/-! # A stream of items in one direction

What is put in at one end comes out at the other in the same order, with no
trace of where one piece ended and the next began. Two sides that agree on the
lengths of their pieces exchange the pieces. -/
namespace KmreManager.Lib

structure ByteStream (β : Type*) where
  put : List β
  taken : List β
  inFlight : List β
  conserved : taken ++ inFlight = put

namespace ByteStream

variable {β : Type*}

def empty : ByteStream β := ⟨[], [], [], rfl⟩

def write (s : ByteStream β) (items : List β) : ByteStream β where
  put := s.put ++ items
  taken := s.taken
  inFlight := s.inFlight ++ items
  conserved := by rw [← List.append_assoc, s.conserved]

def read (s : ByteStream β) (n : Nat) : ByteStream β where
  put := s.put
  taken := s.taken ++ s.inFlight.take n
  inFlight := s.inFlight.drop n
  conserved := by rw [List.append_assoc, List.take_append_drop, s.conserved]

variable {s : ByteStream β} {items : List β} {n : Nat} {xs ys : List (List β)}

@[simp] theorem empty_put : (empty : ByteStream β).put = [] := rfl

@[simp] theorem empty_taken : (empty : ByteStream β).taken = [] := rfl

@[simp] theorem write_put : (s.write items).put = s.put ++ items := rfl

@[simp] theorem write_taken : (s.write items).taken = s.taken := rfl

@[simp] theorem read_put : (s.read n).put = s.put := rfl

@[simp] theorem read_taken : (s.read n).taken = s.taken ++ s.inFlight.take n := rfl

theorem taken_prefix (s : ByteStream β) : s.taken <+: s.put := ⟨s.inFlight, s.conserved⟩

/-- Pieces of the same lengths out of the same items are the same pieces. -/
theorem pieces_prefix (hlength : xs.map List.length <+: ys.map List.length)
    (h : xs.flatten <+: ys.flatten) : xs <+: ys := by
  induction xs generalizing ys with
  | nil => exact List.nil_prefix
  | cons x xs ih =>
    cases ys with
    | nil => simp at hlength
    | cons y ys =>
      obtain ⟨hfirst, hrest⟩ := List.cons_prefix_cons.mp hlength
      rw [List.flatten_cons, List.flatten_cons] at h
      obtain ⟨more, hmore⟩ := h
      rw [List.append_assoc] at hmore
      obtain ⟨rfl, hflatten⟩ := List.append_inj hmore hfirst
      exact List.cons_prefix_cons.mpr ⟨rfl, ih hrest ⟨more, hflatten⟩⟩

end ByteStream
end KmreManager.Lib
