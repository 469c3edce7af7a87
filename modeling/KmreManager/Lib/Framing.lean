import Mathlib.Data.List.Basic

/-! # Frames that say how long they are

A value is written as a frame, and the frame at the front of some bytes tells
its length whatever follows it. Frames written one after another are then taken
off the front one by one. -/
namespace KmreManager.Lib

structure Framing (α β : Type*) where
  encode : α → List β
  /-- The length of the frame at the front. -/
  size : List β → Nat
  size_encode : ∀ a rest, size (encode a ++ rest) = (encode a).length
  encode_ne_nil : ∀ a, encode a ≠ []

namespace Framing

variable {α β : Type*} (f : Framing α β)

/-- Frames one after another. -/
def bytes (as : List α) : List β := as.flatMap f.encode

@[simp] theorem bytes_nil : f.bytes [] = [] := rfl

@[simp] theorem bytes_cons (a : α) (as : List α) :
    f.bytes (a :: as) = f.encode a ++ f.bytes as := rfl

@[simp] theorem bytes_append (as bs : List α) : f.bytes (as ++ bs) = f.bytes as ++ f.bytes bs :=
  List.flatMap_append

variable {f} {a : α} {as : List α} {rest : List β}

theorem bytes_eq_nil : f.bytes as = [] ↔ as = [] := by
  cases as with
  | nil => simp
  | cons a as => simp [f.encode_ne_nil]

theorem size_eq : f.size (f.bytes (a :: as) ++ rest) = (f.encode a).length := by
  rw [bytes_cons, List.append_assoc, f.size_encode]

end Framing
end KmreManager.Lib
