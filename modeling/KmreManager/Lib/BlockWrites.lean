import Mathlib.Data.List.Basic
import Mathlib.Algebra.BigOperators.Ring.List
import Mathlib.Algebra.Ring.Nat

/-! # Blocks written to a taker that may take part of one

A writer hands over blocks of one length; of each block the taker takes a
beginning, which may be empty or the whole block. What was taken is a sequence
of whole blocks, at every moment, exactly when no block was taken in part. -/
namespace KmreManager.Lib.BlockWrites

variable {β : Type*} {size : Nat}

/-- A block that was handed over, and how much of it was taken. -/
structure Write (β : Type*) where
  block : List β
  taken : Nat
deriving DecidableEq

namespace Write

def bytes (w : Write β) : List β := w.block.take w.taken

/-- The block was taken as a whole or not at all. -/
def AllOrNone (w : Write β) : Prop := w.taken = 0 ∨ w.taken = w.block.length

theorem bytes_eq_block {w : Write β} : w.bytes = w.block ↔ w.block.length ≤ w.taken :=
  List.take_eq_self_iff _

instance (w : Write β) : Decidable w.AllOrNone := inferInstanceAs (Decidable (_ ∨ _))

/-- The blocks have the length `size`, and no more than that is taken. -/
structure Fits (size : Nat) (w : Write β) : Prop where
  length : w.block.length = size
  taken : w.taken ≤ size

end Write

/-- All that was taken. -/
def transmitted (writes : List (Write β)) : List β := writes.flatMap Write.bytes

/-- What was taken is a sequence of whole blocks out of those handed over. -/
def Whole (writes : List (Write β)) : Prop :=
  ∃ blocks : List (List β), blocks.Sublist (writes.map Write.block) ∧
    transmitted writes = blocks.flatten

variable {writes : List (Write β)} {w : Write β}

@[simp] theorem transmitted_nil : transmitted ([] : List (Write β)) = [] := rfl

@[simp] theorem transmitted_append (writes more : List (Write β)) :
    transmitted (writes ++ more) = transmitted writes ++ transmitted more :=
  List.flatMap_append

@[simp] theorem transmitted_singleton (w : Write β) : transmitted [w] = w.bytes := by
  simp [transmitted]

/-- If the blocks so far were taken completely, the next one is when what is
taken of it is that block. -/
theorem transmitted_append_eq {blocks : List (List β)} {block : List β} {more : List (Write β)}
    (h : transmitted writes = blocks.flatten) :
    transmitted (writes ++ more) = (blocks ++ [block]).flatten ↔ transmitted more = block := by
  rw [transmitted_append, h, List.flatten_append, List.flatten_singleton,
    List.append_cancel_left_eq]

theorem Whole.nil : Whole ([] : List (Write β)) := ⟨[], .slnil, rfl⟩

theorem Whole.concat (h : Whole writes) (hw : w.AllOrNone) : Whole (writes ++ [w]) := by
  obtain ⟨blocks, hsub, heq⟩ := h
  rw [Whole, List.map_append, transmitted_append, transmitted_singleton, heq]
  obtain hnone | hall := hw
  · refine ⟨blocks, hsub.trans (List.sublist_append_left _ _), ?_⟩
    rw [Write.bytes, hnone, List.take_zero, List.append_nil]
  · refine ⟨blocks ++ [w.block], hsub.append (List.Sublist.refl _), ?_⟩
    rw [Write.bytes, hall, List.take_length, List.flatten_append, List.flatten_singleton]

/-- Whole blocks, whole multiples of their length. -/
theorem Whole.dvd_length (h : Whole writes) (hfits : ∀ w ∈ writes, w.Fits size) :
    size ∣ (transmitted writes).length := by
  obtain ⟨blocks, hsub, heq⟩ := h
  rw [heq, List.length_flatten]
  refine List.dvd_sum fun n hn => ?_
  obtain ⟨block, hblock, rfl⟩ := List.mem_map.mp hn
  obtain ⟨w, hw, rfl⟩ := List.mem_map.mp (hsub.subset hblock)
  exact (hfits w hw).length ▸ dvd_rfl

/-- A block taken in part shifts what follows: the sequence of whole blocks is
broken. -/
theorem Whole.not_concat (h : Whole writes) (hfits : ∀ w ∈ writes, w.Fits size)
    (hw : w.Fits size) (hpart : ¬ w.AllOrNone) : ¬ Whole (writes ++ [w]) := by
  intro hwhole
  have hbefore := h.dvd_length hfits
  have hall : ∀ x ∈ writes ++ [w], x.Fits size := by
    intro x hx
    obtain hx | hx := List.mem_append.mp hx
    · exact hfits x hx
    · exact List.mem_singleton.mp hx ▸ hw
  have hafter := hwhole.dvd_length hall
  have hlength : w.bytes.length = w.taken := by
    rw [Write.bytes, List.length_take, hw.length, Nat.min_eq_left hw.taken]
  rw [transmitted_append, List.length_append, transmitted_singleton, hlength,
    Nat.dvd_add_right hbefore] at hafter
  have hpos : w.taken ≠ 0 := fun hzero => hpart (.inl hzero)
  have hle := Nat.le_of_dvd (Nat.pos_of_ne_zero hpos) hafter
  exact hpart (.inr ((Nat.le_antisymm hw.taken hle).trans hw.length.symm))

end KmreManager.Lib.BlockWrites
