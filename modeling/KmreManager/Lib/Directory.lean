import Mathlib.Data.List.Basic

/-! # A directory of files

A directory knows the names of its files, each once, and what each holds. -/
namespace KmreManager.Lib

structure Directory (ν κ : Type) where
  content : ν → Option κ
  names : List ν
  nodup : names.Nodup
  mem_names : ∀ n, n ∈ names ↔ content n ≠ none

namespace Directory

variable {ν κ : Type}

def empty : Directory ν κ := ⟨fun _ => none, [], List.nodup_nil, by simp⟩

section Operations
variable [DecidableEq ν] (d : Directory ν κ) (n : ν)

/-- Make the file, or replace what it holds. -/
def write (c : κ) : Directory ν κ where
  content m := if m = n then some c else d.content m
  names := if n ∈ d.names then d.names else n :: d.names
  nodup := by
    split
    · exact d.nodup
    · rename_i hn
      exact List.nodup_cons.mpr ⟨hn, d.nodup⟩
  mem_names m := by
    by_cases hm : m = n
    · subst hm
      split <;> simp_all
    · split <;> simp [hm, d.mem_names]

def remove : Directory ν κ where
  content m := if m = n then none else d.content m
  names := d.names.filter fun m => m ≠ n
  nodup := d.nodup.filter _
  mem_names m := by
    by_cases hm : m = n
    · simp [hm]
    · simp [hm, d.mem_names]

variable {d n} {m : ν} {c : κ}

@[simp] theorem content_write_self : (d.write n c).content n = some c := if_pos rfl

theorem content_write_ne (h : m ≠ n) : (d.write n c).content m = d.content m := if_neg h

@[simp] theorem content_remove_self : (d.remove n).content n = none := if_pos rfl

theorem content_remove_ne (h : m ≠ n) : (d.remove n).content m = d.content m := if_neg h

end Operations

end Directory
end KmreManager.Lib
