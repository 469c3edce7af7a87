import Mathlib.Data.List.Basic
import Mathlib.Data.List.Perm.Basic

/-! # Multimaps that are walked with an iterator

A multimap is the list of its items, the latest first; an iterator over the
items of one key is a position among the values of that key. `eraseNth` erases
the item under such an iterator, which then stands on the next value. -/
namespace KmreManager.Lib

abbrev Multimap (κ ν : Type*) := List (κ × ν)

namespace Multimap

variable {κ ν : Type*} [DecidableEq κ] {m : Multimap κ ν} {k k' : κ} {v : ν} {n : Nat}

/-- The values of a key, the latest first. -/
def values (m : Multimap κ ν) (k : κ) : List ν :=
  (m.filter fun item => item.1 = k).map Prod.snd

/-- Erase the `n`-th item of a key. -/
def eraseNth : Multimap κ ν → κ → Nat → Multimap κ ν
  | [], _, _ => []
  | item :: m, k, n =>
    if item.1 = k then
      match n with
      | 0 => m
      | n + 1 => item :: eraseNth m k n
    else item :: eraseNth m k n

theorem mem_values : v ∈ m.values k ↔ (k, v) ∈ m := by
  unfold values
  rw [List.mem_map]
  constructor
  · rintro ⟨⟨k', v'⟩, hmem, rfl⟩
    obtain ⟨hm, hk⟩ := List.mem_filter.mp hmem
    obtain rfl : k' = k := by simpa using hk
    exact hm
  · intro hm
    exact ⟨(k, v), List.mem_filter.mpr ⟨hm, by simp⟩, rfl⟩

theorem values_cons (item : κ × ν) :
    values (item :: m) k = if item.1 = k then item.2 :: m.values k else m.values k := by
  unfold values
  by_cases hk : item.1 = k <;> simp [hk]

theorem values_eraseNth_self : (m.eraseNth k n).values k = (m.values k).eraseIdx n := by
  induction m generalizing n with
  | nil => rfl
  | cons item m ih =>
    by_cases hk : item.1 = k
    · cases n with
      | zero => simp [eraseNth, values_cons, hk]
      | succ n => simp [eraseNth, values_cons, hk, ih]
    · simp [eraseNth, values_cons, hk, ih]

theorem values_eraseNth_ne (h : k' ≠ k) : (m.eraseNth k n).values k' = m.values k' := by
  induction m generalizing n with
  | nil => rfl
  | cons item m ih =>
    by_cases hk : item.1 = k
    · have hne : item.1 ≠ k' := fun heq => h (heq.symm.trans hk)
      cases n with
      | zero => simp [eraseNth, values_cons, hk, h.symm]
      | succ n => simp [eraseNth, values_cons, hk, h.symm, ih]
    · simp [eraseNth, values_cons, hk, ih]

/-- Erasing takes out the item under the iterator and nothing else. -/
theorem perm_eraseNth (h : (m.values k)[n]? = some v) : m.Perm ((k, v) :: m.eraseNth k n) := by
  induction m generalizing n with
  | nil => cases h
  | cons item m ih =>
    obtain ⟨k', v'⟩ := item
    rw [values_cons] at h
    by_cases hk : k' = k
    · subst hk
      rw [if_pos rfl] at h
      cases n with
      | zero =>
        obtain rfl : v' = v := by simpa using h
        rw [eraseNth, if_pos rfl]
      | succ n =>
        have hrest := ih (by simpa using h)
        rw [eraseNth, if_pos rfl]
        exact (hrest.cons _).trans (List.Perm.swap _ _ _)
    · rw [if_neg hk] at h
      have hskip : eraseNth ((k', v') :: m) k n = (k', v') :: eraseNth m k n := by
        simp [eraseNth, hk]
      rw [hskip]
      exact ((ih h).cons _).trans (List.Perm.swap _ _ _)

end Multimap
end KmreManager.Lib
