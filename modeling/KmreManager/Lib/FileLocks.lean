import Mathlib.Logic.Function.Basic

/-! # Advisory locks of whole files

A lock belongs to the open description that took it, and excludes every other
description of the same file, in whatever process. It goes with its
description. -/
namespace KmreManager.Lib

structure FileLocks (δ ι : Type*) where
  /-- the file of an open description -/
  file : δ → Option ι
  holder : ι → Option δ
  sound : ∀ i d, holder i = some d → file d = some i

namespace FileLocks

variable {δ ι : Type*} [DecidableEq δ] [DecidableEq ι]

def empty : FileLocks δ ι := ⟨fun _ => none, fun _ => none, fun _ _ h => by cases h⟩

def unlock (l : FileLocks δ ι) (d : δ) : FileLocks δ ι where
  file := l.file
  holder i := if l.holder i = some d then none else l.holder i
  sound i e h := by
    split at h
    · cases h
    · exact l.sound i e h

omit [DecidableEq ι] in
theorem unlock_holder {l : FileLocks δ ι} {d e : δ} {i : ι} :
    (l.unlock d).holder i = some e ↔ e ≠ d ∧ l.holder i = some e := by
  have hholder : (l.unlock d).holder i = if l.holder i = some d then none else l.holder i := rfl
  rw [hholder]
  constructor
  · intro h
    split at h
    next => cases h
    next hd => exact ⟨fun hed => hd (hed ▸ h), h⟩
  · rintro ⟨hne, h⟩
    rw [if_neg fun hd => hne (Option.some.inj (h.symm.trans hd)), h]

def close (l : FileLocks δ ι) (d : δ) : FileLocks δ ι where
  file := Function.update l.file d none
  holder := (l.unlock d).holder
  sound i e h := by
    obtain ⟨hne, hi⟩ := unlock_holder.mp h
    rw [Function.update_of_ne hne]
    exact l.sound i e hi

/-- A new description of a file, in place of the one that had its number. -/
def openFile (l : FileLocks δ ι) (d : δ) (i : ι) : FileLocks δ ι where
  file := Function.update l.file d (some i)
  holder := (l.close d).holder
  sound j e h := by
    obtain ⟨hne, hj⟩ := unlock_holder.mp h
    rw [Function.update_of_ne hne]
    exact l.sound j e hj

/-- `flock` with `LOCK_EX | LOCK_NB` gets the lock. -/
def Free (l : FileLocks δ ι) (d : δ) : Prop :=
  ∃ i ∈ l.file d, l.holder i = none ∨ l.holder i = some d

instance (l : FileLocks δ ι) (d : δ) : Decidable (l.Free d) :=
  inferInstanceAs (Decidable (∃ i ∈ l.file d, _))

def lock (l : FileLocks δ ι) (d : δ) : FileLocks δ ι :=
  if h : l.Free d then
    { file := l.file
      holder := fun i => if l.file d = some i then some d else l.holder i
      sound := fun i e he => by
        split at he
        next hfile =>
          obtain rfl := Option.some.inj he
          exact hfile
        next => exact l.sound i e he }
  else l

/-- The description has the lock of its file. -/
def Held (l : FileLocks δ ι) (d : δ) : Prop := ∃ i, l.holder i = some d

variable {l : FileLocks δ ι} {d e : δ} {i : ι}

omit [DecidableEq δ] [DecidableEq ι] in
/-- Two descriptions of one file do not both have its lock. -/
theorem Held.unique (hd : l.Held d) (he : l.Held e) (hfile : l.file d = l.file e) : d = e := by
  obtain ⟨i, hi⟩ := hd
  obtain ⟨j, hj⟩ := he
  rw [l.sound i d hi, l.sound j e hj, Option.some_inj] at hfile
  subst hfile
  exact Option.some.inj (hi.symm.trans hj)

omit [DecidableEq δ] [DecidableEq ι] in
theorem Held.file_ne (hd : l.Held d) : l.file d ≠ none := by
  obtain ⟨i, hi⟩ := hd
  rw [l.sound i d hi]
  exact Option.some_ne_none i

omit [DecidableEq ι] in
theorem unlock_held : (l.unlock d).Held e ↔ e ≠ d ∧ l.Held e := by
  unfold Held
  rw [← exists_and_left]
  exact exists_congr fun i => unlock_holder

omit [DecidableEq ι] in
theorem close_held : (l.close d).Held e ↔ e ≠ d ∧ l.Held e := unlock_held

omit [DecidableEq ι] in
theorem openFile_held : (l.openFile d i).Held e ↔ e ≠ d ∧ l.Held e := unlock_held

omit [DecidableEq ι] in
@[simp] theorem close_file_self : (l.close d).file d = none := Function.update_self _ _ _

omit [DecidableEq ι] in
theorem close_file_ne (h : e ≠ d) : (l.close d).file e = l.file e := Function.update_of_ne h _ _

omit [DecidableEq ι] in
@[simp] theorem openFile_file_self : (l.openFile d i).file d = some i := Function.update_self _ _ _

omit [DecidableEq ι] in
theorem openFile_file_ne (h : e ≠ d) : (l.openFile d i).file e = l.file e :=
  Function.update_of_ne h _ _

theorem lock_file : (l.lock d).file = l.file := by
  unfold lock
  split <;> rfl

theorem lock_held (h : l.Free d) : (l.lock d).Held e ↔ e = d ∨ l.Held e := by
  obtain ⟨i, hfile, hfree⟩ := h
  have hholder : (l.lock d).holder = fun j => if l.file d = some j then some d else l.holder j := by
    rw [lock, dif_pos ⟨i, hfile, hfree⟩]
  unfold Held
  rw [hholder]
  constructor
  · rintro ⟨j, hj⟩
    dsimp only at hj
    split at hj
    next => exact .inl (Option.some.inj hj).symm
    next => exact .inr ⟨j, hj⟩
  · rintro (rfl | ⟨j, hj⟩)
    · exact ⟨i, if_pos hfile⟩
    · by_cases hji : l.file d = some j
      · obtain rfl := Option.some.inj (hji.symm.trans hfile)
        obtain hnone | hd := hfree
        · rw [hnone] at hj
          cases hj
        · exact ⟨j, (if_pos hji).trans (hd.symm.trans hj)⟩
      · exact ⟨j, (if_neg hji).trans hj⟩

theorem lock_taken (h : ¬ l.Free d) : l.lock d = l := dif_neg h

omit [DecidableEq δ] [DecidableEq ι] in
/-- The lock is free exactly if no other description of the file has it. -/
theorem free_iff (hfile : l.file d = some i) :
    l.Free d ↔ ∀ e, e ≠ d → l.file e = some i → ¬ l.Held e := by
  constructor
  · rintro ⟨j, hj, hfree⟩ e hne he ⟨k, hk⟩
    obtain rfl := Option.some.inj (hfile.symm.trans hj)
    obtain rfl := Option.some.inj (he.symm.trans (l.sound k e hk))
    obtain hnone | hd := hfree
    · rw [hnone] at hk
      cases hk
    · exact hne (Option.some.inj (hk.symm.trans hd))
  · intro h
    refine ⟨i, hfile, ?_⟩
    by_cases hnone : l.holder i = none
    · exact .inl hnone
    · obtain ⟨e, he⟩ := Option.ne_none_iff_exists'.mp hnone
      by_cases hed : e = d
      · exact .inr (hed ▸ he)
      · exact absurd ⟨i, he⟩ (h e hed (l.sound i e he))

end FileLocks
end KmreManager.Lib
