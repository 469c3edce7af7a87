import KmreManager.Lib.Runs
import Mathlib.Data.List.Count
import Mathlib.Data.Finset.Basic
import Mathlib.Data.Finset.Image

/-! # Ownership of resources

A program acquires resources, uses and releases them, and gives up the places
that hold them. `check` watches the calls of a run: it keeps the resources held
so far and refuses a use or a release of one that is not held, the acquisition
of one that is, and giving up the place of one that is. A resource that stands
for "none" is one that is never acquired. -/
namespace KmreManager.Lib.Ownership

open Lib.Runs

/-- One call of the program, as far as ownership is concerned. -/
inductive Call (R : Type*)
  | acquire (r : R)
  | use (r : R)
  | release (r : R)
  /-- The place that holds `r` is deleted or overwritten. -/
  | forget (r : R)
deriving DecidableEq

variable {R : Type*} [DecidableEq R] {held held' : Finset R} {calls more : List (Call R)} {r : R}

/-- The resources held after a call, `none` if the call breaks the discipline. -/
def check (held : Finset R) : Call R → Option (Finset R)
  | .acquire r => if r ∈ held then none else some (insert r held)
  | .use r => if r ∈ held then some held else none
  | .release r => if r ∈ held then some (held.erase r) else none
  | .forget r => if r ∈ held then none else some held

@[simp] theorem check_acquire :
    check held (.acquire r) = some held' ↔ r ∉ held ∧ insert r held = held' := by
  simp [check]

@[simp] theorem check_use : check held (.use r) = some held' ↔ r ∈ held ∧ held = held' := by
  simp [check]

@[simp] theorem check_release :
    check held (.release r) = some held' ↔ r ∈ held ∧ held.erase r = held' := by
  simp [check]

@[simp] theorem check_forget : check held (.forget r) = some held' ↔ r ∉ held ∧ held = held' := by
  simp [check]

/-- The calls break no rule, and `held` is what they leave. -/
def Holds (calls : List (Call R)) (held : Finset R) : Prop :=
  run check ∅ calls = some held

/-- The calls break no rule. -/
def Disciplined (calls : List (Call R)) : Prop :=
  ∃ held, Holds calls held

instance : Decidable (Holds calls held) :=
  inferInstanceAs (Decidable (run check ∅ calls = some held))

instance : Decidable (Disciplined calls) :=
  decidable_of_iff ((run check ∅ calls).isSome) Option.isSome_iff_exists

@[simp] theorem holds_nil : Holds ([] : List (Call R)) ∅ := rfl

theorem Holds.disciplined (h : Holds calls held) : Disciplined calls := ⟨held, h⟩

/-- What the calls so far leave decides whether more of them are fine. -/
theorem Holds.append_iff (h : Holds calls held) :
    Holds (calls ++ more) held' ↔ run check held more = some held' := by
  constructor
  · intro happ
    obtain ⟨mid, hmid, hmore⟩ := run_append_some.mp happ
    rwa [← Option.some.inj (h.symm.trans hmid)] at hmore
  · intro hmore
    exact run_append_some.mpr ⟨held, h, hmore⟩

theorem Holds.append (h : Holds calls held) (hmore : run check held more = some held') :
    Holds (calls ++ more) held' :=
  h.append_iff.mpr hmore

theorem Holds.disciplined_append (h : Holds calls held) :
    Disciplined (calls ++ more) ↔ ∃ held', run check held more = some held' :=
  exists_congr fun _ => h.append_iff

theorem Holds.not_disciplined_append (h : Holds calls held) (hmore : run check held more = none) :
    ¬ Disciplined (calls ++ more) := by
  rw [h.disciplined_append, hmore]
  simp

theorem Holds.acquire (h : Holds calls held) (hr : r ∉ held) :
    Holds (calls ++ [.acquire r]) (insert r held) :=
  h.append (run_cons_some.mpr ⟨_, check_acquire.mpr ⟨hr, rfl⟩, rfl⟩)

theorem Holds.use (h : Holds calls held) (hr : r ∈ held) : Holds (calls ++ [.use r]) held :=
  h.append (run_cons_some.mpr ⟨_, check_use.mpr ⟨hr, rfl⟩, rfl⟩)

theorem Holds.release (h : Holds calls held) (hr : r ∈ held) :
    Holds (calls ++ [.release r]) (held.erase r) :=
  h.append (run_cons_some.mpr ⟨_, check_release.mpr ⟨hr, rfl⟩, rfl⟩)

theorem Holds.forget (h : Holds calls held) (hr : r ∉ held) :
    Holds (calls ++ [.forget r]) held :=
  h.append (run_cons_some.mpr ⟨_, check_forget.mpr ⟨hr, rfl⟩, rfl⟩)

/-- No later call mends a broken rule. -/
theorem Disciplined.of_append (h : Disciplined (calls ++ more)) : Disciplined calls := by
  obtain ⟨held', h⟩ := h
  obtain ⟨held, hcalls, -⟩ := run_append_some.mp h
  exact ⟨held, hcalls⟩

/-- The ledger of one call: what was held and what is acquired is what is
released and what is held afterwards. -/
theorem check_count {c : Call R} (h : check held c = some held') (r : R) :
    (if r ∈ held then 1 else 0) + [c].count (.acquire r)
      = [c].count (.release r) + if r ∈ held' then 1 else 0 := by
  cases c with
  | acquire x =>
    obtain ⟨hx, rfl⟩ := check_acquire.mp h
    by_cases heq : r = x
    · simp [heq, hx]
    · simp [heq, Ne.symm heq]
  | use x =>
    obtain ⟨-, rfl⟩ := check_use.mp h
    simp
  | release x =>
    obtain ⟨hx, rfl⟩ := check_release.mp h
    by_cases heq : r = x
    · simp [heq, hx]
    · simp [heq, Ne.symm heq]
  | forget x =>
    obtain ⟨-, rfl⟩ := check_forget.mp h
    simp

theorem run_check_count (h : run check held calls = some held') (r : R) :
    (if r ∈ held then 1 else 0) + calls.count (.acquire r)
      = calls.count (.release r) + if r ∈ held' then 1 else 0 := by
  induction calls generalizing held with
  | nil => cases h; simp
  | cons c calls ih =>
    obtain ⟨mid, hc, hrest⟩ := run_cons_some.mp h
    have hone := check_count hc r
    have hall := ih hrest
    rw [← List.singleton_append, List.count_append, List.count_append]
    omega

/-- **The ledger.** What was acquired was released or is still held. -/
theorem Holds.count (h : Holds calls held) (r : R) :
    calls.count (.acquire r) = calls.count (.release r) + if r ∈ held then 1 else 0 := by
  simpa using run_check_count h r

/-- Nothing is released more often than it was acquired. -/
theorem Disciplined.count_release_le (h : Disciplined calls) (r : R) :
    calls.count (.release r) ≤ calls.count (.acquire r) := by
  obtain ⟨held, h⟩ := h
  have := h.count r
  omega

/-! ## Scopes -/

variable {S : Type*} [DecidableEq S] {f : R → S} {other : Finset S}

/-- The call, with its resource under the name that a larger scope has for it. -/
def Call.map (f : R → S) : Call R → Call S
  | .acquire r => .acquire (f r)
  | .use r => .use (f r)
  | .release r => .release (f r)
  | .forget r => .forget (f r)

theorem check_map (hf : f.Injective) (hother : ∀ r, f r ∉ other) {c : Call R}
    (h : check held c = some held') :
    check (other ∪ held.image f) (c.map f) = some (other ∪ held'.image f) := by
  have hmem : ∀ r, f r ∈ other ∪ held.image f ↔ r ∈ held := fun r => by
    simp [hother r, hf.eq_iff]
  cases c with
  | acquire r =>
    obtain ⟨hr, rfl⟩ := check_acquire.mp h
    refine check_acquire.mpr ⟨(hmem r).not.mpr hr, ?_⟩
    rw [Finset.image_insert, Finset.union_insert]
  | use r =>
    obtain ⟨hr, rfl⟩ := check_use.mp h
    exact check_use.mpr ⟨(hmem r).mpr hr, rfl⟩
  | release r =>
    obtain ⟨hr, rfl⟩ := check_release.mp h
    refine check_release.mpr ⟨(hmem r).mpr hr, ?_⟩
    rw [Finset.image_erase hf, Finset.erase_union_distrib, Finset.erase_eq_of_notMem (hother r)]
  | forget r =>
    obtain ⟨hr, rfl⟩ := check_forget.mp h
    exact check_forget.mpr ⟨(hmem r).not.mpr hr, rfl⟩

/-- What a scope does with its own resources, it does beside all others. -/
theorem Holds.scope (hf : f.Injective) (hother : ∀ r, f r ∉ other) (h : Holds calls held) :
    run check other (calls.map (Call.map f)) = some (other ∪ held.image f) := by
  have hrun : ∀ from' : Finset R, run check from' calls = some held →
      run check (other ∪ from'.image f) (calls.map (Call.map f)) =
        some (other ∪ held.image f) := by
    clear h
    induction calls with
    | nil =>
      rintro from' h
      obtain rfl := Option.some.inj h
      rfl
    | cons c calls ih =>
      intro from' h
      obtain ⟨mid, hc, hrest⟩ := run_cons_some.mp h
      exact run_cons_some.mpr ⟨_, check_map hf hother hc, ih mid hrest⟩
  simpa using hrun ∅ h

end KmreManager.Lib.Ownership
