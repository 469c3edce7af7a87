import Mathlib.Logic.Function.Basic
import Mathlib.Data.List.Infix

/-! # A tree of hard links

Absolute names are component lists; a name stands for a directory or is a
link to an inode. Only what the link count of a file can show is kept: which
names exist and which names share an inode. -/
namespace KmreManager.Lib.HardLinks

variable {γ : Type*}

inductive Node
  | dir
  | file (inode : Nat)
  deriving DecidableEq, Repr

abbrev Tree (γ : Type*) := List γ → Option Node

/-- The inode a name is a link to. -/
def Tree.inode? (t : Tree γ) (name : List γ) : Option Nat :=
  match t name with
  | some (.file i) => some i
  | _ => none

theorem Tree.inode?_eq_some {t : Tree γ} {name : List γ} {i : Nat} :
    t.inode? name = some i ↔ t name = some (.file i) := by
  unfold Tree.inode?
  split
  · rename_i j h; simp [h]
  · rename_i h; simpa using h i

def isFile (t : Tree γ) (name : List γ) : Bool := (t.inode? name).isSome

variable [DecidableEq γ]

/-- Create every missing directory on the way to `name`; refused when a file
stands in the way. -/
def mkpath (t : Tree γ) (name : List γ) : Tree γ × Bool :=
  if name.inits.any (isFile t) then (t, false)
  else (fun q => if q <+: name then some .dir else t q, true)

/-- Make `dest` a further link to the file `src`; refused when `dest` exists. -/
def link (t : Tree γ) (src dest : List γ) : Tree γ × Bool :=
  match t.inode? src, t dest with
  | some i, none => (Function.update t dest (some (.file i)), true)
  | _, _ => (t, false)

def fileExists (t : Tree γ) (name : List γ) : Bool := (t name).isSome

/-- Unlink a file; refused for a directory and for a missing name. -/
def remove (t : Tree γ) (name : List γ) : Tree γ × Bool :=
  if isFile t name then (Function.update t name none, true) else (t, false)

/-- Making directories leaves every link alone. -/
theorem inode?_mkpath (t : Tree γ) (name q : List γ) :
    (mkpath t name).1.inode? q = t.inode? q := by
  unfold mkpath
  split
  · rfl
  · rename_i hfile
    by_cases hq : q <+: name
    · have hnone : ¬ isFile t q = true := fun hf =>
        hfile (List.any_eq_true.mpr ⟨q, (List.mem_inits q name).mpr hq, hf⟩)
      have ht : t.inode? q = none := by simpa [isFile] using hnone
      rw [ht]
      simp [Tree.inode?, hq]
    · simp [Tree.inode?, hq]

/-- A link made is the only change, and it only takes a free name. -/
theorem inode?_link (t : Tree γ) (src dest q : List γ) :
    (link t src dest).1.inode? q =
      if q = dest ∧ t dest = none then t.inode? src else t.inode? q := by
  unfold link
  split
  · rename_i i hsrc hdest
    by_cases hq : q = dest
    · subst hq; simp [Tree.inode?, hdest] at hsrc ⊢
      exact hsrc.symm
    · simp [Tree.inode?, hq]
  · rename_i h
    by_cases hq : q = dest ∧ t dest = none
    · obtain ⟨rfl, hd⟩ := hq
      have hs : t.inode? src = none := by
        cases hi : t.inode? src with
        | none => rfl
        | some i => exact absurd hd (h i hi)
      rw [hs, if_pos ⟨rfl, hd⟩]
      simp [Tree.inode?, hd]
    · rw [if_neg hq]

theorem inode?_remove (t : Tree γ) (name q : List γ) :
    (remove t name).1.inode? q = if q = name then none else t.inode? q := by
  unfold remove
  split
  · by_cases hq : q = name
    · subst hq; simp [Tree.inode?]
    · simp [Tree.inode?, hq]
  · rename_i h
    by_cases hq : q = name
    · subst hq; simpa [isFile] using h
    · rw [if_neg hq]

theorem mkpath_eq_none {t : Tree γ} {name q : List γ} (h : (mkpath t name).2 = true) :
    (mkpath t name).1 q = none ↔ t q = none ∧ ¬ q <+: name := by
  unfold mkpath at h ⊢
  split at h
  · cases h
  · rename_i hfile
    rw [if_neg hfile]
    by_cases hq : q <+: name <;> simp [hq]

/-- After a successful `mkpath`, no directory on the way is a file. -/
theorem not_prefix_of_mkpath {t : Tree γ} {name q : List γ} {i : Nat}
    (h : (mkpath t name).2 = true) (hq : t.inode? q = some i) : ¬ q <+: name := by
  intro hpre
  unfold mkpath at h
  split at h
  · cases h
  · rename_i hfile
    exact hfile (List.any_eq_true.mpr ⟨q, (List.mem_inits q name).mpr hpre, by simp [isFile, hq]⟩)

theorem link_eq_none {t : Tree γ} {src dest q : List γ} :
    (link t src dest).1 q = none ↔ t q = none ∧ ¬ (q = dest ∧ (t.inode? src).isSome) := by
  unfold link
  split
  · rename_i i hsrc hdest
    by_cases hq : q = dest <;> simp [hq, hsrc]
  · rename_i h
    refine ⟨fun hn => ⟨hn, ?_⟩, And.left⟩
    rintro ⟨rfl, hs⟩
    obtain ⟨i, hi⟩ := Option.isSome_iff_exists.mp hs
    exact h i hi hn

/-! ## Linking into a directory made for it -/

/-- Make the directory `dir`, then link `dest`. -/
def place (t : Tree γ) (src dir dest : List γ) : Tree γ := (link (mkpath t dir).1 src dest).1

section Place
variable {t : Tree γ} {src dir dest q : List γ}

theorem inode?_place (h : (mkpath t dir).2 = true) :
    (place t src dir dest).inode? q =
      if q = dest ∧ t dest = none ∧ ¬ dest <+: dir then t.inode? src else t.inode? q := by
  simp only [place, inode?_link, inode?_mkpath, mkpath_eq_none h]

/-- No link is ever replaced. -/
theorem inode?_place_of_some (h : (mkpath t dir).2 = true) {i : Nat} (hq : t.inode? q = some i) :
    (place t src dir dest).inode? q = some i := by
  rw [inode?_place h, if_neg, hq]
  rintro ⟨rfl, hfree, _⟩
  rw [Tree.inode?_eq_some.mp hq] at hfree
  cases hfree

theorem place_eq_none (h : (mkpath t dir).2 = true) :
    place t src dir dest q = none ↔
      (t q = none ∧ ¬ q <+: dir) ∧ ¬ (q = dest ∧ (t.inode? src).isSome) := by
  rw [place, link_eq_none, mkpath_eq_none h, inode?_mkpath]

end Place

/-- The name is free, and no directory of the two is or leads through it. -/
def Free (t : Tree γ) (dir dir' q : List γ) : Prop := t q = none ∧ ¬ q <+: dir ∧ ¬ q <+: dir'

instance (t : Tree γ) (dir dir' q : List γ) : Decidable (Free t dir dir' q) :=
  inferInstanceAs (Decidable (_ ∧ _))

/-- **Linking a file under two names.** Both names end up as links to inode `i`
exactly when each was one before, or was free while the source is one. -/
theorem place_two {t : Tree γ} {src dir dest dir' dest' : List γ} {i : Nat}
    (h : (mkpath t dir).2 = true) (h' : (mkpath (place t src dir dest) dir').2 = true)
    {q : List γ} (hq : q = dest ∨ q = dest') :
    (place (place t src dir dest) src dir' dest').inode? q = some i ↔
      t.inode? q = some i ∨ Free t dir dir' q ∧ t.inode? src = some i := by
  have hsrc : (place t src dir dest).inode? src = t.inode? src := by
    rw [inode?_place h, ite_self]
  constructor
  · intro hi
    cases hold : t.inode? q with
    | some j =>
      rw [inode?_place_of_some h' (inode?_place_of_some h hold)] at hi
      exact Or.inl hi
    | none =>
      right
      cases hfirst : (place t src dir dest).inode? q with
      | some j =>
        rw [inode?_place_of_some h' hfirst] at hi
        have hdir' := not_prefix_of_mkpath h' hfirst
        rw [inode?_place h] at hfirst
        split at hfirst
        · rename_i hc
          obtain ⟨rfl, hfree, hdir⟩ := hc
          exact ⟨⟨hfree, hdir, hdir'⟩, hfirst.trans hi⟩
        · rw [hold] at hfirst
          cases hfirst
      | none =>
        rw [inode?_place h', hfirst, hsrc] at hi
        split at hi
        · rename_i hc
          obtain ⟨rfl, hfree, hdir'⟩ := hc
          obtain ⟨⟨hfree, hdir⟩, _⟩ := (place_eq_none h).mp hfree
          exact ⟨⟨hfree, hdir, hdir'⟩, hi⟩
        · cases hi
  · rintro (hold | ⟨⟨hfree, hdir, hdir'⟩, hi⟩)
    · exact inode?_place_of_some h' (inode?_place_of_some h hold)
    · by_cases hd : q = dest
      · subst hd
        refine inode?_place_of_some h' ?_
        rw [inode?_place h, if_pos ⟨rfl, hfree, hdir⟩, hi]
      · obtain rfl := hq.resolve_left hd
        have hnone : place t src dir dest q = none :=
          (place_eq_none h).mpr ⟨⟨hfree, hdir⟩, fun hc => hd hc.1⟩
        rw [inode?_place h', if_pos ⟨rfl, hnone, hdir'⟩, hsrc, hi]

end KmreManager.Lib.HardLinks
