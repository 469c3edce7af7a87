import Mathlib.Logic.Function.Basic
import Mathlib.Data.List.Basic

/-! # Path names and symbolic links

A place of a file system is the list of names from the root, the last one
first. A path name is walked step by step from a directory, through the links
on its way; a link at its end is followed or not. A walk visits entries that
exist, so it goes the same way in any file system that has these entries. -/
namespace KmreManager.Lib.PathWalk

inductive Step (ν : Type)
  | here
  | up
  | name (n : ν)
deriving DecidableEq

structure Pathname (ν : Type) where
  absolute : Bool
  steps : List (Step ν)
deriving DecidableEq

inductive Entry (ν κ : Type)
  | dir
  | file (content : κ)
  | symlink (target : Pathname ν)
deriving DecidableEq

abbrev Place (ν : Type) := List ν

structure FileSystem (ν κ : Type) where
  node : Place ν → Option (Entry ν κ)
  root : node [] = some .dir
  /-- the working directory -/
  cwd : Place ν

namespace FileSystem

variable {ν κ : Type} (fs : FileSystem ν κ)

/-- As many links as the kernel follows in one walk. -/
def maxLinks : Nat := 40

/-- A walk from `dir`; `next` goes on where a link points. -/
def walkFrom (follow : Bool) (next : Place ν → List (Step ν) → Option (Place ν)) :
    Place ν → List (Step ν) → Option (Place ν)
  | dir, [] => some dir
  | dir, .here :: rest => walkFrom follow next dir rest
  | dir, .up :: rest => walkFrom follow next dir.tail rest
  | dir, .name n :: rest =>
    match fs.node (n :: dir) with
    | none => if rest.isEmpty then some (n :: dir) else none
    | some .dir => walkFrom follow next (n :: dir) rest
    | some (.file _) => if rest.isEmpty then some (n :: dir) else none
    | some (.symlink target) =>
      if rest.isEmpty && !follow then some (n :: dir)
      else next (if target.absolute then [] else dir) (target.steps ++ rest)

def walk (follow : Bool) : Nat → Place ν → List (Step ν) → Option (Place ν)
  | 0 => fs.walkFrom follow fun _ _ => none
  | links + 1 => fs.walkFrom follow (walk follow links)

/-- Where a path name leads, if its last name is not followed as a link. -/
def place (path : Pathname ν) : Option (Place ν) :=
  fs.walk false maxLinks (if path.absolute then [] else fs.cwd) path.steps

/-- Where it leads if it is. -/
def target (path : Pathname ν) : Option (Place ν) :=
  fs.walk true maxLinks (if path.absolute then [] else fs.cwd) path.steps

/-- What a path name names. -/
def stat (path : Pathname ν) : Option (Entry ν κ) := (fs.target path).bind fs.node

/-- What a path name names, links included. -/
def lstat (path : Pathname ν) : Option (Entry ν κ) := (fs.place path).bind fs.node

section Update
variable [DecidableEq ν]

/-- The file system with another entry, or none, at a place below the root. -/
def set (n : ν) (dir : Place ν) (e : Option (Entry ν κ)) : FileSystem ν κ where
  node := Function.update fs.node (n :: dir) e
  root := by rw [Function.update_of_ne (List.cons_ne_nil n dir).symm, fs.root]
  cwd := fs.cwd

@[simp] theorem set_node_self (n : ν) (dir : Place ν) (e : Option (Entry ν κ)) :
    (fs.set n dir e).node (n :: dir) = e :=
  Function.update_self _ _ _

theorem set_node_ne {n : ν} {dir : Place ν} {e : Option (Entry ν κ)} {q : Place ν}
    (hq : q ≠ n :: dir) : (fs.set n dir e).node q = fs.node q :=
  Function.update_of_ne hq _ _

end Update

/-! ## Walks in a larger file system -/

/-- What exists stays. -/
structure Extends (fs fs' : FileSystem ν κ) : Prop where
  node : ∀ q, fs.node q ≠ none → fs'.node q = fs.node q
  cwd : fs'.cwd = fs.cwd

variable {fs} {fs' : FileSystem ν κ} {follow : Bool} {links : Nat} {dir q : Place ν}
  {steps : List (Step ν)} {path : Pathname ν}

theorem walkFrom_extends {next next' : Place ν → List (Step ν) → Option (Place ν)}
    (h : Extends fs fs')
    (hnext : ∀ dir steps, next dir steps = some q → next' dir steps = some q)
    (hq : follow = true → fs.node q ≠ none) (hw : fs.walkFrom follow next dir steps = some q) :
    fs'.walkFrom follow next' dir steps = some q := by
  induction steps generalizing dir with
  | nil => exact hw
  | cons step rest ih =>
    cases step with
    | here => exact ih hw
    | up => exact ih hw
    | name n =>
      rw [walkFrom] at hw ⊢
      cases hnode : fs.node (n :: dir) with
      | none =>
        simp only [hnode, Option.ite_none_right_eq_some, Option.some_inj, List.isEmpty_iff] at hw
        obtain ⟨rfl, rfl⟩ := hw
        have hfollow : follow = false := by
          cases follow with
          | false => rfl
          | true => exact absurd hnode (hq rfl)
        cases fs'.node (n :: dir) with
        | none => rfl
        | some e => cases e <;> simp [walkFrom, hfollow]
      | some e =>
        rw [h.node _ (by rw [hnode]; exact Option.some_ne_none e), hnode]
        rw [hnode] at hw
        cases e with
        | dir => exact ih hw
        | file c => exact hw
        | symlink target =>
          by_cases hlast : (rest.isEmpty && !follow) = true
          · simpa only [hlast, if_true] using hw
          · simp only [hlast, Bool.false_eq_true, if_false] at hw ⊢
            exact hnext _ _ hw

theorem walk_extends (h : Extends fs fs') (hq : follow = true → fs.node q ≠ none)
    (hw : fs.walk follow links dir steps = some q) : fs'.walk follow links dir steps = some q := by
  induction links generalizing dir steps with
  | zero => exact walkFrom_extends h (fun _ _ hn => by cases hn) hq hw
  | succ links ih => exact walkFrom_extends h (fun _ _ => ih) hq hw

theorem place_extends (h : Extends fs fs') (hp : fs.place path = some q) :
    fs'.place path = some q := by
  rw [place, h.cwd]
  exact walk_extends h (fun hf => by cases hf) hp

theorem stat_extends (h : Extends fs fs') {e : Entry ν κ} (hs : fs.stat path = some e) :
    fs'.stat path = some e := by
  obtain ⟨q, hq, he⟩ := Option.bind_eq_some_iff.mp hs
  have hne : fs.node q ≠ none := by rw [he]; exact Option.some_ne_none e
  have htarget : fs'.target path = some q := by
    rw [target, h.cwd]
    exact walk_extends h (fun _ => hne) hq
  rw [stat, htarget, Option.bind_some, h.node q hne, he]

/-! ## A name and the link it may be -/

theorem walkFrom_place {next next' : Place ν → List (Step ν) → Option (Place ν)}
    (hnext : ∀ dir steps, next dir steps = some q →
      ∃ p, next' dir steps = some p ∧ fs.node p ≠ none)
    (hq : fs.node q ≠ none) (hw : fs.walkFrom true next dir steps = some q) :
    ∃ p, fs.walkFrom false next' dir steps = some p ∧ fs.node p ≠ none := by
  induction steps generalizing dir with
  | nil =>
    obtain rfl := Option.some.inj hw
    exact ⟨dir, rfl, hq⟩
  | cons step rest ih =>
    cases step with
    | here => exact ih hw
    | up => exact ih hw
    | name n =>
      rw [walkFrom] at hw ⊢
      cases hnode : fs.node (n :: dir) with
      | none =>
        simp only [hnode, Option.ite_none_right_eq_some, Option.some_inj] at hw
        exact absurd (hw.2 ▸ hnode) hq
      | some e =>
        rw [hnode] at hw
        cases e with
        | dir => exact ih hw
        | file c =>
          simp only [Option.ite_none_right_eq_some, Option.some_inj] at hw ⊢
          exact ⟨q, hw, hq⟩
        | symlink target =>
          simp only [Bool.not_true, Bool.and_false, Bool.false_eq_true, if_false] at hw
          by_cases hlast : (rest.isEmpty && !false) = true
          · exact ⟨n :: dir, if_pos hlast, by rw [hnode]; exact Option.some_ne_none _⟩
          · simp only [hlast]
            exact hnext _ _ hw

/-- What can be followed exists as a name. -/
theorem lstat_ne_none (hs : fs.stat path ≠ none) : fs.lstat path ≠ none := by
  obtain ⟨e, he⟩ := Option.ne_none_iff_exists'.mp hs
  obtain ⟨q, hq, hnode⟩ := Option.bind_eq_some_iff.mp he
  have hne : fs.node q ≠ none := by rw [hnode]; exact Option.some_ne_none e
  have hwalk : ∀ links dir steps, fs.walk true links dir steps = some q →
      ∃ p, fs.walk false links dir steps = some p ∧ fs.node p ≠ none := by
    intro links
    induction links with
    | zero => exact fun dir steps => walkFrom_place (fun _ _ hn => by cases hn) hne
    | succ links ih => exact fun dir steps => walkFrom_place ih hne
  obtain ⟨p, hp, hpnode⟩ := hwalk _ _ _ hq
  rw [lstat, place, hp]
  exact hpnode

theorem walkFrom_target {next next' : Place ν → List (Step ν) → Option (Place ν)}
    (hnext : ∀ dir steps, next dir steps = some q → next' dir steps = some q)
    (hq : ∀ link, fs.node q ≠ some (.symlink link))
    (hw : fs.walkFrom false next dir steps = some q) :
    fs.walkFrom true next' dir steps = some q := by
  induction steps generalizing dir with
  | nil => exact hw
  | cons step rest ih =>
    cases step with
    | here => exact ih hw
    | up => exact ih hw
    | name n =>
      rw [walkFrom] at hw ⊢
      cases hnode : fs.node (n :: dir) with
      | none =>
        rw [hnode] at hw
        exact hw
      | some e =>
        rw [hnode] at hw
        cases e with
        | dir => exact ih hw
        | file c => exact hw
        | symlink link =>
          by_cases hlast : (rest.isEmpty && !false) = true
          · simp only [hlast, if_true, Option.some_inj] at hw
            exact absurd (hw ▸ hnode) (hq link)
          · simp only [hlast, Bool.false_eq_true, if_false] at hw
            simp only [Bool.not_true, Bool.and_false, Bool.false_eq_true, if_false]
            exact hnext _ _ hw

/-- A name that is no link leads to what it is. -/
theorem target_of_place (hp : fs.place path = some q)
    (hq : ∀ link, fs.node q ≠ some (.symlink link)) : fs.target path = some q := by
  have hwalk : ∀ links dir steps, fs.walk false links dir steps = some q →
      fs.walk true links dir steps = some q := by
    intro links
    induction links with
    | zero => exact fun dir steps => walkFrom_target (fun _ _ hn => by cases hn) hq
    | succ links ih => exact fun dir steps => walkFrom_target ih hq
  exact hwalk _ _ _ hp

theorem stat_of_place (hp : fs.place path = some q)
    (hq : ∀ link, fs.node q ≠ some (.symlink link)) : fs.stat path = fs.node q := by
  rw [stat, target_of_place hp hq, Option.bind_some]

/-! ## A walk down the tree -/

/-- Every entry stands in a directory. -/
def Closed (fs : FileSystem ν κ) : Prop :=
  ∀ n dir, fs.node (n :: dir) ≠ none → fs.node dir = some .dir

theorem Closed.dir_of_append (h : Closed fs) {rel : List ν} (hrel : rel ≠ [])
    (hnode : fs.node (rel ++ dir) ≠ none) : fs.node dir = some .dir := by
  induction rel with
  | nil => exact absurd rfl hrel
  | cons n rel ih =>
    have hdir := h n (rel ++ dir) hnode
    cases rel with
    | nil => exact hdir
    | cons m rel => exact ih (List.cons_ne_nil m rel) (by rw [hdir]; exact Option.some_ne_none _)

theorem Closed.walkFrom_names (h : Closed fs)
    {next : Place ν → List (Step ν) → Option (Place ν)} {names : List ν}
    (hnode : fs.node (names.reverse ++ dir) ≠ none)
    (hlink : follow = true → ∀ link, fs.node (names.reverse ++ dir) ≠ some (.symlink link)) :
    fs.walkFrom follow next dir (names.map .name) = some (names.reverse ++ dir) := by
  induction names generalizing dir with
  | nil => rfl
  | cons n names ih =>
    rw [List.reverse_cons, List.append_assoc, List.singleton_append] at hnode hlink ⊢
    rw [List.map_cons, walkFrom]
    cases names with
    | nil =>
      simp only [List.reverse_nil, List.nil_append, List.map_nil] at hnode hlink ⊢
      cases hentry : fs.node (n :: dir) with
      | none => exact absurd hentry hnode
      | some e =>
        cases e with
        | dir => rfl
        | file c => rfl
        | symlink link =>
          have hfollow : follow = false := by
            cases follow with
            | false => rfl
            | true => exact absurd hentry (hlink rfl link)
          simp [hfollow]
    | cons m names =>
      have hdir := h.dir_of_append (List.reverse_ne_nil_iff.mpr (List.cons_ne_nil m names)) hnode
      rw [hdir]
      exact ih hnode hlink

/-- The names of a place lead to it from the root. -/
theorem Closed.walk_place (h : Closed fs) {p : Place ν} (hnode : fs.node p ≠ none)
    (hlink : follow = true → ∀ link, fs.node p ≠ some (.symlink link)) :
    fs.walk follow links [] (p.reverse.map .name) = some p := by
  have hp : p.reverse.reverse ++ [] = p := by rw [List.reverse_reverse, List.append_nil]
  rw [← hp] at hnode hlink
  have hwalk : ∀ next, fs.walkFrom follow next [] (p.reverse.map .name) = some p := fun next => by
    rw [h.walkFrom_names hnode hlink, hp]
  cases links with
  | zero => exact hwalk _
  | succ links => exact hwalk _

/-- A step that stays where it is. -/
theorem walk_here : fs.walk follow links dir (.here :: steps) = fs.walk follow links dir steps := by
  cases links with
  | zero => rfl
  | succ links => rfl

/-! ## Taking a name away and making one -/

section Update
variable [DecidableEq ν] {n : ν}

theorem extends_of_free (hfree : fs.node (n :: dir) = none) (e : Option (Entry ν κ)) :
    Extends fs (fs.set n dir e) where
  node q hq := by
    have hne : q ≠ n :: dir := fun h => hq (by rw [h, hfree])
    exact fs.set_node_ne hne
  cwd := rfl

/-- A name that was free names the file made there. -/
theorem stat_make (hp : fs.place path = some (n :: dir)) (hfree : fs.node (n :: dir) = none)
    (c : κ) : (fs.set n dir (some (.file c))).stat path = some (.file c) := by
  have hplace := place_extends (extends_of_free hfree (some (.file c))) hp
  rw [stat_of_place hplace (by simp), set_node_self]

end Update

end FileSystem
end KmreManager.Lib.PathWalk
