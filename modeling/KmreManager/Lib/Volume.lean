import KmreManager.Lib.PathWalk

/-! # Volumes

A file system all of whose entries stand in directories, and whose directories
can be listed. Directories are made where nothing is, and an entry is taken
away when nothing is below it, so both stay true. -/
namespace KmreManager.Lib.PathWalk

namespace FileSystem

variable {ν κ : Type} {fs : FileSystem ν κ} {follow : Bool} {links : Nat} {dir p : Place ν}
  {steps : List (Step ν)} {n : ν}

theorem Closed.tail (h : Closed fs) (hdir : fs.node dir = some .dir) :
    fs.node dir.tail = some .dir := by
  cases dir with
  | nil => exact fs.root
  | cons m dir => exact h m dir (by rw [hdir]; exact Option.some_ne_none _)

/-- A walk that ends where a file was taken away, or that never met it. -/
theorem walkFrom_erase [DecidableEq ν] {next next' : Place ν → List (Step ν) → Option (Place ν)}
    {d : Place ν} {c : κ} (hfile : fs.node (n :: d) = some (.file c))
    (hnext : ∀ dir steps, next dir steps = some p → next' dir steps = some p)
    (hw : fs.walkFrom follow next dir steps = some p) :
    (fs.set n d none).walkFrom follow next' dir steps = some p := by
  induction steps generalizing dir with
  | nil => exact hw
  | cons step rest ih =>
    cases step with
    | here => exact ih hw
    | up => exact ih hw
    | name m =>
      rw [walkFrom] at hw ⊢
      by_cases hmd : m :: dir = n :: d
      · obtain ⟨rfl, rfl⟩ := List.cons.inj hmd
        rw [hfile] at hw
        rw [set_node_self]
        exact hw
      · rw [set_node_ne fs hmd]
        cases hnode : fs.node (m :: dir) with
        | none => rwa [hnode] at hw
        | some e =>
          rw [hnode] at hw
          cases e with
          | dir => exact ih hw
          | file c' => exact hw
          | symlink link =>
            by_cases hlast : (rest.isEmpty && !follow) = true
            · simpa only [hlast, if_true] using hw
            · simp only [hlast, Bool.false_eq_true, if_false] at hw ⊢
              exact hnext _ _ hw

theorem place_erase [DecidableEq ν] {path : Pathname ν} {d : Place ν} {c : κ}
    (hfile : fs.node (n :: d) = some (.file c)) (hp : fs.place path = some p) :
    (fs.set n d none).place path = some p := by
  have hwalk : ∀ links dir steps, fs.walk false links dir steps = some p →
      (fs.set n d none).walk false links dir steps = some p := by
    intro links
    induction links with
    | zero => exact fun dir steps => walkFrom_erase hfile fun _ _ hn => by cases hn
    | succ links ih => exact fun dir steps => walkFrom_erase hfile ih
  exact hwalk _ _ _ hp

end FileSystem

structure Volume (ν κ : Type) extends FileSystem ν κ where
  closed : toFileSystem.Closed
  list : Place ν → List ν
  listed : ∀ n dir, n ∈ list dir ↔ node (n :: dir) ≠ none

namespace Volume

open FileSystem

variable {ν κ : Type} [DecidableEq ν]

def make (v : Volume ν κ) (n : ν) (dir : Place ν) (e : Entry ν κ)
    (hdir : v.node dir = some .dir) (hfree : v.node (n :: dir) = none) : Volume ν κ where
  toFileSystem := v.toFileSystem.set n dir (some e)
  closed m d hm := by
    by_cases hmd : m :: d = n :: dir
    · obtain ⟨-, rfl⟩ := List.cons.inj hmd
      rw [set_node_ne _ (List.cons_ne_self n d).symm]
      exact hdir
    · rw [set_node_ne _ hmd] at hm
      have hd := v.closed m d hm
      by_cases hdn : d = n :: dir
      · rw [hdn, hfree] at hd
        cases hd
      · rw [set_node_ne _ hdn]
        exact hd
  list d := if d = dir then n :: v.list dir else v.list d
  listed m d := by
    by_cases hmd : m :: d = n :: dir
    · obtain ⟨rfl, rfl⟩ := List.cons.inj hmd
      simp
    · rw [set_node_ne _ hmd, ← v.listed]
      split
      next hd =>
        subst hd
        rw [List.mem_cons, or_iff_right fun hm => hmd (by rw [hm])]
      next => rfl

def erase (v : Volume ν κ) (n : ν) (dir : Place ν) (hempty : v.list (n :: dir) = []) :
    Volume ν κ where
  toFileSystem := v.toFileSystem.set n dir none
  closed m d hm := by
    have hmd : m :: d ≠ n :: dir := fun h => hm (by rw [h, set_node_self])
    rw [set_node_ne _ hmd] at hm
    have hdn : d ≠ n :: dir := fun h => by
      have hlist := (v.listed m d).mpr hm
      rw [h, hempty] at hlist
      cases hlist
    rw [set_node_ne _ hdn]
    exact v.closed m d hm
  list d := if d = dir then (v.list dir).filter (· ≠ n) else v.list d
  listed m d := by
    by_cases hmd : m :: d = n :: dir
    · obtain ⟨rfl, rfl⟩ := List.cons.inj hmd
      simp
    · rw [set_node_ne _ hmd, ← v.listed]
      split
      next hd =>
        subst hd
        rw [List.mem_filter, decide_eq_true_iff, and_iff_left fun hm => hmd (by rw [hm])]
      next => rfl

omit [DecidableEq ν] in
/-- Only a directory holds anything. -/
theorem list_nil {v : Volume ν κ} {p : Place ν} (h : v.node p ≠ some .dir) : v.list p = [] :=
  List.eq_nil_iff_forall_not_mem.mpr fun m hm => h (v.closed m p ((v.listed m p).mp hm))

variable [DecidableEq κ] (v : Volume ν κ) (path : Pathname ν)

/-- `mkdir`, which follows no link at the end of the path. -/
def mkdir : Volume ν κ :=
  match v.place path with
  | some (n :: dir) =>
    if h : v.node dir = some .dir ∧ v.node (n :: dir) = none then v.make n dir .dir h.1 h.2 else v
  | _ => v

/-- `remove`: any entry but a directory with entries of its own. -/
def remove : Volume ν κ :=
  match v.place path with
  | some (n :: dir) => if h : v.list (n :: dir) = [] then v.erase n dir h else v
  | _ => v

/-- `unlink`: any entry but a directory. -/
def unlink : Volume ν κ :=
  match v.place path with
  | some (n :: dir) =>
    if h : v.list (n :: dir) = [] ∧ v.node (n :: dir) ≠ some .dir then v.erase n dir h.1 else v
  | _ => v

/-- Everything is as it was, but for some new directories. -/
structure Grown (v v' : Volume ν κ) : Prop where
  kept : Extends v.toFileSystem v'.toFileSystem
  made : ∀ q, v.node q = none → v'.node q = none ∨ v'.node q = some .dir

variable {v} {v' v'' : Volume ν κ} {steps : List (Step ν)} {names : List ν} {n : ν}
  {dir : Place ν}

omit [DecidableEq ν] [DecidableEq κ] in
theorem Grown.refl : Grown v v := ⟨⟨fun _ _ => rfl, rfl⟩, fun _ h => .inl h⟩

omit [DecidableEq ν] [DecidableEq κ] in
theorem Grown.trans (h : Grown v v') (h' : Grown v' v'') : Grown v v'' where
  kept := ⟨fun q hq => by
      have hq' : v'.node q ≠ none := by rwa [h.kept.node q hq]
      rw [h'.kept.node q hq', h.kept.node q hq], h'.kept.cwd.trans h.kept.cwd⟩
  made q hq := by
    rcases h.made q hq with hnone | hdir
    · exact h'.made q hnone
    · right
      rw [h'.kept.node q (by rw [hdir]; exact Option.some_ne_none _), hdir]

end Volume
end KmreManager.Lib.PathWalk
