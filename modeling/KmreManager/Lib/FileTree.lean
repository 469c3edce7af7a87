import Mathlib.Data.List.Infix
import Mathlib.Logic.Function.Basic

/-! # A tree of directories and files

An absolute path is the list of its names, the last one first, so the entry
`n` of a directory `q` is `n :: q` and the root is `[]`. A tree carries what
every file system keeps true of itself: entries stand in directories, no two
paths share an inode, and inode numbers that were never used are left. Every
operation takes what it needs to keep that, so a damaged tree cannot be built. -/
namespace KmreManager.Lib.FileTree

variable {ν : Type}

abbrev Path (ν : Type) := List ν

/-- A path that goes on from `p` under names with a property ends there, or goes
on from an entry of `p` with such a name. -/
theorem exists_below_iff {P : ν → Prop} {p q : Path ν} :
    (∃ rel, q = rel ++ p ∧ ∀ n ∈ rel, P n) ↔
      q = p ∨ ∃ n, P n ∧ ∃ rel, q = rel ++ n :: p ∧ ∀ m ∈ rel, P m := by
  constructor
  · rintro ⟨rel, rfl, hrel⟩
    rcases List.eq_nil_or_concat rel with rfl | ⟨rel, n, rfl⟩
    · exact .inl rfl
    · refine .inr ⟨n, hrel n (by simp), rel, by simp, fun m hm => hrel m ?_⟩
      simp [hm]
  · rintro (rfl | ⟨n, hn, rel, rfl, hrel⟩)
    · exact ⟨[], rfl, by simp⟩
    · refine ⟨rel ++ [n], by simp, fun m hm => ?_⟩
      rcases List.mem_append.mp hm with hm | hm
      · exact hrel m hm
      · exact List.mem_singleton.mp hm ▸ hn

inductive Kind
  | dir
  | file
  deriving DecidableEq, Repr

structure Node where
  kind : Kind
  inode : Nat
  deriving DecidableEq, Repr

structure Tree (ν : Type) where
  node : Path ν → Option Node
  /-- The paths that may name something. -/
  paths : List (Path ν)
  /-- The next inode number. -/
  next : Nat
  mem_paths : ∀ p, node p ≠ none → p ∈ paths
  root : ∃ i, node [] = some ⟨.dir, i⟩
  closed : ∀ n q, node (n :: q) ≠ none → ∃ i, node q = some ⟨.dir, i⟩
  inode_unique : ∀ p q x y, node p = some x → node q = some y → x.inode = y.inode → p = q
  inode_lt : ∀ p x, node p = some x → x.inode < next

namespace Tree

/-- The inode of the directory a path names. -/
def dir? (t : Tree ν) (p : Path ν) : Option Nat :=
  match t.node p with
  | some ⟨.dir, i⟩ => some i
  | _ => none

def isDir (t : Tree ν) (p : Path ν) : Bool := (t.dir? p).isSome

def isFile (t : Tree ν) (p : Path ν) : Bool :=
  match t.node p with
  | some ⟨.file, _⟩ => true
  | _ => false

variable {t : Tree ν} {p q : Path ν} {n : ν} {i : Nat}

theorem dir?_eq_some : t.dir? p = some i ↔ t.node p = some ⟨.dir, i⟩ := by
  unfold dir?
  split
  · rename_i j h; simp [h]
  · rename_i h
    exact ⟨fun hc => (by cases hc), fun hc => absurd hc (h i)⟩

theorem isDir_iff : t.isDir p = true ↔ ∃ i, t.node p = some ⟨.dir, i⟩ := by
  rw [isDir, Option.isSome_iff_exists]
  exact exists_congr fun _ => dir?_eq_some

theorem isFile_iff : t.isFile p = true ↔ ∃ i, t.node p = some ⟨.file, i⟩ := by
  unfold isFile
  split
  · rename_i i h; simp [h]
  · rename_i h
    exact ⟨fun hc => (by cases hc), fun ⟨i, hi⟩ => absurd hi (h i)⟩

/-- A path names nothing, a directory or a file. -/
theorem isDir_or_isFile (h : t.node p ≠ none) : t.isDir p = true ∨ t.isFile p = true := by
  obtain ⟨⟨kind, i⟩, hi⟩ := Option.ne_none_iff_exists'.mp h
  cases kind with
  | dir => exact Or.inl (isDir_iff.mpr ⟨i, hi⟩)
  | file => exact Or.inr (isFile_iff.mpr ⟨i, hi⟩)

theorem isDir_ne_none (h : t.isDir p = true) : t.node p ≠ none := by
  obtain ⟨i, hi⟩ := isDir_iff.mp h
  rw [hi]
  exact Option.some_ne_none _

theorem isFile_ne_none (h : t.isFile p = true) : t.node p ≠ none := by
  obtain ⟨i, hi⟩ := isFile_iff.mp h
  rw [hi]
  exact Option.some_ne_none _

theorem not_isFile_of_isDir (h : t.isDir p = true) : ¬ t.isFile p = true := by
  intro hf
  obtain ⟨i, hi⟩ := isDir_iff.mp h
  obtain ⟨j, hj⟩ := isFile_iff.mp hf
  rw [hi] at hj
  cases hj

/-- The same entry stands for the same directory, in whatever tree. -/
theorem dir?_congr {t' : Tree ν} (h : t'.node q = t.node p) : t'.dir? q = t.dir? p := by
  unfold dir?
  rw [h]

/-- One directory has one path. -/
theorem dir?_unique (hp : t.dir? p = some i) (hq : t.dir? q = some i) : p = q :=
  t.inode_unique p q _ _ (dir?_eq_some.mp hp) (dir?_eq_some.mp hq) rfl

/-- What stands below an existing path is a directory. -/
theorem isDir_of_suffix (h : t.node p ≠ none) (hq : q <:+ p) (hne : q ≠ p) : t.isDir q = true := by
  obtain ⟨rel, rfl⟩ := hq
  induction rel with
  | nil => exact absurd rfl hne
  | cons n rel ih =>
    have hdir := isDir_iff.mpr (t.closed n (rel ++ q) h)
    by_cases hrel : q = rel ++ q
    · rw [hrel]
      exact hdir
    · exact ih (isDir_ne_none hdir) hrel

theorem ne_none_of_suffix (h : t.node p ≠ none) (hq : q <:+ p) : t.node q ≠ none := by
  by_cases heq : q = p
  · exact heq ▸ h
  · exact isDir_ne_none (isDir_of_suffix h hq heq)

/-! ## What an operation leaves alone -/

/-- Apart from what stands at or below `gone` and `arrived`, the entries of `t'`
are those of `t`, and what `t'` has at or below `gone` has arrived. -/
structure Kept (t t' : Tree ν) (gone arrived : Option (Path ν)) : Prop where
  node_eq : ∀ p, (∀ a ∈ gone, ¬ a <:+ p) → (∀ b ∈ arrived, ¬ b <:+ p) → t'.node p = t.node p
  not_gone : ∀ p, t'.node p ≠ none → (∀ b ∈ arrived, ¬ b <:+ p) → ∀ a ∈ gone, ¬ a <:+ p

theorem Kept.rfl (t : Tree ν) : Kept t t none none where
  node_eq _ _ _ := Eq.refl _
  not_gone _ _ _ a ha := by cases ha

namespace Kept
variable {t' : Tree ν} {gone arrived : Option (Path ν)}

/-- What stands in `t'` without having arrived stood there before. -/
theorem old (h : Kept t t' gone arrived) (hp : t'.node p ≠ none) (hnew : ∀ b ∈ arrived, ¬ b <:+ p) :
    t'.node p = t.node p :=
  h.node_eq p (h.not_gone p hp hnew) hnew

/-- So did the directories it stands in. -/
theorem above (hp : t'.node p ≠ none) (hnew : ∀ b ∈ arrived, ¬ b <:+ p) (hq : q <:+ p) :
    t'.node q ≠ none ∧ ∀ b ∈ arrived, ¬ b <:+ q := by
  exact ⟨ne_none_of_suffix hp hq, fun b hb hs => hnew b hb (hs.trans hq)⟩

end Kept

/-! ## Operations -/

section Operations
variable [DecidableEq ν]

/-- Nothing but the root. -/
def bare : Tree ν where
  node p := if p = [] then some ⟨.dir, 0⟩ else none
  paths := [[]]
  next := 1
  mem_paths p hp := by
    by_cases h : p = []
    · exact h ▸ List.mem_singleton_self _
    · rw [if_neg h] at hp
      exact absurd rfl hp
  root := ⟨0, if_pos rfl⟩
  closed n q hp := by
    rw [if_neg (List.cons_ne_nil n q)] at hp
    exact absurd rfl hp
  inode_unique p q x y hp hq _ := by
    have hroot : ∀ p x, (if p = ([] : Path ν) then some (⟨.dir, 0⟩ : Node) else none) = some x →
        p = [] := by
      intro p x h
      by_contra hp
      rw [if_neg hp] at h
      cases h
    rw [hroot p x hp, hroot q y hq]
  inode_lt p x hp := by
    split at hp
    · cases hp
      exact Nat.one_pos
    · cases hp

/-- The names in a directory. -/
def children (t : Tree ν) (q : Path ν) : List ν :=
  t.paths.filterMap fun
    | n :: q' => if q' = q ∧ (t.node (n :: q')).isSome then some n else none
    | [] => none

theorem mem_children : n ∈ t.children q ↔ t.node (n :: q) ≠ none := by
  unfold children
  rw [List.mem_filterMap]
  constructor
  · rintro ⟨p, _, hp⟩
    cases p with
    | nil => cases hp
    | cons m q' =>
      by_cases h : q' = q ∧ (t.node (m :: q')).isSome
      · dsimp only at hp
        rw [if_pos h] at hp
        obtain rfl := Option.some.inj hp
        obtain ⟨rfl, hsome⟩ := h
        exact Option.isSome_iff_ne_none.mp hsome
      · dsimp only at hp
        rw [if_neg h] at hp
        cases hp
  · intro h
    exact ⟨n :: q, t.mem_paths _ h, by simp [Option.isSome_iff_ne_none.mpr h]⟩

/-- Make a new directory or file. -/
def create (t : Tree ν) (kind : Kind) (n : ν) (q : Path ν) (hfree : t.node (n :: q) = none)
    (hdir : t.isDir q = true) : Tree ν where
  node := Function.update t.node (n :: q) (some ⟨kind, t.next⟩)
  paths := (n :: q) :: t.paths
  next := t.next + 1
  mem_paths p hp := by
    by_cases h : p = n :: q
    · exact h ▸ List.mem_cons_self
    · rw [Function.update_of_ne h] at hp
      exact List.mem_cons_of_mem _ (t.mem_paths p hp)
  root := by
    rw [Function.update_of_ne (List.cons_ne_nil n q).symm]
    exact t.root
  closed m q' hm := by
    have hkeep : ∀ p, (∃ i, t.node p = some ⟨.dir, i⟩) →
        ∃ i, Function.update t.node (n :: q) (some ⟨kind, t.next⟩) p = some ⟨.dir, i⟩ := by
      rintro p ⟨i, hi⟩
      refine ⟨i, ?_⟩
      rw [Function.update_of_ne, hi]
      intro heq
      subst heq
      rw [hfree] at hi
      cases hi
    by_cases h : m :: q' = n :: q
    · obtain ⟨rfl, rfl⟩ := List.cons.inj h
      exact hkeep _ (isDir_iff.mp hdir)
    · rw [Function.update_of_ne h] at hm
      exact hkeep _ (t.closed m q' hm)
  inode_unique p p' x y hp hp' hi := by
    have hnew : ∀ p x, Function.update t.node (n :: q) (some ⟨kind, t.next⟩) p = some x →
        p = n :: q ∧ x.inode = t.next ∨ t.node p = some x ∧ x.inode < t.next := by
      intro p x hp
      by_cases h : p = n :: q
      · subst h
        rw [Function.update_self] at hp
        cases hp
        exact Or.inl ⟨rfl, rfl⟩
      · rw [Function.update_of_ne h] at hp
        exact Or.inr ⟨hp, t.inode_lt p x hp⟩
    rcases hnew p x hp with ⟨rfl, hx⟩ | ⟨hx, hlt⟩ <;>
      rcases hnew p' y hp' with ⟨rfl, hy⟩ | ⟨hy, hlt'⟩
    · rfl
    · omega
    · omega
    · exact t.inode_unique p p' x y hx hy hi
  inode_lt p x hp := by
    by_cases h : p = n :: q
    · subst h
      rw [Function.update_self] at hp
      cases hp
      exact Nat.lt_succ_self _
    · rw [Function.update_of_ne h] at hp
      exact Nat.lt_succ_of_lt (t.inode_lt p x hp)

/-- Take out a file or an empty directory. -/
def remove (t : Tree ν) (n : ν) (q : Path ν) (hempty : ∀ m, t.node (m :: n :: q) = none) :
    Tree ν where
  node := Function.update t.node (n :: q) none
  paths := t.paths
  next := t.next
  mem_paths p hp := by
    by_cases h : p = n :: q
    · subst h
      rw [Function.update_self] at hp
      exact absurd rfl hp
    · rw [Function.update_of_ne h] at hp
      exact t.mem_paths p hp
  root := by
    rw [Function.update_of_ne (List.cons_ne_nil n q).symm]
    exact t.root
  closed m q' hm := by
    by_cases h : m :: q' = n :: q
    · rw [h, Function.update_self] at hm
      exact absurd rfl hm
    · rw [Function.update_of_ne h] at hm
      rw [Function.update_of_ne]
      · exact t.closed m q' hm
      · intro heq
        subst heq
        exact hm (hempty m)
  inode_unique p p' x y hp hp' := by
    have hold : ∀ p x, Function.update t.node (n :: q) none p = some x → t.node p = some x := by
      intro p x hp
      by_cases h : p = n :: q
      · subst h
        rw [Function.update_self] at hp
        cases hp
      · rwa [Function.update_of_ne h] at hp
    exact t.inode_unique p p' x y (hold p x hp) (hold p' y hp')
  inode_lt p x hp := by
    by_cases h : p = n :: q
    · subst h
      rw [Function.update_self] at hp
      cases hp
    · rw [Function.update_of_ne h] at hp
      exact t.inode_lt p x hp

/-- Where the entry at `p` was before `old` became `new`. -/
def origin (old new p : Path ν) : Path ν :=
  if new <:+ p then p.take (p.length - new.length) ++ old else p

theorem origin_append (old new rel : Path ν) : origin old new (rel ++ new) = rel ++ old := by
  simp [origin]

/-- Rename a directory to a free name or over an empty directory. -/
def rename (t : Tree ν) (old : Path ν) (n : ν) (q : Path ν) (hdir : t.isDir q = true)
    (hout : ¬ old <:+ n :: q) : Tree ν where
  node p := if old <:+ p ∧ ¬ n :: q <:+ p then none else t.node (origin old (n :: q) p)
  paths := t.paths ++ t.paths.map fun p => p.take (p.length - old.length) ++ n :: q
  next := t.next
  mem_paths p hp := by
    rw [List.mem_append, List.mem_map]
    split at hp
    · exact absurd rfl hp
    · by_cases hnew : n :: q <:+ p
      · obtain ⟨rel, rfl⟩ := hnew
        rw [origin_append] at hp
        exact Or.inr ⟨rel ++ old, t.mem_paths _ hp, by simp⟩
      · rw [origin, if_neg hnew] at hp
        exact Or.inl (t.mem_paths _ hp)
  root := by
    have hne : ¬ n :: q <:+ [] := fun h => List.cons_ne_nil n q (List.suffix_nil.mp h)
    have hold : ¬ old <:+ [] := by
      intro h
      rw [List.suffix_nil.mp h] at hout
      exact hout (List.nil_suffix)
    rw [if_neg (fun h => hold h.1), origin, if_neg hne]
    exact t.root
  closed m p hp := by
    split at hp
    · exact absurd rfl hp
    · rename_i hkeep
      by_cases hnew : n :: q <:+ p
      · -- below the new name, an entry and its directory come from the same place
        have hnew' : n :: q <:+ m :: p := hnew.trans (List.suffix_cons m p)
        obtain ⟨rel, rfl⟩ := hnew
        rw [← List.cons_append, origin_append] at hp
        obtain ⟨i, hi⟩ := t.closed m (rel ++ old) hp
        exact ⟨i, by rw [if_neg (fun h => h.2 (List.suffix_append rel _)), origin_append, hi]⟩
      · have hold : ¬ old <:+ p := by
          intro h
          by_cases hnew' : n :: q <:+ m :: p
          · rcases List.suffix_cons_iff.mp hnew' with heq | hs
            · obtain ⟨rfl, rfl⟩ := List.cons.inj heq
              exact hout (h.trans (List.suffix_cons _ _))
            · exact hnew hs
          · exact hkeep ⟨h.trans (List.suffix_cons m p), hnew'⟩
        rw [if_neg (fun h => hold h.1), origin, if_neg hnew]
        by_cases hnew' : n :: q <:+ m :: p
        · rcases List.suffix_cons_iff.mp hnew' with heq | hs
          · obtain ⟨rfl, rfl⟩ := List.cons.inj heq
            exact isDir_iff.mp hdir
          · exact absurd hs hnew
        · rw [origin, if_neg hnew'] at hp
          exact t.closed m p hp
  inode_unique p p' x y hp hp' hi := by
    split at hp
    · cases hp
    · rename_i hkeep
      split at hp'
      · cases hp'
      · rename_i hkeep'
        have hsame := t.inode_unique _ _ x y hp hp' hi
        by_cases hnew : n :: q <:+ p <;> by_cases hnew' : n :: q <:+ p'
        · obtain ⟨rel, rfl⟩ := hnew
          obtain ⟨rel', rfl⟩ := hnew'
          rw [origin_append, origin_append] at hsame
          rw [List.append_cancel_right hsame]
        · obtain ⟨rel, rfl⟩ := hnew
          rw [origin_append, origin, if_neg hnew'] at hsame
          exact absurd ⟨hsame ▸ List.suffix_append rel old, hnew'⟩ hkeep'
        · obtain ⟨rel', rfl⟩ := hnew'
          rw [origin_append, origin, if_neg hnew] at hsame
          exact absurd ⟨hsame ▸ List.suffix_append rel' old, hnew⟩ hkeep
        · rwa [origin, if_neg hnew, origin, if_neg hnew'] at hsame
  inode_lt p x hp := by
    split at hp
    · cases hp
    · exact t.inode_lt _ x hp

section Create
variable {kind : Kind} (hfree : t.node (n :: q) = none) (hdir : t.isDir q = true)

theorem create_self : (t.create kind n q hfree hdir).node (n :: q) = some ⟨kind, t.next⟩ :=
  Function.update_self _ _ _

theorem create_of_ne (hne : p ≠ n :: q) : (t.create kind n q hfree hdir).node p = t.node p :=
  Function.update_of_ne hne _ _

/-- What was there stays. -/
theorem create_of_ne_none (hp : t.node p ≠ none) :
    (t.create kind n q hfree hdir).node p = t.node p := by
  refine create_of_ne hfree hdir ?_
  intro heq
  subst heq
  exact hp hfree

/-- A new entry has nothing below it. -/
theorem create_below (hp : (t.create kind n q hfree hdir).node p ≠ none) (hs : n :: q <:+ p) :
    p = n :: q := by
  by_contra hne
  rw [create_of_ne hfree hdir hne] at hp
  exact isDir_ne_none (isDir_of_suffix hp hs fun h => hne h.symm) hfree

theorem kept_create : Kept t (t.create kind n q hfree hdir) none (some (n :: q)) where
  node_eq p _ hne := by
    have hp : p ≠ n :: q := fun h => hne _ (Eq.refl _) (h ▸ List.suffix_rfl)
    exact create_of_ne hfree hdir hp
  not_gone p _ _ a ha := by cases ha

end Create

theorem kept_remove (hempty : ∀ m, t.node (m :: n :: q) = none) :
    Kept t (t.remove n q hempty) (some (n :: q)) none := by
  have hgone : (t.remove n q hempty).node (n :: q) = none := Function.update_self _ _ _
  refine ⟨fun p hne _ => ?_, fun p hp _ a ha => ?_⟩
  · have hp : p ≠ n :: q := fun h => hne _ (Eq.refl _) (h ▸ List.suffix_rfl)
    exact Function.update_of_ne hp _ _
  · obtain rfl := Option.some.inj ha
    intro hs
    by_cases heq : n :: q = p
    · exact hp (heq ▸ hgone)
    · exact isDir_ne_none (isDir_of_suffix hp hs heq) hgone

theorem kept_rename {old : Path ν} (hdir : t.isDir q = true) (hout : ¬ old <:+ n :: q) :
    Kept t (t.rename old n q hdir hout) (some old) (some (n :: q)) := by
  have hnode : ∀ p, (t.rename old n q hdir hout).node p =
      if old <:+ p ∧ ¬ n :: q <:+ p then none else t.node (origin old (n :: q) p) :=
    fun _ => Eq.refl _
  refine ⟨fun p hold hnew => ?_, fun p hp hnew a ha => ?_⟩
  · rw [hnode, if_neg (fun h => hold _ (Eq.refl _) h.1), origin, if_neg (hnew _ (Eq.refl _))]
  · obtain rfl := Option.some.inj ha
    intro hs
    exact hp (by rw [hnode, if_pos ⟨hs, hnew _ (Eq.refl _)⟩])

/-- What stands below the new name after a rename stood below the old one. -/
theorem rename_node_append {old : Path ν} (hdir : t.isDir q = true) (hout : ¬ old <:+ n :: q)
    (rel : Path ν) : (t.rename old n q hdir hout).node (rel ++ n :: q) = t.node (rel ++ old) := by
  have hnew : n :: q <:+ rel ++ n :: q := List.suffix_append rel _
  show (if old <:+ _ ∧ ¬ n :: q <:+ _ then none else t.node (origin old (n :: q) _)) = _
  rw [if_neg (fun h => h.2 hnew), origin_append]

end Operations

end Tree
end KmreManager.Lib.FileTree
