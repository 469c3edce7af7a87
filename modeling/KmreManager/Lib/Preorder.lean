import Mathlib.Data.List.Nodup
import Mathlib.Logic.Relation

/-! # Visiting a tree from the top

A tree is given by the children of its nodes, and every child is one level
deeper than its only parent. A visit that goes down as many levels as there are
meets each node below its start once. -/
namespace KmreManager.Lib.Preorder

variable {α : Type*} (children : α → List α)

/-- The nodes at and below `a`, each before its children. -/
def preorder : Nat → α → List α
  | 0, _ => []
  | levels + 1, a => a :: (children a).flatMap (preorder levels)

/-- `b` is `a` or stands below it. -/
abbrev Below (a b : α) : Prop := Relation.ReflTransGen (fun a b => b ∈ children a) a b

/-- Children are one level down, and have one parent. -/
structure Ranked (rank : α → Nat) : Prop where
  rank_child : ∀ a, ∀ b ∈ children a, rank b = rank a + 1
  parent_unique : ∀ a b c, c ∈ children a → c ∈ children b → a = b
  nodup : ∀ a, (children a).Nodup

variable {children} {rank : α → Nat} {levels : Nat} {a b c : α}

theorem below_of_mem_preorder (h : b ∈ preorder children levels a) : Below children a b := by
  induction levels generalizing a with
  | zero => cases h
  | succ levels ih =>
    rcases List.mem_cons.mp h with rfl | h
    · exact .refl
    · obtain ⟨c, hc, hb⟩ := List.mem_flatMap.mp h
      exact .head hc (ih hb)

theorem Ranked.le_of_below (hrank : Ranked children rank) (h : Below children a b) :
    rank a ≤ rank b := by
  induction h with
  | refl => exact Nat.le_refl _
  | tail _ hstep ih =>
    rw [hrank.rank_child _ _ hstep]
    exact Nat.le_succ_of_le ih

/-- A visit with a level for each step finds everything. -/
theorem Ranked.mem_preorder_of_below (hrank : Ranked children rank) (h : Below children a b)
    (hlevels : rank b < rank a + levels) : b ∈ preorder children levels a := by
  induction h using Relation.ReflTransGen.head_induction_on generalizing levels with
  | refl =>
    cases levels with
    | zero => omega
    | succ levels => exact List.mem_cons_self
  | head hstep hrest ih =>
    have hle := hrank.le_of_below hrest
    rw [hrank.rank_child _ _ hstep] at hle
    cases levels with
    | zero => omega
    | succ levels =>
      refine List.mem_cons_of_mem _ (List.mem_flatMap.mpr ⟨_, hstep, ih ?_⟩)
      rw [hrank.rank_child _ _ hstep]
      omega

/-- Two nodes of one level have nothing below them in common. -/
theorem Ranked.eq_of_below (hrank : Ranked children rank) (ha : Below children a c)
    (hb : Below children b c) (hlevel : rank a = rank b) : a = b := by
  induction ha with
  | refl =>
    rcases Relation.ReflTransGen.cases_tail hb with rfl | ⟨d, hd, hstep⟩
    · rfl
    · have hle := hrank.le_of_below hd
      rw [hrank.rank_child _ _ hstep] at hlevel
      omega
  | tail ha' hstep ih =>
    rcases Relation.ReflTransGen.cases_tail hb with rfl | ⟨d, hd, hstep'⟩
    · have hle := hrank.le_of_below ha'
      rw [hrank.rank_child _ _ hstep] at hlevel
      omega
    · exact ih (hrank.parent_unique _ _ _ hstep' hstep ▸ hd)

theorem Ranked.nodup_preorder (hrank : Ranked children rank) (levels : Nat) (a : α) :
    (preorder children levels a).Nodup := by
  induction levels generalizing a with
  | zero => exact List.nodup_nil
  | succ levels ih =>
    refine List.nodup_cons.mpr ⟨fun hmem => ?_, List.nodup_flatMap.mpr ⟨fun b _ => ih b, ?_⟩⟩
    · obtain ⟨b, hb, ha⟩ := List.mem_flatMap.mp hmem
      have hle := hrank.le_of_below (below_of_mem_preorder ha)
      rw [hrank.rank_child _ _ hb] at hle
      omega
    · refine (hrank.nodup a).imp_of_mem fun {b c} hb hc hne => ?_
      intro d hdb hdc
      refine hne (hrank.eq_of_below (below_of_mem_preorder hdb) (below_of_mem_preorder hdc) ?_)
      rw [hrank.rank_child _ _ hb, hrank.rank_child _ _ hc]

end KmreManager.Lib.Preorder
