import Mathlib.Data.List.Nodup

/-! # Insertion-ordered sets keyed by a function

`insertNew` and `eraseKey` are the list operations of a program that keeps a
list without repeated keys by hand. `OrderedSet` is what such a list stands
for: an ordered set that carries its own proof that no key occurs twice, with
insertion at the end, removal by key and clearing. `firstBy` lists the first
occurrence of each key, which is what inserting a whole list amounts to. -/
namespace KmreManager.Lib.KeyedList

variable {α κ : Type*} [DecidableEq κ] {key : α → κ}

/-- Append `a` unless an element with its key is there already. -/
def insertNew (key : α → κ) (l : List α) (a : α) : List α :=
  if key a ∈ l.map key then l else l ++ [a]

/-- Remove the first element with key `k`. -/
def eraseKey (key : α → κ) (l : List α) (k : κ) : List α :=
  l.eraseP fun b => key b = k

/-- The elements whose key no earlier element has. -/
def firstBy (key : α → κ) : List α → List α
  | [] => []
  | a :: l => a :: (firstBy key l).filter fun b => key b ≠ key a

theorem insertNew_of_mem {l : List α} {a : α} (h : key a ∈ l.map key) :
    insertNew key l a = l := if_pos h

theorem insertNew_of_not_mem {l : List α} {a : α} (h : key a ∉ l.map key) :
    insertNew key l a = l ++ [a] := if_neg h

theorem map_insertNew_nodup {l : List α} (a : α) (h : (l.map key).Nodup) :
    ((insertNew key l a).map key).Nodup := by
  by_cases ha : key a ∈ l.map key
  · rwa [insertNew_of_mem ha]
  · rw [insertNew_of_not_mem ha, List.map_append, List.nodup_append]
    refine ⟨h, by simp, ?_⟩
    intro x hx y hy hxy
    rw [List.map_singleton, List.mem_singleton] at hy
    exact ha (hy ▸ hxy ▸ hx)

/-- Without repeated keys, removing the first match removes the only one. -/
theorem eraseKey_eq_filter {l : List α} (k : κ) (h : (l.map key).Nodup) :
    eraseKey key l k = l.filter fun b => key b ≠ k := by
  unfold eraseKey
  induction l with
  | nil => rfl
  | cons a l ih =>
    obtain ⟨ha, hl⟩ := List.nodup_cons.mp h
    by_cases hk : key a = k
    · have hrest : l.filter (fun b => key b ≠ k) = l := by
        rw [List.filter_eq_self]
        intro b hb
        have hne : key b ≠ k := fun he => ha (List.mem_map.mpr ⟨b, hb, he.trans hk.symm⟩)
        simpa using hne
      rw [List.eraseP_cons_of_pos (by simpa using hk), List.filter_cons_of_neg (by simpa using hk),
        hrest]
    · rw [List.eraseP_cons_of_neg (by simpa using hk), List.filter_cons_of_pos (by simpa using hk),
        ih hl]

/-- Keys other than `k₀` survive a filter on `k₀`. -/
theorem mem_map_filter_ne {l : List α} {k k₀ : κ} (hk : k ≠ k₀) :
    k ∈ (l.filter fun b => key b ≠ k₀).map key ↔ k ∈ l.map key := by
  simp only [List.mem_map, List.mem_filter]
  constructor
  · rintro ⟨c, ⟨hc, _⟩, rfl⟩; exact ⟨c, hc, rfl⟩
  · rintro ⟨c, hc, rfl⟩; exact ⟨c, ⟨hc, by simpa using hk⟩, rfl⟩

/-- `firstBy` loses no key. -/
theorem mem_map_firstBy {l : List α} {k : κ} : k ∈ (firstBy key l).map key ↔ k ∈ l.map key := by
  induction l with
  | nil => rfl
  | cons b l ih =>
    by_cases hk : k = key b
    · simp [firstBy, hk]
    · rw [firstBy, List.map_cons, List.mem_cons, List.map_cons, List.mem_cons,
        mem_map_filter_ne hk, ih]

/-- Inserting a list into a list: its first occurrences, less the keys that
were there before. -/
theorem foldl_insertNew (acc l : List α) :
    l.foldl (insertNew key) acc =
      acc ++ (firstBy key l).filter fun b => key b ∉ acc.map key := by
  induction l generalizing acc with
  | nil => simp [firstBy]
  | cons a l ih =>
    rw [List.foldl_cons, ih]
    by_cases ha : key a ∈ acc.map key
    · rw [insertNew_of_mem ha, firstBy, List.filter_cons_of_neg (by simpa using ha),
        List.filter_filter]
      congr 1
      apply List.filter_congr
      intro b _
      by_cases hb : key b ∈ acc.map key
      · simp [hb]
      · have hne : key b ≠ key a := fun he => hb (he ▸ ha)
        simp [hb, hne]
    · rw [insertNew_of_not_mem ha, firstBy, List.filter_cons_of_pos (by simpa using ha),
        List.filter_filter, List.append_assoc, List.singleton_append]
      congr 2
      apply List.filter_congr
      intro b _
      simp [not_or, Bool.decide_and]

/-- Inserting a list into nothing keeps the first occurrence of each key. -/
theorem foldl_insertNew_nil (l : List α) : l.foldl (insertNew key) [] = firstBy key l := by
  simp [foldl_insertNew]

/-- What comes later is listed later. -/
theorem firstBy_prefix {l l' : List α} (h : l <+: l') : firstBy key l <+: firstBy key l' := by
  obtain ⟨rest, rfl⟩ := h
  rw [← foldl_insertNew_nil (l ++ rest), List.foldl_append, foldl_insertNew_nil, foldl_insertNew]
  exact List.prefix_append _ _

theorem mem_foldl_insertNew {acc l : List α} {b : α} (hb : b ∈ acc) :
    b ∈ l.foldl (insertNew key) acc := by
  rw [foldl_insertNew]
  exact List.mem_append_left _ hb

theorem mem_map_foldl_insertNew {acc l : List α} {k : κ} :
    k ∈ (l.foldl (insertNew key) acc).map key ↔ k ∈ acc.map key ∨ k ∈ l.map key := by
  rw [foldl_insertNew, List.map_append, List.mem_append]
  by_cases hk : k ∈ acc.map key
  · simp [hk]
  · rw [← mem_map_firstBy (l := l)]
    simp only [hk, false_or, List.mem_map, List.mem_filter]
    constructor
    · rintro ⟨c, ⟨hc, _⟩, rfl⟩; exact ⟨c, hc, rfl⟩
    · rintro ⟨c, hc, rfl⟩; exact ⟨c, ⟨hc, by simpa using hk⟩, rfl⟩

/-! ## Looking up one key -/

theorem filter_insertNew (l : List α) (a : α) (k : κ) :
    (insertNew key l a).filter (fun b => key b = k) =
      if key a = k ∧ l.filter (fun b => key b = k) = [] then [a]
      else l.filter fun b => key b = k := by
  by_cases ha : key a ∈ l.map key
  · rw [insertNew_of_mem ha, if_neg]
    rintro ⟨rfl, hnil⟩
    obtain ⟨b, hb, he⟩ := List.mem_map.mp ha
    exact List.filter_eq_nil_iff.mp hnil b hb (by simpa using he)
  · rw [insertNew_of_not_mem ha, List.filter_append]
    by_cases hk : key a = k
    · have hnil : l.filter (fun b => key b = k) = [] := by
        rw [List.filter_eq_nil_iff]
        intro b hb he
        exact ha (List.mem_map.mpr ⟨b, hb, (of_decide_eq_true he).trans hk.symm⟩)
      rw [if_pos ⟨hk, hnil⟩, hnil, List.filter_cons_of_pos (by simpa using hk)]
      rfl
    · rw [if_neg fun h => hk h.1, List.filter_cons_of_neg (by simpa using hk), List.filter_nil,
        List.append_nil]

theorem filter_eraseKey (l : List α) (k₀ k : κ) :
    (eraseKey key l k₀).filter (fun b => key b = k) =
      if k₀ = k then (l.filter fun b => key b = k).tail else l.filter fun b => key b = k := by
  unfold eraseKey
  induction l with
  | nil => simp
  | cons a l ih =>
    by_cases ha : key a = k₀
    · rw [List.eraseP_cons_of_pos (by simpa using ha)]
      by_cases hk : k₀ = k
      · rw [if_pos hk, List.filter_cons_of_pos (by simpa using ha.trans hk), List.tail_cons]
      · rw [if_neg hk, List.filter_cons_of_neg (by simpa [ha] using hk)]
    · rw [List.eraseP_cons_of_neg (by simpa using ha)]
      by_cases hk : k₀ = k
      · subst hk
        rw [List.filter_cons_of_neg (by simpa using ha), ih,
          List.filter_cons_of_neg (by simpa using ha)]
      · rw [if_neg hk] at ih ⊢
        simp only [List.filter_cons, ih]

/-! ## Ordered sets -/

/-- An insertion-ordered set in which no key occurs twice. -/
structure OrderedSet (key : α → κ) where
  items : List α
  nodup : (items.map key).Nodup

namespace OrderedSet

/-- The requests an ordered set answers. -/
inductive Request (α κ : Type*)
  | clear
  | insert (a : α)
  | erase (k : κ)

def clear : OrderedSet key := ⟨[], List.nodup_nil⟩

def insert (s : OrderedSet key) (a : α) : OrderedSet key :=
  if h : key a ∈ s.items.map key then s
  else ⟨s.items ++ [a], insertNew_of_not_mem h ▸ map_insertNew_nodup a s.nodup⟩

def erase (s : OrderedSet key) (k : κ) : OrderedSet key :=
  ⟨s.items.filter fun b => key b ≠ k, s.nodup.sublist (List.filter_sublist.map key)⟩

def apply (s : OrderedSet key) : Request α κ → OrderedSet key
  | .clear => clear
  | .insert a => s.insert a
  | .erase k => s.erase k

theorem items_insert (s : OrderedSet key) (a : α) :
    (s.insert a).items = insertNew key s.items a := by
  unfold insert
  split
  · rename_i h; exact (insertNew_of_mem h).symm
  · rename_i h; exact (insertNew_of_not_mem h).symm

theorem items_erase (s : OrderedSet key) (k : κ) :
    (s.erase k).items = eraseKey key s.items k := (eraseKey_eq_filter k s.nodup).symm

end OrderedSet

end KmreManager.Lib.KeyedList
