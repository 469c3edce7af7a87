import Mathlib.Data.List.Basic
import Mathlib.Data.List.DropRight

/-! # The `QString` operations the services use

A `QString` is its sequence of characters. D-Bus strings and decoded file
names hold Unicode scalar values only, so no surrogate pair is ever split. -/
namespace KmreManager

abbrev QString := List Char

namespace QString

/-- `indexOf` from position `i` of the searched string on. -/
def indexOfFrom (pat : QString) : QString → Int → Int
  | [], i => if pat = [] then i else -1
  | c :: cs, i => if pat.isPrefixOf (c :: cs) then i else indexOfFrom pat cs (i + 1)

/-- `s.indexOf(pat)`: the first position of `pat`, or -1. -/
def indexOf (s pat : QString) : Int := indexOfFrom pat s 0

/-- `s.split(sep, QString::SkipEmptyParts)`. -/
def splitSkipEmpty (sep : Char) (s : QString) : List QString :=
  (s.splitOn sep).filter (· ≠ [])

/-- Case folding as far as it reaches the letters of an ASCII pattern. Two
letters outside ASCII fold into it: the long s and the Kelvin sign. -/
def foldCase (c : Char) : Char :=
  if c = 'ſ' then 's' else if c = 'K' then 'k' else c.toLower

/-- Does `s` start with `pat`, up to case? -/
def startsWithFolded (pat s : QString) : Bool :=
  (pat.map foldCase).isPrefixOf (s.map foldCase)

/-- The loop of `remove`: with `skip` characters of a match still to drop, and
the search resuming where the match was cut out. -/
def removeFrom (pat : QString) : Nat → QString → QString
  | _, [] => []
  | skip + 1, _ :: cs => removeFrom pat skip cs
  | 0, c :: cs =>
    if startsWithFolded pat (c :: cs) then removeFrom pat (pat.length - 1) cs
    else c :: removeFrom pat 0 cs

/-- `s.remove(pat, Qt::CaseInsensitive)`: every occurrence goes. -/
def removeCaseInsensitive (s pat : QString) : QString :=
  if pat = [] then s else removeFrom pat 0 s

/-- `QChar::isSpace`. -/
def isSpace (c : Char) : Bool :=
  c.toNat = 0x20 || (0x09 ≤ c.toNat && c.toNat ≤ 0x0D) || c.toNat = 0x85 || c.toNat = 0xA0 ||
    c.toNat = 0x1680 || (0x2000 ≤ c.toNat && c.toNat ≤ 0x200A) || c.toNat = 0x2028 ||
    c.toNat = 0x2029 || c.toNat = 0x202F || c.toNat = 0x205F || c.toNat = 0x3000

/-- `s.trimmed()`. -/
def trimmed (s : QString) : QString := (s.dropWhile isSpace).rdropWhile isSpace

/-- Splitting leaves a part exactly when some character is not the separator. -/
theorem splitSkipEmpty_ne_nil {sep : Char} {s : QString} :
    splitSkipEmpty sep s ≠ [] ↔ ∃ c ∈ s, c ≠ sep := by
  have hparts : (∃ part ∈ s.splitOn sep, part ≠ []) ↔ ∃ c ∈ s, c ≠ sep := by
    induction s with
    | nil => simp
    | cons c s ih =>
      rw [List.splitOn_cons_eq_if_modifyHead]
      by_cases hc : c = sep
      · subst hc
        simpa using ih
      · obtain ⟨part, parts, hs⟩ := List.exists_cons_of_ne_nil (List.splitOn_ne_nil sep s)
        rw [if_neg (by simpa using hc), hs]
        exact ⟨fun _ => ⟨c, List.mem_cons_self, hc⟩,
          fun _ => ⟨c :: part, List.mem_cons_self, List.cons_ne_nil c part⟩⟩
  rw [← hparts, splitSkipEmpty, ne_eq, List.filter_eq_nil_iff]
  simp

theorem indexOfFrom_ne_neg_one {pat s : QString} {i : Int} (hi : 0 ≤ i) :
    indexOfFrom pat s i ≠ -1 ↔ pat <:+: s := by
  induction s generalizing i with
  | nil =>
    rw [indexOfFrom, List.infix_nil]
    split <;> simp_all
    omega
  | cons c s ih =>
    rw [indexOfFrom, List.infix_cons_iff]
    by_cases hpre : pat.isPrefixOf (c :: s) = true
    · rw [if_pos hpre]
      exact ⟨fun _ => .inl (List.isPrefixOf_iff_prefix.mp hpre), fun _ => by omega⟩
    · rw [if_neg hpre, ih (by omega)]
      exact ⟨.inr, fun h => h.resolve_left (hpre ∘ List.isPrefixOf_iff_prefix.mpr)⟩

/-- `indexOf` finds what occurs. -/
theorem indexOf_ne_neg_one {s pat : QString} : s.indexOf pat ≠ -1 ↔ pat <:+: s :=
  indexOfFrom_ne_neg_one (Int.le_refl 0)

theorem splitOn_infix {sep : Char} {s part : QString} (h : part ∈ s.splitOn sep) : part <:+: s := by
  have hparts : ∀ s : QString, ∃ first rest, s.splitOn sep = first :: rest ∧ first <+: s ∧
      ∀ part ∈ rest, part <:+: s := by
    intro s
    induction s with
    | nil => exact ⟨[], [], by simp, List.nil_prefix, by simp⟩
    | cons c s ih =>
      obtain ⟨first, rest, hs, hfirst, hrest⟩ := ih
      rw [List.splitOn_cons_eq_if_modifyHead, hs]
      have hlonger : ∀ part, part <:+: s → part <:+: c :: s :=
        fun part hp => hp.trans (List.suffix_cons c s).isInfix
      by_cases hc : c = sep
      · refine ⟨[], first :: rest, by simp [hc], List.nil_prefix, ?_⟩
        exact List.forall_mem_cons.mpr
          ⟨hlonger _ hfirst.isInfix, fun part hp => hlonger _ (hrest part hp)⟩
      · refine ⟨c :: first, rest, by simp [hc], ?_, fun part hp => hlonger _ (hrest part hp)⟩
        exact (List.prefix_cons_inj c).mpr hfirst
  obtain ⟨first, rest, hs, hfirst, hrest⟩ := hparts s
  rw [hs] at h
  obtain rfl | hp := List.mem_cons.mp h
  · exact hfirst.isInfix
  · exact hrest part hp

/-- The parts put together lack the separators only. -/
theorem flatten_splitSkipEmpty (sep : Char) (s : QString) :
    (splitSkipEmpty sep s).flatten = s.filter (· ≠ sep) := by
  have hparts : (s.splitOn sep).flatten = s.filter (· ≠ sep) := by
    induction s with
    | nil => simp
    | cons c s ih =>
      obtain ⟨part, parts, hs⟩ := List.exists_cons_of_ne_nil (List.splitOn_ne_nil sep s)
      rw [List.splitOn_cons_eq_if_modifyHead, hs]
      rw [hs] at ih
      by_cases hc : c = sep
      · simpa [hc] using ih
      · simpa [hc] using ih
  rw [splitSkipEmpty, ← hparts]
  induction s.splitOn sep with
  | nil => rfl
  | cons part parts ih =>
    by_cases hpart : part = []
    · simpa [hpart] using ih
    · simpa [hpart] using ih

theorem splitSkipEmpty_append {sep : Char} {s t : QString} : splitSkipEmpty sep (s ++ sep :: t) =
    splitSkipEmpty sep s ++ splitSkipEmpty sep t := by
  rw [splitSkipEmpty, List.splitOn_append_cons_self, List.filter_append]
  rfl

/-- A word between separators. -/
theorem splitSkipEmpty_word {sep : Char} {left word right : QString} (hne : word ≠ [])
    (hword : sep ∉ word) (hleft : ∀ c ∈ left, c = sep) (hright : ∀ c ∈ right, c = sep) :
    splitSkipEmpty sep (left ++ (word ++ right)) = [word] := by
  have hone : splitSkipEmpty sep word = [word] := by
    rw [splitSkipEmpty, List.splitOn_eq_singleton hword]
    simp [hne]
  induction left with
  | nil =>
    cases right with
    | nil => rwa [List.nil_append, List.append_nil]
    | cons c right =>
      obtain ⟨rfl, hrest⟩ := List.forall_mem_cons.mp hright
      have hnone : splitSkipEmpty c right = [] := by
        by_contra hsome
        obtain ⟨d, hd, hdc⟩ := splitSkipEmpty_ne_nil.mp hsome
        exact hdc (hrest d hd)
      rw [List.nil_append, splitSkipEmpty_append, hone, hnone]
      rfl
  | cons c left ih =>
    obtain ⟨rfl, hrest⟩ := List.forall_mem_cons.mp hleft
    have hskip : splitSkipEmpty c ([] ++ c :: (left ++ (word ++ right))) =
        splitSkipEmpty c [] ++ splitSkipEmpty c (left ++ (word ++ right)) := splitSkipEmpty_append
    rw [ih hrest] at hskip
    simpa [splitSkipEmpty] using hskip

/-- What holds no separator stays in one part. -/
theorem exists_part_infix {sep : Char} {s mid t : QString} (h : sep ∉ mid) :
    ∃ part ∈ (s ++ (mid ++ t)).splitOn sep, mid <:+: part := by
  induction s with
  | nil =>
    by_cases hsep : sep ∈ t
    · obtain ⟨before, after, rfl, hbefore⟩ := List.eq_append_cons_of_mem hsep
      have hfirst : sep ∉ mid ++ before := by
        rw [List.mem_append, not_or]
        exact ⟨h, hbefore⟩
      rw [List.nil_append, ← List.append_assoc, List.splitOn_append_cons_self_of_not_mem hfirst]
      exact ⟨_, List.mem_cons_self, (List.prefix_append mid before).isInfix⟩
    · have hall : sep ∉ mid ++ t := by
        rw [List.mem_append, not_or]
        exact ⟨h, hsep⟩
      rw [List.nil_append, List.splitOn_eq_singleton hall]
      exact ⟨_, List.mem_singleton.mpr rfl, (List.prefix_append mid t).isInfix⟩
  | cons c s ih =>
    obtain ⟨part, hpart, hmid⟩ := ih
    obtain ⟨first, rest, hs⟩ :=
      List.exists_cons_of_ne_nil (List.splitOn_ne_nil sep (s ++ (mid ++ t)))
    rw [List.cons_append, List.splitOn_cons_eq_if_modifyHead]
    split
    · exact ⟨part, List.mem_cons_of_mem _ hpart, hmid⟩
    · rw [hs] at hpart ⊢
      rcases List.mem_cons.mp hpart with rfl | hpart
      · exact ⟨_, List.mem_cons_self, hmid.trans (List.suffix_cons c part).isInfix⟩
      · exact ⟨part, List.mem_cons_of_mem _ hpart, hmid⟩

/-- The first field of a text ends where its separator stands. -/
theorem field_cancel {c : Char} {a a' s s' : QString} (ha : c ∉ a) (ha' : c ∉ a')
    (h : a ++ c :: s = a' ++ c :: s') : a = a' ∧ s = s' := by
  induction a generalizing a' with
  | nil =>
    cases a' with
    | nil => exact ⟨rfl, (List.cons.inj h).2⟩
    | cons x a' => exact absurd ((List.cons.inj h).1 ▸ List.mem_cons_self) ha'
  | cons x a ih =>
    cases a' with
    | nil => exact absurd ((List.cons.inj h).1 ▸ List.mem_cons_self) ha
    | cons y a' =>
      obtain ⟨rfl, htail⟩ := List.cons.inj h
      obtain ⟨rfl, hs⟩ := ih (List.not_mem_of_not_mem_cons ha) (List.not_mem_of_not_mem_cons ha')
        htail
      exact ⟨rfl, hs⟩

/-- The last field of a text starts after its separator. -/
theorem lastField_cancel {c : Char} {a a' s s' : QString} (hs : c ∉ s) (hs' : c ∉ s')
    (h : a ++ c :: s = a' ++ c :: s') : a = a' ∧ s = s' := by
  have hreverse : s.reverse ++ c :: a.reverse = s'.reverse ++ c :: a'.reverse := by
    simpa using congrArg List.reverse h
  obtain ⟨hlast, hrest⟩ := field_cancel (by simpa using hs) (by simpa using hs') hreverse
  exact ⟨List.reverse_injective hrest, List.reverse_injective hlast⟩

theorem isDigit_bounds {c : Char} (h : c.isDigit = true) : 48 ≤ c.toNat ∧ c.toNat ≤ 57 := by
  simp only [Char.isDigit, Bool.and_eq_true, decide_eq_true_eq, UInt32.le_iff_toNat_le] at h
  exact h

theorem isSpace_of_ascii {c : Char} (hlow : 0x20 < c.toNat) (hhigh : c.toNat < 0x80) :
    isSpace c = false := by
  simp only [isSpace, Bool.or_eq_false_iff, Bool.and_eq_false_iff, decide_eq_false_iff_not]
  omega

/-- What is trimmed off is white space on both sides. -/
theorem trimmed_spec (s : QString) :
    ∃ left right, s = left ++ s.trimmed ++ right ∧ (∀ c ∈ left, isSpace c = true) ∧
      ∀ c ∈ right, isSpace c = true := by
  refine ⟨s.takeWhile isSpace, (s.dropWhile isSpace).rtakeWhile isSpace, ?_, ?_, ?_⟩
  · rw [trimmed, List.append_assoc, List.rdropWhile_append_rtakeWhile,
      List.takeWhile_append_dropWhile]
  · exact fun c hc => List.mem_takeWhile_imp hc
  · exact fun c hc => List.mem_rtakeWhile_imp hc

end QString
end KmreManager
