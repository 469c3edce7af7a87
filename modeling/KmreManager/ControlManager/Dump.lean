import Mathlib.Algebra.Group.Nat.Defs
import Mathlib.Algebra.Group.Int.Defs
import KmreManager.ControlManager.MediaLists

/-! # Dumps

A dump of the media store is cut into type-0 messages that all carry its
size. `mCurrentNum` counts the records received; a zero makes the next message
clear the lists, and reaching the size makes the count zero again. Three
results: the cut does not matter, what an unfinished count does to the next
dump, and what two dumps in flight leave. -/
namespace KmreManager.ControlManager
open KmreManager.Lib KmreManager.Lib.Runs KmreManager.Lib.KeyedList
open KmreManager.HostTree (kylinHost started photo clip)

/-- The messages of a dump. -/
def dump (totalNum : Int32) (batches : List AndroidMetaList) : List SyncFiles :=
  batches.map fun metas => ⟨0, metas, totalNum⟩

variable {F : Type} {host : Host F}

/-! ## One message of a dump -/

/-- `m_currentNum += metas.length()` on 32-bit integers. -/
theorem toInt_add_length (a : Int32) {b : Nat} (hb : b < 2 ^ 31) :
    (a + Int32.ofNat b).toInt =
      if a.toInt + b < 2 ^ 31 then a.toInt + b else a.toInt + b - 2 ^ 32 := by
  have hlo := a.le_toInt
  have hhi := a.toInt_lt
  rw [Int32.toInt_add, Int32.toInt_ofNat_of_lt hb, Int.bmod_def]
  split_ifs <;> omega

theorem toInt_eq_zero {a : Int32} : a.toInt = 0 ↔ a = 0 := by
  rw [← Int32.toInt_inj, Int32.toInt_zero]

/-- What the next message of a dump adds its records to. -/
def pending (s : State F) : MediaLists := if s.mCurrentNum = 0 then {} else s.lists

theorem pending_of_zero {s : State F} (h : s.mCurrentNum = 0) : pending s = {} := if_pos h

theorem pending_of_ne {s : State F} (h : s.mCurrentNum ≠ 0) : pending s = s.lists := if_neg h

section Message
variable {s s' : State F} {b : AndroidMetaList} {totalNum : Int32}

theorem dump_lists (h : onSyncFiles host s ⟨0, b, totalNum⟩ = some s') :
    s'.lists = b.foldl MediaLists.insert (pending s) := by
  rw [onSyncFiles_lists h]
  simp only [true_and]
  rfl

/-- Below the size the count stands as it was added up. -/
theorem dump_below {k : Int} (h : onSyncFiles host s ⟨0, b, totalNum⟩ = some s')
    (hadd : (s.mCurrentNum + Int32.ofNat b.length).toInt = k) (hk : k < totalNum.toInt) :
    s'.mCurrentNum.toInt = k := by
  have hlt : ¬ s.mCurrentNum + Int32.ofNat b.length ≥ totalNum := by
    rw [ge_iff_le, Int32.le_iff_toInt_le, hadd]
    omega
  have hc := onSyncFiles_counters h
  simp only [counters, if_true, hlt, and_false, if_false, Prod.mk.injEq] at hc
  rw [hc.2, hadd]

/-- A message that does not reach the size leaves it standing. -/
theorem dump_short (h : onSyncFiles host s ⟨0, b, totalNum⟩ = some s') (hb : b.length < 2 ^ 31)
    (hshort : s.mCurrentNum.toInt + b.length < totalNum.toInt) :
    s'.mCurrentNum.toInt = s.mCurrentNum.toInt + b.length := by
  have hhi := totalNum.toInt_lt
  have hadd : (s.mCurrentNum + Int32.ofNat b.length).toInt = s.mCurrentNum.toInt + b.length := by
    rw [toInt_add_length _ hb, if_pos (by omega)]
  exact dump_below h hadd hshort

/-- A message that reaches the size resets both counters. -/
theorem dump_full (h : onSyncFiles host s ⟨0, b, totalNum⟩ = some s') (hne : b ≠ [])
    (hb : b.length < 2 ^ 31) (hfull : totalNum.toInt ≤ s.mCurrentNum.toInt + b.length)
    (hfit : s.mCurrentNum.toInt + b.length < 2 ^ 31) :
    s'.mTotalNum = 0 ∧ s'.mCurrentNum = 0 := by
  have hge : s.mCurrentNum + Int32.ofNat b.length ≥ totalNum := by
    rw [ge_iff_le, Int32.le_iff_toInt_le, toInt_add_length _ hb, if_pos hfit]
    exact hfull
  have hc := onSyncFiles_counters h
  simp only [counters, if_true, hge, and_true, ne_eq, hne, not_false_eq_true,
    Prod.mk.injEq] at hc
  exact hc

/-- A message that overflows the count makes it negative. -/
theorem dump_overflow (h : onSyncFiles host s ⟨0, b, totalNum⟩ = some s')
    (hb : b.length < 2 ^ 31) (htotal : 0 ≤ totalNum.toInt)
    (hover : 2 ^ 31 ≤ s.mCurrentNum.toInt + b.length) :
    s'.mCurrentNum.toInt = s.mCurrentNum.toInt + b.length - 2 ^ 32 := by
  have hhi := s.mCurrentNum.toInt_lt
  have hadd : (s.mCurrentNum + Int32.ofNat b.length).toInt =
      s.mCurrentNum.toInt + b.length - 2 ^ 32 := by
    rw [toInt_add_length _ hb, if_neg (by omega)]
  exact dump_below h hadd (by omega)

end Message

/-! ## Batches that do not finish a dump -/

section Run
variable {s s' : State F} {batches : List AndroidMetaList} {totalNum : Int32}

/-- Batches that stay below the size, and whose count does not pass through
zero, only add their records. -/
theorem run_dump_short (hrun : run (onSyncFiles host) s (dump totalNum batches) = some s')
    (hshort : s.mCurrentNum.toInt + batches.flatten.length < totalNum.toInt)
    (hsign : 0 ≤ s.mCurrentNum.toInt ∨ s.mCurrentNum.toInt + batches.flatten.length < 0)
    (hlen : batches.flatten.length < 2 ^ 31) :
    pending s' = batches.flatten.foldl MediaLists.insert (pending s) ∧
      s'.mCurrentNum.toInt = s.mCurrentNum.toInt + batches.flatten.length := by
  induction batches generalizing s with
  | nil => cases hrun; simp
  | cons b bs ih =>
    obtain ⟨t, ht, hrest⟩ := run_cons_some.mp hrun
    rw [List.flatten_cons, List.length_append] at hshort hsign hlen
    have hcur := dump_short ht (by omega) (by omega)
    have hpend : pending t = b.foldl MediaLists.insert (pending s) := by
      by_cases hzero : t.mCurrentNum = 0
      · -- the count is still zero, so the batch was empty and nothing was there to clear
        have ht0 := toInt_eq_zero.mpr hzero
        have hs0 : s.mCurrentNum = 0 := toInt_eq_zero.mp (by omega)
        have hb : b = [] := List.length_eq_zero_iff.mp (by omega)
        rw [pending_of_zero hzero, hb, List.foldl_nil, pending_of_zero hs0]
      · rw [pending_of_ne hzero, dump_lists ht]
    obtain ⟨hl, hc⟩ := ih hrest (by omega) (by omega) (by omega)
    rw [hl, hpend, List.flatten_cons, List.foldl_append, List.length_append]
    refine ⟨rfl, ?_⟩
    rw [hc, hcur]
    omega

/-- The same, with a last batch of any size. -/
theorem run_dump_lists {front : List AndroidMetaList} {last : AndroidMetaList}
    (hrun : run (onSyncFiles host) s (dump totalNum (front ++ [last])) = some s')
    (hpos : 0 ≤ s.mCurrentNum.toInt)
    (hshort : s.mCurrentNum.toInt + front.flatten.length < totalNum.toInt) :
    s'.lists = (front ++ [last]).flatten.foldl MediaLists.insert (pending s) := by
  have hhi := totalNum.toInt_lt
  rw [dump, List.map_append, run_append_some] at hrun
  obtain ⟨t, hfront, hend⟩ := hrun
  obtain ⟨_, hstep, hnil⟩ := run_cons_some.mp hend
  cases hnil
  rw [dump_lists hstep, (run_dump_short hfront hshort (Or.inl hpos) (by omega)).1,
    ← List.foldl_append, List.flatten_append, List.flatten_singleton]

theorem forall_messageSplits_dump :
    (∀ msg ∈ dump totalNum batches, MessageSplits msg) ↔ ∀ m ∈ batches.flatten, Splits m := by
  simp only [dump, List.forall_mem_map, List.mem_flatten, MessageSplits, Handled, true_or,
    forall_const]
  exact ⟨fun h m ⟨b, hb, hm⟩ => h b hb m hm, fun h b hb m hm => h m ⟨b, hb, hm⟩⟩

theorem run_dump_files (hrun : run (onSyncFiles host) s (dump totalNum batches) = some s') :
    batches.flatten.foldlM (createLinks host) s.files = some s'.files := by
  induction batches generalizing s with
  | nil => cases hrun; rfl
  | cons b bs ih =>
    obtain ⟨t, ht, hrest⟩ := run_cons_some.mp hrun
    have hfiles : b.foldlM (createLinks host) s.files = some t.files := onSyncFiles_files ht
    rw [List.flatten_cons, List.foldlM_append, hfiles]
    exact ih hrest

end Run

/-- The records of one category after inserting a list into empty lists. -/
theorem get_foldl_insert (metas : AndroidMetaList) (c : Category) (l : MediaLists) :
    (metas.foldl MediaLists.insert l).get c =
      (metas.filter fun m => category m = c).foldl (insertNew AndroidMeta.path) (l.get c) := by
  induction metas generalizing l with
  | nil => rfl
  | cons m metas ih =>
    rw [List.foldl_cons, ih, get_insert]
    by_cases hc : category m = c
    · rw [if_pos hc, List.filter_cons_of_pos (by simpa using hc), List.foldl_cons]
    · rw [if_neg hc, List.filter_cons_of_neg (by simpa using hc)]

theorem get_foldl_insert_empty (metas : AndroidMetaList) (c : Category) :
    (metas.foldl MediaLists.insert {}).get c =
      firstBy AndroidMeta.path (metas.filter fun m => category m = c) := by
  rw [get_foldl_insert, MediaLists.get_empty, foldl_insertNew_nil]

/-- **The cut of a dump does not matter.** From a zero count, whatever the
lists held, a dump of `M` whose last batch is not empty ends with the first
occurrence of each path in the list of its category and nothing else, with both
counters zero, and with the links of `M`. -/
theorem dump_cut_irrelevant (host : Host F) (s : State F) (hs : s.mCurrentNum = 0)
    (M : AndroidMetaList) (hM : M ≠ []) (hsplit : ∀ m ∈ M, Splits m)
    (totalNum : Int32) (htotal : totalNum.toInt = M.length)
    (batches : List AndroidMetaList) (hcut : batches.flatten = M)
    (hlast : ∀ last ∈ batches.getLast?, last ≠ []) :
    ∃ s', run (onSyncFiles host) s (dump totalNum batches) = some s' ∧
      (∀ c, s'.lists.get c = firstBy AndroidMeta.path (M.filter fun m => category m = c)) ∧
      s'.mTotalNum = 0 ∧ s'.mCurrentNum = 0 ∧
      M.foldlM (createLinks host) s.files = some s'.files := by
  have hhi := totalNum.toInt_lt
  have hs0 : s.mCurrentNum.toInt = 0 := toInt_eq_zero.mpr hs
  obtain ⟨s', hrun⟩ := Option.isSome_iff_exists.mp
    ((run_onSyncFiles_isSome host s (dump totalNum batches)).mpr
      (forall_messageSplits_dump.mpr (hcut ▸ hsplit)))
  have hne : batches ≠ [] := by
    rintro rfl
    exact hM hcut.symm
  obtain ⟨front, last, rfl⟩ : ∃ front last, batches = front ++ [last] :=
    ⟨_, _, (List.dropLast_append_getLast hne).symm⟩
  have hlast' : last ≠ [] := hlast last (by simp)
  have hpos : 0 < last.length := List.length_pos_iff.mpr hlast'
  rw [List.flatten_append, List.flatten_singleton] at hcut
  have hlen : front.flatten.length + last.length = M.length := by
    rw [← List.length_append, hcut]
  have hlists := run_dump_lists hrun (by omega) (by omega)
  have hsplitRun := hrun
  rw [dump, List.map_append, run_append_some] at hsplitRun
  obtain ⟨t, hfront, hend⟩ := hsplitRun
  have hcur := (run_dump_short hfront (by omega) (Or.inl (by omega)) (by omega)).2
  obtain ⟨s'', hstep, hnil⟩ := run_cons_some.mp hend
  cases hnil
  have hfull := dump_full hstep hlast' (by omega) (by omega) (by omega)
  refine ⟨s', hrun, fun c => ?_, hfull.1, hfull.2, ?_⟩
  · rw [hlists, pending_of_zero hs, List.flatten_append, List.flatten_singleton, hcut]
    exact get_foldl_insert_empty M c
  · have hfiles := run_dump_files hrun
    rwa [List.flatten_append, List.flatten_singleton, hcut] at hfiles

/-- Three records, the last a duplicate, cut in two with an empty batch between. -/
theorem dump_cut_irrelevant_two :
    ∃ s', run (onSyncFiles kylinHost)
        { started (fun _ => none) with lists := { mOtherMetas := [clip] } }
        (dump 3 [[photo, clip], [], [photo]]) = some s' ∧
      s'.lists.get .image = [photo] ∧ s'.lists.get .other = [] := by
  obtain ⟨s', hrun, hlists, _⟩ := dump_cut_irrelevant kylinHost
    { started (fun _ => none) with lists := { mOtherMetas := [clip] } } rfl
    [photo, clip, photo] (by decide) (by decide) 3 (by decide) [[photo, clip], [], [photo]] rfl
    (by decide)
  exact ⟨s', hrun, (hlists .image).trans (by decide), (hlists .other).trans (by decide)⟩

/-! ## Records that outlive a dump -/

/-- Every record in the lists has one of these paths. -/
def Within (paths : List QString) (l : MediaLists) : Prop :=
  ∀ c, ∀ r ∈ l.get c, r.path ∈ paths

theorem within_empty (paths : List QString) : Within paths {} := by
  intro c r hr
  rw [MediaLists.get_empty] at hr
  cases hr

theorem within_foldl_insert {paths : List QString} {metas : AndroidMetaList} {l : MediaLists}
    (hmetas : ∀ m ∈ metas, m.path ∈ paths) :
    Within paths (metas.foldl MediaLists.insert l) ↔ Within paths l := by
  have hget : ∀ c, (∀ r ∈ (metas.foldl MediaLists.insert l).get c, r.path ∈ paths) ↔
      ∀ r ∈ l.get c, r.path ∈ paths := by
    intro c
    rw [get_foldl_insert]
    refine ⟨fun h r hr => h r (mem_foldl_insertNew hr), fun h r hr => ?_⟩
    rcases mem_map_foldl_insertNew.mp (List.mem_map_of_mem (f := AndroidMeta.path) hr) with hk | hk
    · obtain ⟨b, hb, he⟩ := List.mem_map.mp hk
      exact he ▸ h b hb
    · obtain ⟨b, hb, he⟩ := List.mem_map.mp hk
      exact he ▸ hmetas b (List.mem_filter.mp hb).1
  exact forall_congr' hget

/-- The count, started at `currentNum`, is zero before one of the batches: it
passes through zero, or reaches `size` without overflowing. -/
def Cleared (size : Nat) (currentNum : Int) (batches : List AndroidMetaList) : Prop :=
  ∃ front rest, batches = front ++ rest ∧ rest ≠ [] ∧
    (currentNum + front.flatten.length = 0 ∨
      front ≠ [] ∧ size ≤ currentNum + front.flatten.length ∧
        currentNum + front.flatten.length < 2 ^ 31)

theorem cleared_cons {size : Nat} {currentNum : Int} {b : AndroidMetaList}
    {bs : List AndroidMetaList} :
    Cleared size currentNum (b :: bs) ↔ currentNum = 0 ∨ ∃ front rest, bs = front ++ rest ∧
      rest ≠ [] ∧ (currentNum + b.length + front.flatten.length = 0 ∨
        size ≤ currentNum + b.length + front.flatten.length ∧
          currentNum + b.length + front.flatten.length < 2 ^ 31) := by
  constructor
  · rintro ⟨front, rest, heq, hrest, hcase⟩
    cases front with
    | nil =>
      left
      rcases hcase with h | ⟨h, _⟩
      · simpa using h
      · exact absurd rfl h
    | cons a front =>
      obtain ⟨rfl, rfl⟩ := List.cons.inj heq
      rw [List.flatten_cons, List.length_append, Int.natCast_add, ← Int.add_assoc] at hcase
      exact Or.inr ⟨front, rest, rfl, hrest, hcase.imp_right And.right⟩
  · rintro (rfl | ⟨front, rest, rfl, hrest, hcase⟩)
    · exact ⟨[], b :: bs, rfl, List.cons_ne_nil _ _, Or.inl rfl⟩
    · refine ⟨b :: front, rest, rfl, hrest, ?_⟩
      rw [List.flatten_cons, List.length_append, Int.natCast_add, ← Int.add_assoc]
      exact hcase.imp_right fun h => ⟨List.cons_ne_nil _ _, h⟩

/-- A batch moves the count on and leaves the question to the later ones. -/
theorem cleared_step {s s' : State F} {b : AndroidMetaList} {bs : List AndroidMetaList}
    {totalNum : Int32} {size : Nat} (htotal : totalNum.toInt = size)
    (h : onSyncFiles host s ⟨0, b, totalNum⟩ = some s') (hb : b ≠ [])
    (hlen : b.length + bs.flatten.length ≤ size) (hs : s.mCurrentNum.toInt ≠ 0) :
    Cleared size s'.mCurrentNum.toInt bs ↔ Cleared size s.mCurrentNum.toInt (b :: bs) := by
  have hhi := totalNum.toInt_lt
  have hcur := s.mCurrentNum.toInt_lt
  have hpre : ∀ front rest : List AndroidMetaList, bs = front ++ rest →
      front.flatten.length ≤ bs.flatten.length := by
    intro front rest heq
    rw [heq, List.flatten_append, List.length_append]
    exact Nat.le_add_right _ _
  rw [cleared_cons, or_iff_right hs]
  by_cases hover : 2 ^ 31 ≤ s.mCurrentNum.toInt + b.length
  · -- the count overflowed: it stays negative, and no later batch finds it zero
    rw [dump_overflow h (by omega) (by omega) hover]
    constructor
    · intro hcleared
      obtain ⟨front, rest, heq, _, hcase⟩ := hcleared
      have hle := hpre front rest heq
      omega
    · intro hlater
      obtain ⟨front, rest, heq, _, hcase⟩ := hlater
      have hle := hpre front rest heq
      omega
  · by_cases hfull : totalNum.toInt ≤ s.mCurrentNum.toInt + b.length
    · -- the size is reached: the next batch, if there is one, finds a zero
      rw [(dump_full h hb (by omega) hfull (by omega)).2]
      constructor
      · rintro ⟨front, rest, heq, hrest, _⟩
        exact ⟨[], bs, rfl, by rw [heq]; simp [hrest], Or.inr ⟨by simp; omega, by simp; omega⟩⟩
      · rintro ⟨front, rest, heq, hrest, _⟩
        exact ⟨[], bs, rfl, by rw [heq]; simp [hrest], Or.inl rfl⟩
    · rw [dump_short h (by omega) (by omega)]
      refine exists_congr fun front => exists_congr fun rest => and_congr_right fun _ =>
        and_congr_right fun _ => or_congr_right ⟨And.right, fun hcase => ⟨?_, hcase⟩⟩
      rintro rfl
      rw [List.flatten_nil, List.length_nil] at hcase
      omega

theorem within_run_dump {s s' : State F} {batches : List AndroidMetaList} {totalNum : Int32}
    {size : Nat} {paths : List QString} (htotal : totalNum.toInt = size)
    (hrun : run (onSyncFiles host) s (dump totalNum batches) = some s')
    (hne : ∀ b ∈ batches, b ≠ []) (hlen : batches.flatten.length ≤ size)
    (hpaths : ∀ m ∈ batches.flatten, m.path ∈ paths) :
    Within paths s'.lists ↔
      Within paths s.lists ∨ Cleared size s.mCurrentNum.toInt batches := by
  induction batches generalizing s with
  | nil =>
    cases hrun
    refine (or_iff_left ?_).symm
    rintro ⟨front, rest, heq, hrest, _⟩
    exact hrest (List.append_eq_nil_iff.mp heq.symm).2
  | cons b bs ih =>
    obtain ⟨t, ht, hrest⟩ := run_cons_some.mp hrun
    obtain ⟨hb, hbs⟩ := List.forall_mem_cons.mp hne
    rw [List.flatten_cons] at hpaths
    rw [List.flatten_cons, List.length_append] at hlen
    obtain ⟨hbpaths, hbspaths⟩ := List.forall_mem_append.mp hpaths
    rw [ih hrest hbs (by omega) hbspaths, dump_lists ht, within_foldl_insert hbpaths]
    by_cases hs : s.mCurrentNum.toInt = 0
    · rw [pending_of_zero (toInt_eq_zero.mp hs)]
      exact iff_of_true (Or.inl (within_empty paths)) (Or.inr (cleared_cons.mpr (Or.inl hs)))
    · rw [pending_of_ne fun h => hs (toInt_eq_zero.mpr h), cleared_step htotal ht hb hlen hs]

/-- **When a dump leaves no stale record.** After any history, a complete dump
of `M` in non-empty batches leaves only paths of `M` exactly when the link code
is defined on its records and either only paths of `M` stood in the lists
before it, or the count the history left is zero before one of the batches. -/
theorem dump_leaves_no_stale (host : Host F) (mTotalNum mCurrentNum : Int32) (files : F)
    (history : List SyncFiles) (s : State F)
    (hhistory : run (onSyncFiles host) (constructed mTotalNum mCurrentNum files) history = some s)
    (M : AndroidMetaList) (totalNum : Int32) (htotal : totalNum.toInt = M.length)
    (batches : List AndroidMetaList) (hcut : batches.flatten = M) (hne : ∀ b ∈ batches, b ≠ []) :
    (∃ s', run (onSyncFiles host) (constructed mTotalNum mCurrentNum files)
        (history ++ dump totalNum batches) = some s' ∧
        Within (M.map AndroidMeta.path) s'.lists) ↔
      (∀ m ∈ M, Splits m) ∧ (Within (M.map AndroidMeta.path) s.lists ∨
        Cleared M.length s.mCurrentNum.toInt batches) := by
  have hwithin : ∀ s', run (onSyncFiles host) s (dump totalNum batches) = some s' →
      (Within (M.map AndroidMeta.path) s'.lists ↔ Within (M.map AndroidMeta.path) s.lists ∨
        Cleared M.length s.mCurrentNum.toInt batches) := fun s' hrun =>
    within_run_dump htotal hrun hne (by rw [hcut]) fun m hm =>
      List.mem_map_of_mem (hcut ▸ hm)
  have hdefined := run_onSyncFiles_isSome host s (dump totalNum batches)
  rw [forall_messageSplits_dump, hcut, Option.isSome_iff_exists] at hdefined
  rw [run_append, hhistory, Option.bind_some, ← hdefined]
  constructor
  · rintro ⟨s', hrun, hw⟩
    exact ⟨⟨s', hrun⟩, (hwithin s' hrun).mp hw⟩
  · rintro ⟨⟨s', hrun⟩, hw⟩
    exact ⟨s', hrun, (hwithin s' hrun).mpr hw⟩

/-- A dump broken off after one of two records: the next one clears the lists
only because its first batch happens to reach its size. -/
theorem dump_leaves_no_stale_reset :
    ∃ s', run (onSyncFiles kylinHost) (started fun _ => none)
        ([⟨0, [clip], 2⟩] ++ dump 2 [[photo], [photo]]) = some s' ∧
      Within [photo.path, photo.path] s'.lists :=
  (dump_leaves_no_stale kylinHost 0 0 (fun _ => none) [⟨0, [clip], 2⟩] _ rfl
    [photo, photo] 2 (by decide) [[photo], [photo]] rfl (by decide)).mpr
    ⟨by decide, Or.inr ⟨[[photo]], [[photo]], rfl, by decide, Or.inr (by decide)⟩⟩

/-- The record of a dump broken off stays in the lists after the next dump. -/
theorem broken_dump_leaves_stale :
    ∃ s', run (onSyncFiles kylinHost) (started fun _ => none)
        ([⟨0, [clip], 2⟩] ++ dump 1 [[photo]]) = some s' ∧
      clip ∈ s'.lists.get .video ∧ clip.path ∉ [photo].map AndroidMeta.path := by
  refine ⟨_, rfl, ?_, ?_⟩ <;> decide

end KmreManager.ControlManager
