import KmreManager.ControlManager.Dump

/-! # Two dumps in flight

Any bus client can request a dump at any time, and messages carry no mark of
the dump they belong to. Two dumps share one count: it reaches the size at the
first message that makes the records of both add up to it, and the message
after that clears the lists. -/
namespace KmreManager.ControlManager
open KmreManager.Lib KmreManager.Lib.Runs KmreManager.Lib.KeyedList
open KmreManager.HostTree (kylinHost started photo clip)

variable {F : Type} {host : Host F}

/-- The batches after the shortest beginning that carries `size` records. -/
def afterFull : Nat → List AndroidMetaList → List AndroidMetaList
  | _, [] => []
  | size, b :: bs => if size ≤ b.length then bs else afterFull (size - b.length) bs

/-- The batches whose records are in the lists at the end. Where the count
overflows before it is compared with the size, nothing is cleared. -/
def kept (size : Nat) (batches : List AndroidMetaList) : List AndroidMetaList :=
  let rest := afterFull size batches
  if batches.flatten.length - rest.flatten.length < 2 ^ 31 then rest else batches

theorem exists_afterFull {size : Nat} {batches : List AndroidMetaList} (hpos : 0 < size)
    (hlen : size ≤ batches.flatten.length) :
    ∃ front b, batches = front ++ b :: afterFull size batches ∧ front.flatten.length < size ∧
      size ≤ front.flatten.length + b.length := by
  induction batches generalizing size with
  | nil =>
    rw [List.flatten_nil, List.length_nil] at hlen
    omega
  | cons b bs ih =>
    rw [List.flatten_cons, List.length_append] at hlen
    by_cases hb : size ≤ b.length
    · exact ⟨[], b, by rw [afterFull, if_pos hb]; rfl, hpos, by simpa using hb⟩
    · obtain ⟨front, d, heq, hshort, hfull⟩ := ih (by omega : 0 < size - b.length) (by omega)
      refine ⟨b :: front, d, by rw [afterFull, if_neg hb, List.cons_append, ← heq], ?_, ?_⟩
      · rw [List.flatten_cons, List.length_append]
        omega
      · rw [List.flatten_cons, List.length_append]
        omega

/-- One whole dump is the shortest beginning that carries its size. -/
theorem afterFull_append {size : Nat} {left right : List AndroidMetaList} (hpos : 0 < size)
    (hne : ∀ b ∈ left, b ≠ []) (hlen : left.flatten.length = size) :
    afterFull size (left ++ right) = right := by
  induction left generalizing size with
  | nil =>
    rw [List.flatten_nil, List.length_nil] at hlen
    omega
  | cons b bs ih =>
    obtain ⟨_, hbs⟩ := List.forall_mem_cons.mp hne
    rw [List.flatten_cons, List.length_append] at hlen
    rw [List.cons_append, afterFull]
    by_cases hb : size ≤ b.length
    · have hnil : bs = [] := by
        cases bs with
        | nil => rfl
        | cons d ds =>
          have hd := List.length_pos_iff.mpr (hbs d List.mem_cons_self)
          rw [List.flatten_cons, List.length_append] at hlen
          omega
      rw [if_pos hb, hnil]
      rfl
    · rw [if_neg hb]
      exact ih (by omega) hbs (by omega)

/-- From a zero count, messages with up to twice the size in records leave the
records of the kept ones. -/
theorem run_dump_kept {s s' : State F} {batches : List AndroidMetaList} {totalNum : Int32}
    {size : Nat} (hs : s.mCurrentNum = 0) (htotal : totalNum.toInt = size) (hpos : 0 < size)
    (hrun : run (onSyncFiles host) s (dump totalNum batches) = some s')
    (hne : ∀ b ∈ batches, b ≠ []) (hle : ∀ b ∈ batches, b.length ≤ size)
    (hlen : batches.flatten.length = size + size) :
    s'.lists = (kept size batches).flatten.foldl MediaLists.insert {} := by
  have hhi := totalNum.toInt_lt
  have hs0 : s.mCurrentNum.toInt = 0 := toInt_eq_zero.mpr hs
  have hsize : size ≤ batches.flatten.length := by omega
  obtain ⟨front, b, heq, hshort, hfull⟩ := exists_afterFull hpos hsize
  have hkept : kept size batches =
      if batches.flatten.length - (afterFull size batches).flatten.length
      < 2 ^ 31 then afterFull size batches else batches := rfl
  generalize afterFull size batches = rest at heq hkept
  subst heq
  have hb : b ≠ [] := hne b (by simp)
  have hbsize : b.length ≤ size := hle b (by simp)
  rw [List.flatten_append, List.flatten_cons, List.length_append, List.length_append] at hlen hkept
  rw [dump, List.map_append, run_append_some] at hrun
  obtain ⟨t, hfront, hrun⟩ := hrun
  obtain ⟨u, hstep, hrest⟩ := run_cons_some.mp hrun
  obtain ⟨hpend, hcur⟩ := run_dump_short hfront (by omega) (Or.inl (by omega)) (by omega)
  by_cases hover : 2 ^ 31 ≤ front.flatten.length + b.length
  · -- the count overflows; it is negative to the end, so no message clears
    rw [hkept, if_neg (by omega)]
    have hu := dump_overflow hstep (by omega) (by omega) (by omega)
    have hune : u.mCurrentNum ≠ 0 := fun h => by rw [toInt_eq_zero.mpr h] at hu; omega
    obtain ⟨hl, hc⟩ := run_dump_short hrest (by omega) (Or.inr (by omega)) (by omega)
    have hne' : s'.mCurrentNum ≠ 0 := fun h => by rw [toInt_eq_zero.mpr h] at hc; omega
    rw [← pending_of_ne hne', hl, pending_of_ne hune, dump_lists hstep, hpend, pending_of_zero hs,
      ← List.foldl_append, ← List.foldl_append, List.flatten_append, List.flatten_cons]
  · -- the size is reached: the first of the remaining messages clears
    rw [hkept, if_pos (by omega)]
    have hu := (dump_full hstep hb (by omega) (by omega) (by omega)).2
    have hrestne : rest ≠ [] := by
      rintro rfl
      rw [List.flatten_nil, List.length_nil] at hlen
      omega
    obtain ⟨init, last, rfl⟩ : ∃ init last, rest = init ++ [last] :=
      ⟨_, _, (List.dropLast_append_getLast hrestne).symm⟩
    have hlast := List.length_pos_iff.mpr (hne last (by simp))
    rw [List.flatten_append, List.flatten_singleton, List.length_append] at hlen
    have hu0 := toInt_eq_zero.mpr hu
    rw [run_dump_lists hrest (by omega) (by omega), pending_of_zero hu]

/-- **What two overlapping dumps leave.** The lists hold the records of the
messages after the first one that makes the count reach the size (of all
messages if the count overflows there). So a path of `M` is lost exactly when
no later message carries it, and dumps that do not overlap lose nothing. -/
theorem overlapping_dumps_keep (host : Host F) (s : State F) (hs : s.mCurrentNum = 0)
    (M : AndroidMetaList) (hsplit : ∀ m ∈ M, Splits m)
    (totalNum : Int32) (htotal : totalNum.toInt = M.length)
    (left right messages : List AndroidMetaList) (hleft : left.flatten = M)
    (hright : right.flatten = M) (hlne : ∀ b ∈ left, b ≠ []) (hrne : ∀ b ∈ right, b ≠ [])
    (hmix : Interleaving left right messages) :
    ∃ s', run (onSyncFiles host) s (dump totalNum messages) = some s' ∧
      (M ≠ [] → ∀ c, s'.lists.get c = firstBy AndroidMeta.path
        ((kept M.length messages).flatten.filter fun m => category m = c)) ∧
      (∀ m ∈ M, (∃ r ∈ s'.lists.get (category m), r.path = m.path) ↔
        ∃ r ∈ (kept M.length messages).flatten, category r = category m ∧ r.path = m.path) ∧
      (messages = left ++ right → ∀ m ∈ M, ∃ r ∈ s'.lists.get (category m), r.path = m.path) := by
  have hhi := totalNum.toInt_lt
  have hperm := hmix.perm
  have hmem : ∀ b, b ∈ messages ↔ b ∈ left ∨ b ∈ right := fun b => by
    rw [hperm.mem_iff, List.mem_append]
  have hflat : messages.flatten.Perm (M ++ M) := by
    have h := hperm.flatten
    rwa [List.flatten_append, hleft, hright] at h
  obtain ⟨s', hrun⟩ := Option.isSome_iff_exists.mp
    ((run_onSyncFiles_isSome host s (dump totalNum messages)).mpr
      (forall_messageSplits_dump.mpr fun m hm => hsplit m (by simpa using hflat.mem_iff.mp hm)))
  have hlists : M ≠ [] → ∀ c, s'.lists.get c = firstBy AndroidMeta.path
      ((kept M.length messages).flatten.filter fun m => category m = c) := by
    intro hM c
    have hsize : ∀ b ∈ messages, b.length ≤ M.length := by
      intro b hb
      rcases (hmem b).mp hb with hb | hb
      · exact hleft ▸ (List.sublist_flatten_of_mem hb).length_le
      · exact hright ▸ (List.sublist_flatten_of_mem hb).length_le
    rw [run_dump_kept hs htotal (List.length_pos_iff.mpr hM) hrun
      (fun b hb => ((hmem b).mp hb).elim (hlne b) (hrne b)) hsize
      (by rw [hflat.length_eq, List.length_append])]
    exact get_foldl_insert_empty _ c
  have hpresent : ∀ m ∈ M, (∃ r ∈ s'.lists.get (category m), r.path = m.path) ↔
      ∃ r ∈ (kept M.length messages).flatten, category r = category m ∧ r.path = m.path := by
    intro m hm
    have hkey : m.path ∈ (firstBy AndroidMeta.path ((kept M.length messages).flatten.filter
          fun r => category r = category m)).map AndroidMeta.path ↔
        m.path ∈ ((kept M.length messages).flatten.filter
          fun r => category r = category m).map AndroidMeta.path := mem_map_firstBy
    rw [← hlists (List.ne_nil_of_mem hm)] at hkey
    simp only [List.mem_map, List.mem_filter, decide_eq_true_eq, and_assoc] at hkey
    exact hkey
  refine ⟨s', hrun, hlists, hpresent, ?_⟩
  rintro rfl m hm
  have hkept : kept M.length (left ++ right) = right := by
    unfold kept
    rw [afterFull_append (List.length_pos_of_mem hm) hlne (by rw [hleft])]
    refine if_pos ?_
    rw [List.flatten_append, List.length_append, hleft, hright]
    omega
  rw [hpresent m hm, hkept, hright]
  exact ⟨m, hm, rfl, rfl⟩

/-- Two dumps that alternate message by message still lose the first path: the
second message of each comes after the count was full. -/
theorem overlapping_dumps_keep_alternating :
    ∃ s', run (onSyncFiles kylinHost) (started fun _ => none)
        (dump 2 [[photo], [photo], [clip], [clip]]) = some s' ∧
      s'.lists.get .image = [] ∧ s'.lists.get .video = [clip] := by
  obtain ⟨s', hrun, hlists, _⟩ := overlapping_dumps_keep kylinHost (started fun _ => none) rfl
    [photo, clip] (by decide) 2 (by decide) [[photo], [clip]] [[photo], [clip]]
    [[photo], [photo], [clip], [clip]] rfl rfl (by decide) (by decide)
    (.left (.right (.left (.right .nil))))
  have hkept : (kept 2 [[photo], [photo], [clip], [clip]]).flatten = [clip, clip] := by decide
  exact ⟨s', hrun, (hlists (by decide) .image).trans (by decide),
    (hlists (by decide) .video).trans (by decide)⟩

/-- A dump in one batch that arrives between the two batches of another: the
photo, in both dumps, is in no list afterwards. -/
theorem overlapping_dumps_lose_photo :
    Interleaving [[photo], [clip]] [[photo, clip]] [[photo], [photo, clip], [clip]] ∧
      ∃ s', run (onSyncFiles kylinHost) (started fun _ => none)
          (dump 2 [[photo], [photo, clip], [clip]]) = some s' ∧
        ¬ ∃ r ∈ s'.lists.get (category photo), r.path = photo.path := by
  refine ⟨.left (.right (.left .nil)), _, rfl, ?_⟩
  decide

end KmreManager.ControlManager
