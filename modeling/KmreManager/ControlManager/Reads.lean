import KmreManager.ControlManager.Notification

/-! # Reading the lists

Other programs read the lists by `getAllFiles` and `filesIsEmpty`, between any
two messages of a dump. The calls and the messages are served by one thread. -/
namespace KmreManager.ControlManager
open KmreManager.Lib KmreManager.Lib.Runs KmreManager.Lib.KeyedList
open KmreManager.HostTree (kylinHost started photo clip)

def getAllFiles (l : MediaLists) (uri : QString) : AndroidMetaList :=
  if uri = "kmre:///picture".toList then l.mImageMetas
  else if uri = "kmre:///video".toList then l.mVideoMetas
  else if uri = "kmre:///audio".toList then l.mAudioMetas
  else if uri = "kmre:///document".toList then l.mDocumentMetas
  else if uri = "kmre:///other".toList then l.mOtherMetas
  else []

def filesIsEmpty (l : MediaLists) : Bool :=
  l.mImageMetas.isEmpty && l.mVideoMetas.isEmpty && l.mAudioMetas.isEmpty &&
    l.mDocumentMetas.isEmpty && l.mOtherMetas.isEmpty

/-- What a URI asks for. -/
def categoryOf (uri : QString) : Option Category :=
  if uri = "kmre:///picture".toList then some .image
  else if uri = "kmre:///video".toList then some .video
  else if uri = "kmre:///audio".toList then some .audio
  else if uri = "kmre:///document".toList then some .document
  else if uri = "kmre:///other".toList then some .other
  else none

variable {F : Type} {host : Host F} {s s' : State F} {batches : List AndroidMetaList}
  {totalNum : Int32}

theorem getAllFiles_eq (l : MediaLists) (uri : QString) :
    getAllFiles l uri = ((categoryOf uri).map l.get).getD [] := by
  unfold getAllFiles categoryOf
  repeat' split
  all_goals rfl

theorem filesIsEmpty_iff (l : MediaLists) : filesIsEmpty l = true ↔ ∀ c, l.get c = [] := by
  simp only [filesIsEmpty, Bool.and_eq_true, List.isEmpty_iff]
  constructor
  · rintro ⟨⟨⟨⟨himage, hvideo⟩, haudio⟩, hdocument⟩, hother⟩ c
    cases c <;> assumption
  · intro h
    exact ⟨⟨⟨⟨h .image, h .video⟩, h .audio⟩, h .document⟩, h .other⟩

/-- The lists after some batches of a dump, the last of them not empty. -/
theorem dump_lists_eq (hs : s.mCurrentNum = 0)
    (hrun : run (onSyncFiles host) s (dump totalNum batches) = some s') (hne : batches ≠ [])
    (hbatches : ∀ b ∈ batches, b ≠ []) (htotal : batches.flatten.length ≤ totalNum.toInt) :
    s'.lists = batches.flatten.foldl MediaLists.insert {} := by
  obtain ⟨front, last, rfl⟩ : ∃ front last, batches = front ++ [last] :=
    ⟨_, _, (List.dropLast_append_getLast hne).symm⟩
  have hlast : 0 < last.length := List.length_pos_iff.mpr (hbatches last (by simp))
  have hs0 : s.mCurrentNum.toInt = 0 := toInt_eq_zero.mpr hs
  rw [List.flatten_append, List.flatten_singleton, List.length_append] at htotal
  rw [run_dump_lists hrun (by omega) (by omega), pending_of_zero hs]

/-- Before the size is reached there is no signal. -/
theorem run_dump_silent (hrun : run (onSyncFiles host) s (dump totalNum batches) = some s')
    (hpos : 0 ≤ s.mCurrentNum.toInt)
    (hshort : s.mCurrentNum.toInt + batches.flatten.length < totalNum.toInt) :
    s'.filesMessage = s.filesMessage := by
  have hhi := totalNum.toInt_lt
  induction batches generalizing s with
  | nil =>
    obtain rfl := Option.some.inj hrun
    rfl
  | cons b batches ih =>
    obtain ⟨t, ht, hrest⟩ := run_cons_some.mp hrun
    rw [List.flatten_cons, List.length_append] at hshort
    have hb : b.length < 2 ^ 31 := by omega
    have hcur := dump_short ht hb (by omega)
    have hsum : (s.mCurrentNum + Int32.ofNat b.length).toInt = s.mCurrentNum.toInt + b.length := by
      rw [toInt_add_length _ hb, if_pos (by omega)]
    have hbelow : ¬ totalNum ≤ s.mCurrentNum + Int32.ofNat b.length := by
      rw [Int32.le_iff_toInt_le, hsum]
      omega
    have hquiet : ¬ Emits (receive s ⟨0, b, totalNum⟩) ⟨0, b, totalNum⟩ := by
      rw [emits_receive_zero rfl]
      exact hbelow
    have hsame : t.filesMessage = s.filesMessage := by
      obtain ⟨sent, hsent, hlen⟩ := onSyncFiles_filesMessage ht
      rw [if_neg hquiet] at hlen
      rw [hsent, List.length_eq_zero_iff.mp hlen, List.append_nil]
    rw [ih hrest (by omega) (by omega), hsame]

/-- **Reads during a dump only grow.** From a zero count, whatever the lists
held, a program that reads between any two messages of a dump gets the first
records by path among those received so far, for each URI; these are the first
ones of what it gets at any later time; the lists are not said to be empty; and
no signal comes before the last message. -/
theorem reads_grow (host : Host F) (s : State F) (hs : s.mCurrentNum = 0)
    (totalNum : Int32) (done more : List AndroidMetaList) (hdone : done ≠ [])
    (hbatches : ∀ b ∈ done ++ more, b ≠ [])
    (htotal : totalNum.toInt = (done ++ more).flatten.length)
    (hsplit : ∀ m ∈ (done ++ more).flatten, Splits m) :
    ∃ t s', run (onSyncFiles host) s (dump totalNum done) = some t ∧
      run (onSyncFiles host) t (dump totalNum more) = some s' ∧
      (∀ uri, getAllFiles t.lists uri = ((categoryOf uri).map fun c =>
        firstBy AndroidMeta.path (done.flatten.filter fun m => category m = c)).getD []) ∧
      (∀ uri, getAllFiles t.lists uri <+: getAllFiles s'.lists uri) ∧
      filesIsEmpty t.lists = false ∧
      (more ≠ [] → t.filesMessage = s.filesMessage) := by
  have hs0 : s.mCurrentNum.toInt = 0 := toInt_eq_zero.mpr hs
  obtain ⟨s', hrun⟩ := Option.isSome_iff_exists.mp
    ((run_onSyncFiles_isSome host s (dump totalNum (done ++ more))).mpr
      (forall_messageSplits_dump.mpr hsplit))
  have hcut := hrun
  rw [dump, List.map_append, run_append_some] at hcut
  obtain ⟨t, hfront, hrest⟩ := hcut
  have hlen : (done ++ more).flatten.length = done.flatten.length + more.flatten.length := by
    rw [List.flatten_append, List.length_append]
  have hlists := dump_lists_eq hs hfront hdone
    (fun b hb => hbatches b (List.mem_append_left _ hb)) (by omega)
  have hall := dump_lists_eq hs hrun (by simp [hdone]) hbatches (by omega)
  have hget : ∀ c, t.lists.get c =
      firstBy AndroidMeta.path (done.flatten.filter fun m => category m = c) := fun c => by
    rw [hlists, get_foldl_insert_empty]
  refine ⟨t, s', hfront, hrest, fun uri => ?_, fun uri => ?_, ?_, fun hmore => ?_⟩
  · rw [getAllFiles_eq, funext hget]
  · rw [getAllFiles_eq, getAllFiles_eq]
    cases categoryOf uri with
    | none => exact List.nil_prefix
    | some c =>
      rw [Option.map_some, Option.map_some, Option.getD_some, Option.getD_some, hget, hall,
        get_foldl_insert_empty, List.flatten_append, List.filter_append]
      exact firstBy_prefix (List.prefix_append _ _)
  · obtain ⟨b, rest, rfl⟩ := List.exists_cons_of_ne_nil hdone
    obtain ⟨m, ms, rfl⟩ := List.exists_cons_of_ne_nil (hbatches b (by simp))
    rw [← Bool.not_eq_true, filesIsEmpty_iff]
    intro hempty
    have hfirst := hget (category m)
    rw [hempty, List.flatten_cons, List.cons_append, List.filter_cons_of_pos (by simp),
      firstBy] at hfirst
    cases hfirst
  · obtain ⟨b, rest, rfl⟩ := List.exists_cons_of_ne_nil hmore
    have hpos : 0 < b.length := List.length_pos_iff.mpr (hbatches b (by simp))
    rw [List.flatten_cons, List.length_append] at hlen
    exact run_dump_silent hfront (by omega) (by omega)

/-- A program reads after the first of two messages. -/
theorem reads_grow_two : ∃ t s',
    run (onSyncFiles kylinHost) (started fun _ => none) (dump 3 [[photo, clip]]) = some t ∧
      run (onSyncFiles kylinHost) t (dump 3 [[photo]]) = some s' ∧
      getAllFiles t.lists "kmre:///picture".toList = [photo] ∧ filesIsEmpty t.lists = false := by
  obtain ⟨t, s', ht, hs', hread, -, hempty, -⟩ := reads_grow kylinHost (started fun _ => none) rfl 3
    [[photo, clip]] [[photo]] (by decide) (by decide) (by decide) (by decide)
  exact ⟨t, s', ht, hs', (hread _).trans (by decide), hempty⟩

end KmreManager.ControlManager
