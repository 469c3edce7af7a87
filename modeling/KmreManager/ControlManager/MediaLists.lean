import KmreManager.HostTree
import KmreManager.ControlManager.Step
import KmreManager.Lib.KeyedList
import Mathlib.Data.List.DropRight

/-! # The five lists are five ordered sets

`Category` names the list a record goes to. Each list operation of the manager
is one of an ordered set keyed by path, on the list of the record's category
and on no other, so a run of messages refines a fold over five such sets. A run
goes through exactly when no record makes the link code take the front or the
back of an empty list. -/
namespace KmreManager.ControlManager
open KmreManager.Lib KmreManager.Lib.Runs KmreManager.Lib.KeyedList
open KmreManager.HostTree (kylinHost started photo clip pathless)

/-! ## Lists by category -/

inductive Category
  | image
  | video
  | audio
  | document
  | other
  deriving DecidableEq, Repr

/-- The list `onSyncFiles` chooses for a record. -/
def category (m : AndroidMeta) : Category :=
  if mentions m "image" then .image
  else if mentions m "video" then .video
  else if mentions m "audio" then .audio
  else if mentions m "application" || mentions m "text" then .document
  else .other

def MediaLists.get (l : MediaLists) : Category → AndroidMetaList
  | .image => l.mImageMetas
  | .video => l.mVideoMetas
  | .audio => l.mAudioMetas
  | .document => l.mDocumentMetas
  | .other => l.mOtherMetas

@[simp] theorem MediaLists.get_empty (c : Category) : ({} : MediaLists).get c = [] := by
  cases c <;> rfl

theorem append_eq (metas : AndroidMetaList) (m : AndroidMeta) :
    AndroidMetaList.append metas m = insertNew AndroidMeta.path metas m := by
  have hany : AndroidMetaList.contains metas m = decide (m.path ∈ metas.map AndroidMeta.path) := by
    unfold AndroidMetaList.contains AndroidMeta.equals
    rw [Bool.eq_iff_iff, List.any_eq_true, decide_eq_true_eq, List.mem_map]
    simp only [beq_iff_eq]
    exact ⟨fun ⟨b, hb, h⟩ => ⟨b, hb, h.symm⟩, fun ⟨b, hb, h⟩ => ⟨b, hb, h.symm⟩⟩
  unfold AndroidMetaList.append insertNew
  rw [hany]
  by_cases h : m.path ∈ metas.map AndroidMeta.path <;> simp [h]

/-- `removeOne` drops the first item equal to the one found, which is the
first item with that path. -/
theorem removePath_eq (metas : AndroidMetaList) (m : AndroidMeta) :
    AndroidMetaList.removePath metas m = eraseKey AndroidMeta.path metas m.path := by
  unfold AndroidMetaList.removePath eraseKey
  cases hf : metas.find? fun item => item.path == m.path with
  | none =>
    have hnone := List.find?_eq_none.mp hf
    exact (List.eraseP_of_forall_not fun b hb => by simpa using hnone b hb).symm
  | some item =>
    have hp : item.path = m.path := by simpa using List.find?_some hf
    have hpred : (fun b : AndroidMeta => item.path == b.path) =
        fun b => decide (b.path = m.path) := by
      funext b
      rw [hp, Bool.eq_iff_iff, beq_iff_eq, decide_eq_true_eq]
      exact eq_comm
    exact congrArg (fun p => metas.eraseP p) hpred

theorem get_insert (l : MediaLists) (m : AndroidMeta) (c : Category) :
    (l.insert m).get c =
      if category m = c then insertNew AndroidMeta.path (l.get c) m else l.get c := by
  unfold MediaLists.insert category
  simp only [append_eq]
  split_ifs <;> cases c <;> simp_all [MediaLists.get]

theorem get_remove (l : MediaLists) (m : AndroidMeta) (c : Category) :
    (l.remove m).get c =
      if category m = c then eraseKey AndroidMeta.path (l.get c) m.path else l.get c := by
  unfold MediaLists.remove category
  simp only [removePath_eq]
  split_ifs <;> cases c <;> simp_all [MediaLists.get]

theorem get_applyRecord (type : Int32) (l : MediaLists) (m : AndroidMeta) (c : Category) :
    (applyRecord type l m).get c =
      if category m = c then
        if type = 0 ∨ type = 1 then insertNew AndroidMeta.path (l.get c) m
        else if type = 2 then eraseKey AndroidMeta.path (l.get c) m.path
        else l.get c
      else l.get c := by
  unfold applyRecord
  split_ifs <;> simp_all [get_insert, get_remove]

/-! ## Refinement of five ordered sets -/

/-- An insertion-ordered set of records, keyed by path. -/
abbrev MetaSet := OrderedSet AndroidMeta.path

/-- What a record of a message asks of the set of its category. -/
def request (type : Int32) (m : AndroidMeta) : Option (OrderedSet.Request AndroidMeta QString) :=
  if type = 0 ∨ type = 1 then some (.insert m)
  else if type = 2 then some (.erase m.path)
  else none

/-- What a message asks of the set of one category: a type-0 message that
finds `mCurrentNum` zero clears it, then the records of that category. -/
def requests (c : Category) (currentNum : Int32) (msg : SyncFiles) :
    List (OrderedSet.Request AndroidMeta QString) :=
  (if msg.type = 0 ∧ currentNum = 0 then [.clear] else []) ++
    (msg.metas.filter fun m => category m = c).filterMap (request msg.type)

/-- The set of one category after a run. The counters decide when it is
cleared; nothing else of the other categories reaches it. -/
def foldRequests (c : Category) : Int32 × Int32 → MetaSet → List SyncFiles → MetaSet
  | _, A, [] => A
  | (totalNum, currentNum), A, msg :: msgs =>
    foldRequests c (counters totalNum currentNum msg)
      ((requests c currentNum msg).foldl OrderedSet.apply A) msgs

/-- Every record lies in the list of its category. -/
def Sorted (l : MediaLists) : Prop := ∀ c, ∀ m ∈ l.get c, category m = c

theorem Sorted.applyRecord {l : MediaLists} (h : Sorted l) (type : Int32) (m : AndroidMeta) :
    Sorted (applyRecord type l m) := by
  intro c b hb
  rw [get_applyRecord] at hb
  split_ifs at hb with hc h01 h2
  · unfold insertNew at hb
    split_ifs at hb
    · exact h c b hb
    · rcases List.mem_append.mp hb with hb | hb
      · exact h c b hb
      · rw [List.mem_singleton.mp hb, hc]
  · exact h c b (List.mem_of_mem_eraseP hb)
  · exact h c b hb
  · exact h c b hb

theorem Sorted.foldl {l : MediaLists} (h : Sorted l) (type : Int32) (metas : AndroidMetaList) :
    Sorted (metas.foldl (ControlManager.applyRecord type) l) := by
  induction metas generalizing l with
  | nil => exact h
  | cons m metas ih => exact ih (h.applyRecord type m)

/-- One record is at most one request to the set of its category. -/
theorem get_applyRecord_request (type : Int32) {l : MediaLists} {m : AndroidMeta} {c : Category}
    {A : MetaSet} (hc : category m = c) (h : l.get c = A.items) :
    (applyRecord type l m).get c = ((request type m).elim A A.apply).items := by
  rw [get_applyRecord, if_pos hc, h, request]
  by_cases h01 : type = 0 ∨ type = 1
  · rw [if_pos h01, if_pos h01]
    exact (A.items_insert m).symm
  · by_cases h2 : type = 2
    · rw [if_neg h01, if_pos h2, if_neg h01, if_pos h2]
      exact (A.items_erase m.path).symm
    · rw [if_neg h01, if_neg h2, if_neg h01, if_neg h2]
      rfl

theorem get_foldl_applyRecord (type : Int32) (metas : AndroidMetaList) (c : Category)
    {l : MediaLists} {A : MetaSet} (h : l.get c = A.items) :
    (metas.foldl (applyRecord type) l).get c =
      (((metas.filter fun m => category m = c).filterMap (request type)).foldl
        OrderedSet.apply A).items := by
  induction metas generalizing l A with
  | nil => exact h
  | cons m metas ih =>
    rw [List.foldl_cons]
    by_cases hc : category m = c
    · rw [List.filter_cons_of_pos (by simpa using hc)]
      have hstep := get_applyRecord_request type hc h
      cases hr : request type m with
      | none =>
        rw [List.filterMap_cons_none hr]
        exact ih (by rw [hstep, hr]; rfl)
      | some r =>
        rw [List.filterMap_cons_some hr, List.foldl_cons]
        exact ih (by rw [hstep, hr]; rfl)
    · rw [List.filter_cons_of_neg (by simpa using hc)]
      exact ih (by rw [get_applyRecord, if_neg hc, h])

/-- A message is its requests. -/
theorem get_onSyncFiles {F : Type} {host : Host F} {s s' : State F} {msg : SyncFiles}
    (h : onSyncFiles host s msg = some s') (c : Category) {A : MetaSet}
    (hA : s.lists.get c = A.items) :
    s'.lists.get c = ((requests c s.mCurrentNum msg).foldl OrderedSet.apply A).items := by
  rw [onSyncFiles_lists h, requests, List.foldl_append]
  by_cases hclear : msg.type = 0 ∧ s.mCurrentNum = 0
  · rw [if_pos hclear, if_pos hclear]
    exact get_foldl_applyRecord _ _ _ (MediaLists.get_empty c)
  · rw [if_neg hclear, if_neg hclear]
    exact get_foldl_applyRecord _ _ _ hA

theorem get_run {F : Type} {host : Host F} {s s' : State F} {msgs : List SyncFiles}
    (h : run (onSyncFiles host) s msgs = some s') (c : Category) {A : MetaSet}
    (hA : s.lists.get c = A.items) :
    s'.lists.get c = (foldRequests c (s.mTotalNum, s.mCurrentNum) A msgs).items := by
  induction msgs generalizing s A with
  | nil => cases h; exact hA
  | cons msg msgs ih =>
    obtain ⟨t, ht, hrun⟩ := run_cons_some.mp h
    rw [ih hrun (get_onSyncFiles ht c hA), onSyncFiles_counters ht]
    rfl

theorem sorted_run {F : Type} {host : Host F} {s s' : State F} {msgs : List SyncFiles}
    (h : run (onSyncFiles host) s msgs = some s') (hs : Sorted s.lists) : Sorted s'.lists := by
  refine run_invariant (I := fun s => Sorted s.lists) ?_ hs h
  intro s msg s' hs hstep
  rw [onSyncFiles_lists hstep]
  split_ifs
  · exact Sorted.foldl (fun c m hm => by simp at hm) _ _
  · exact hs.foldl _ _

/-- **The lists refine five ordered sets.** From distinct paths and records in
their lists, a run of messages ends with each list equal to the fold of its
own requests, with distinct paths and records in their lists, exactly when no
record makes the link code split off nothing. -/
theorem lists_refine_sets {F : Type} (host : Host F) (s : State F)
    (hpaths : ∀ c, ((s.lists.get c).map AndroidMeta.path).Nodup) (hs : Sorted s.lists)
    (msgs : List SyncFiles) :
    (∃ s', run (onSyncFiles host) s msgs = some s' ∧
      (∀ c, s'.lists.get c = (foldRequests c (s.mTotalNum, s.mCurrentNum)
        ⟨s.lists.get c, hpaths c⟩ msgs).items) ∧
      (∀ c, ((s'.lists.get c).map AndroidMeta.path).Nodup) ∧ Sorted s'.lists) ↔
    ∀ msg ∈ msgs, MessageSplits msg := by
  rw [← run_onSyncFiles_isSome host s, Option.isSome_iff_exists]
  refine exists_congr fun s' => ⟨And.left, fun hrun => ⟨hrun, ?_, ?_, sorted_run hrun hs⟩⟩
  · exact fun c => get_run hrun c rfl
  · intro c
    rw [get_run hrun c (A := ⟨s.lists.get c, hpaths c⟩) rfl]
    exact OrderedSet.nodup _

/-- Updates and a dump that does not find `mCurrentNum` zero. -/
theorem lists_refine_sets_updates :
    ∃ s', run (onSyncFiles kylinHost)
        { started (fun _ => none) with lists := { mImageMetas := [photo] }, mCurrentNum := 1 }
        [⟨1, [photo, clip], 2⟩, ⟨2, [photo], 0⟩, ⟨0, [clip], 2⟩] = some s' ∧
      (∀ c, ((s'.lists.get c).map AndroidMeta.path).Nodup) ∧ Sorted s'.lists := by
  have hpaths : ∀ c, (((({ mImageMetas := [photo] } : MediaLists)).get c).map
      AndroidMeta.path).Nodup := by
    intro c
    cases c <;> simp [MediaLists.get]
  have hs : Sorted { mImageMetas := [photo] } := by
    intro c m hm
    cases c <;> simp [MediaLists.get] at hm
    subst hm
    decide
  obtain ⟨s', hrun, _, hrest⟩ := (lists_refine_sets kylinHost
    { started (fun _ => none) with lists := { mImageMetas := [photo] }, mCurrentNum := 1 } hpaths hs
    [⟨1, [photo, clip], 2⟩, ⟨2, [photo], 0⟩, ⟨0, [clip], 2⟩]).mpr (by decide)
  exact ⟨s', hrun, hrest⟩

/-- A record without a path has no base name to link under: after the message
that carries it there is no state, so no lists either. -/
theorem lists_undefined_pathless :
    (∀ c, (((started fun _ => none).lists.get c).map AndroidMeta.path).Nodup) ∧
      Sorted (started fun _ => none).lists ∧
      ¬ ∃ s', run (onSyncFiles kylinHost) (started fun _ => none) [⟨1, [pathless], 1⟩] = some s' ∧
        ∀ c, s'.lists.get c =
          (foldRequests c (0, 0) OrderedSet.clear [⟨1, [pathless], 1⟩]).items := by
  refine ⟨fun c => by cases c <;> simp [started, constructed], fun c m hm => ?_, ?_⟩
  · cases c <;> simp [started, constructed] at hm
  · rintro ⟨s', hrun, _⟩
    have hnone : (run (onSyncFiles kylinHost) (started fun _ => none)
        [⟨1, [pathless], 1⟩]).isSome = false := by decide
    rw [hrun] at hnone
    cases hnone

end KmreManager.ControlManager
