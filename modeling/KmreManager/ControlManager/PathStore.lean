import KmreManager.ControlManager.MediaLists

/-! # Inserts and deletes, path by path

What type-1 and type-2 messages leave behind for one path. The list that is
searched follows the mime type of the message at hand, so each category keeps
its own account of a path; and a record that is present is never overwritten,
so what stands is the first insert since the last delete. -/
namespace KmreManager.ControlManager
open KmreManager.Lib KmreManager.Lib.Runs KmreManager.Lib.KeyedList
open KmreManager.HostTree (kylinHost started photo clip)

/-- The five lists taken together. -/
def MediaLists.all (l : MediaLists) : AndroidMetaList :=
  l.mImageMetas ++ l.mVideoMetas ++ l.mAudioMetas ++ l.mDocumentMetas ++ l.mOtherMetas

/-- A record that was inserted (`true`) or deleted. -/
abbrev Update := Bool × AndroidMeta

/-- The updates that type-1 and type-2 messages carry, in order. -/
def updates (msgs : List SyncFiles) : List Update :=
  msgs.flatMap fun msg => msg.metas.map fun m => (msg.type = 1, m)

def applyUpdate (l : MediaLists) (u : Update) : MediaLists :=
  if u.1 then l.insert u.2 else l.remove u.2

/-- The updates of one category that mention a path. -/
def updatesOf (c : Category) (p : QString) (us : List Update) : List Update :=
  us.filter fun u => category u.2 = c ∧ u.2.path = p

theorem updatesOf_concat (c : Category) (p : QString) (us : List Update) (u : Update) :
    updatesOf c p (us ++ [u]) =
      if category u.2 = c ∧ u.2.path = p then updatesOf c p us ++ [u] else updatesOf c p us := by
  unfold updatesOf
  rw [List.filter_append]
  by_cases hu : category u.2 = c ∧ u.2.path = p <;> simp [hu]

/-- The record standing under a path: the first insert since the last delete. -/
def standing (us : List Update) : Option AndroidMeta :=
  (us.rtakeWhile Prod.fst).head?.map Prod.snd

theorem standing_insert (us : List Update) (m : AndroidMeta) :
    standing (us ++ [(true, m)]) = (standing us).or (some m) := by
  rw [standing, List.rtakeWhile_concat_pos _ _ _ rfl, standing]
  cases us.rtakeWhile Prod.fst <;> rfl

theorem standing_delete (us : List Update) (m : AndroidMeta) :
    standing (us ++ [(false, m)]) = none := by
  rw [standing, List.rtakeWhile_concat_neg _ _ _ Bool.false_ne_true]
  rfl

/-- Something stands exactly when the last update was an insert. -/
theorem standing_isSome (us : List Update) :
    (standing us).isSome ↔ ∃ m, us.getLast? = some (true, m) := by
  induction us using List.reverseRecOn with
  | nil => simp [standing]
  | append_singleton us u _ =>
    obtain ⟨ins, m⟩ := u
    cases ins with
    | false => simp [standing_delete]
    | true => simp [standing_insert]

/-- One update changes the account of its own category and path only. -/
theorem get_applyUpdate (l : MediaLists) (u : Update) (c : Category) (p : QString)
    {o : Option AndroidMeta} (h : ((l.get c).filter fun b => b.path = p) = o.toList) :
    ((applyUpdate l u).get c).filter (fun b => b.path = p) =
      (if category u.2 = c ∧ u.2.path = p then if u.1 then o.or (some u.2) else none
        else o).toList := by
  obtain ⟨ins, m⟩ := u
  by_cases hc : category m = c
  · cases ins with
    | true =>
      rw [applyUpdate, if_pos rfl, get_insert, if_pos hc, filter_insertNew, h]
      by_cases hp : m.path = p
      · cases o <;> simp [hc, hp]
      · simp [hp]
    | false =>
      rw [applyUpdate, if_neg Bool.false_ne_true, get_remove, if_pos hc, filter_eraseKey, h]
      by_cases hp : m.path = p
      · cases o <;> simp [hc, hp]
      · simp [hp]
  · rw [if_neg fun hh => hc hh.1, ← h]
    cases ins with
    | true => rw [applyUpdate, if_pos rfl, get_insert, if_neg hc]
    | false => rw [applyUpdate, if_neg Bool.false_ne_true, get_remove, if_neg hc]

theorem get_foldl_applyUpdate (us : List Update) (c : Category) (p : QString) :
    ((us.foldl applyUpdate {}).get c).filter (fun b => b.path = p) =
      (standing (updatesOf c p us)).toList := by
  induction us using List.reverseRecOn with
  | nil => simp [updatesOf, standing]
  | append_singleton us u ih =>
    rw [List.foldl_append, List.foldl_cons, List.foldl_nil, get_applyUpdate _ u c p ih,
      updatesOf_concat]
    by_cases hu : category u.2 = c ∧ u.2.path = p
    · rw [if_pos hu, if_pos hu]
      obtain ⟨ins, m⟩ := u
      cases ins with
      | true => exact congrArg Option.toList (standing_insert _ m).symm
      | false => exact congrArg Option.toList (standing_delete _ m).symm
    · rw [if_neg hu, if_neg hu]

/-- Inserts and deletes never clear, so a run is the fold of its updates. -/
theorem lists_run_updates {F : Type} {host : Host F} {s s' : State F} {msgs : List SyncFiles}
    (htype : ∀ msg ∈ msgs, msg.type = 1 ∨ msg.type = 2)
    (h : run (onSyncFiles host) s msgs = some s') :
    s'.lists = (updates msgs).foldl applyUpdate s.lists := by
  induction msgs generalizing s with
  | nil => cases h; rfl
  | cons msg msgs ih =>
    obtain ⟨t, ht, hrun⟩ := run_cons_some.mp h
    obtain ⟨hmsg, hmsgs⟩ := List.forall_mem_cons.mp htype
    rw [ih hmsgs hrun, onSyncFiles_lists ht, updates, updates, List.flatMap_cons,
      List.foldl_append, List.foldl_map]
    congr 1
    rcases hmsg with h1 | h2
    · rw [if_neg fun hh => absurd (h1.symm.trans hh.1) (by decide)]
      congr 1
      funext l m
      simp [applyRecord, applyUpdate, h1]
    · rw [if_neg fun hh => absurd (h2.symm.trans hh.1) (by decide)]
      congr 1
      funext l m
      simp [applyRecord, applyUpdate, h2]

/-- A path that four of the lists lack occurs in all five as in the fifth. -/
theorem filter_all {l : MediaLists} {c : Category} {q : AndroidMeta → Bool}
    (h : ∀ d, d ≠ c → (l.get d).filter q = []) : l.all.filter q = (l.get c).filter q := by
  show (l.get .image ++ l.get .video ++ l.get .audio ++ l.get .document ++ l.get .other).filter q
    = _
  simp only [List.filter_append]
  cases c with
  | image =>
    rw [h .video (by decide), h .audio (by decide), h .document (by decide), h .other (by decide)]
    simp only [List.append_nil]
  | video =>
    rw [h .image (by decide), h .audio (by decide), h .document (by decide), h .other (by decide)]
    simp only [List.append_nil, List.nil_append]
  | audio =>
    rw [h .image (by decide), h .video (by decide), h .document (by decide), h .other (by decide)]
    simp only [List.append_nil, List.nil_append]
  | document =>
    rw [h .image (by decide), h .video (by decide), h .audio (by decide), h .other (by decide)]
    simp only [List.append_nil, List.nil_append]
  | other =>
    rw [h .image (by decide), h .video (by decide), h .audio (by decide), h .document (by decide)]
    simp only [List.nil_append]

/-- **Each category is a store keyed by path.** After any run of inserts and
deletes, the list of a category holds a path exactly if the last update of
that category mentioning it was an insert, and then once, in the record of the
first insert since the last delete. A path that the run mentions under one
category only therefore occurs at most once in all five lists. -/
theorem category_is_path_store {F : Type} (host : Host F) (totalNum currentNum : Int32)
    (files : F) (msgs : List SyncFiles) (htype : ∀ msg ∈ msgs, msg.type = 1 ∨ msg.type = 2)
    (hsplit : ∀ msg ∈ msgs, MessageSplits msg) :
    ∃ s', run (onSyncFiles host) (constructed totalNum currentNum files) msgs = some s' ∧
      (∀ c p, (∃ m ∈ s'.lists.get c, m.path = p) ↔
        ∃ m, (updatesOf c p (updates msgs)).getLast? = some (true, m)) ∧
      (∀ c p, (s'.lists.get c).filter (fun b => b.path = p) =
        (standing (updatesOf c p (updates msgs))).toList) ∧
      ∀ c p, (∀ u ∈ updates msgs, u.2.path = p → category u.2 = c) →
        s'.lists.all.filter (fun b => b.path = p) =
          (standing (updatesOf c p (updates msgs))).toList := by
  obtain ⟨s', hrun⟩ := Option.isSome_iff_exists.mp
    ((run_onSyncFiles_isSome host (constructed totalNum currentNum files) msgs).mpr hsplit)
  have hstore : ∀ c p, (s'.lists.get c).filter (fun b => b.path = p) =
      (standing (updatesOf c p (updates msgs))).toList := by
    intro c p
    rw [lists_run_updates htype hrun]
    exact get_foldl_applyUpdate _ c p
  refine ⟨s', hrun, fun c p => ?_, hstore, fun c p hone => ?_⟩
  · have hne : (standing (updatesOf c p (updates msgs))).isSome ↔
        (s'.lists.get c).filter (fun b => b.path = p) ≠ [] := by
      rw [hstore]
      cases standing (updatesOf c p (updates msgs)) <;> simp
    rw [← standing_isSome, hne]
    simp
  · rw [← hstore c p]
    refine filter_all fun d hd => ?_
    have hnone : updatesOf d p (updates msgs) = [] := by
      rw [updatesOf, List.filter_eq_nil_iff]
      intro u hu hup
      obtain ⟨hcat, hpath⟩ := of_decide_eq_true hup
      exact hd (hcat.symm.trans (hone u hu hpath))
    rw [hstore, hnone]
    rfl

/-- An image reported again under another image type keeps its first record. -/
theorem category_is_path_store_photo :
    ∃ s', run (onSyncFiles kylinHost) (constructed 5 7 fun _ => none)
        [⟨1, [photo, clip], 2⟩, ⟨1, [{ photo with mimeType := "image/jpeg".toList }], 1⟩,
          ⟨2, [clip], 1⟩] = some s' ∧
      s'.lists.all.filter (fun b => b.path = photo.path) = [photo] := by
  obtain ⟨s', hrun, _, _, hall⟩ := category_is_path_store kylinHost 5 7 (fun _ => none)
    [⟨1, [photo, clip], 2⟩, ⟨1, [{ photo with mimeType := "image/jpeg".toList }], 1⟩,
      ⟨2, [clip], 1⟩] (by decide) (by decide)
  exact ⟨s', hrun, (hall .image photo.path (by decide)).trans (by decide)⟩

/-- A path inserted under two categories stands in two lists at once. -/
theorem path_in_two_lists :
    ∃ s', run (onSyncFiles kylinHost) (started fun _ => none)
        [⟨1, [photo], 1⟩, ⟨1, [{ photo with mimeType := "video/mp4".toList }], 1⟩] = some s' ∧
      s'.lists.all.filter (fun b => b.path = photo.path) =
        [photo, { photo with mimeType := "video/mp4".toList }] := by
  refine ⟨_, rfl, ?_⟩
  decide

end KmreManager.ControlManager
