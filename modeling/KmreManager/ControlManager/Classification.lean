import KmreManager.ControlManager.MediaLists

/-! # The two classifications of a record

The list of a record is chosen by searching its mime type for words, its folder
by comparing the first segment of the mime type with the same words. A first
segment that is one of the words is found by the search too, so the two differ
exactly when the search meets another word before it. -/
namespace KmreManager.ControlManager
open KmreManager.Lib.KeyedList KmreManager.Lib.Runs

namespace Category

/-- The folder of a category. -/
def label : Category → QString
  | .image => "图片".toList
  | .video => "视频".toList
  | .audio => "音乐".toList
  | .document => "文档".toList
  | .other => "其他".toList

/-- The words the search tries before those of a category. -/
def earlier : Category → List String
  | .image => []
  | .video => ["image"]
  | .audio => ["image", "video"]
  | .document => ["image", "video", "audio"]
  | .other => ["image", "video", "audio", "application", "text"]

theorem label_injective : Function.Injective label := by
  intro c d h
  cases c <;> cases d <;> first | rfl | exact absurd h (by decide)

end Category

/-- The category whose word a first segment is. -/
def segmentCategory (front : QString) : Category :=
  if front = "image".toList then .image
  else if front = "video".toList then .video
  else if front = "audio".toList then .audio
  else if front = "application".toList ∨ front = "text".toList then .document
  else .other

/-- Insertions and deletions of the record change the list of the category, and
no other. -/
structure ListedUnder (m : AndroidMeta) (c : Category) : Prop where
  insert : ∀ l : MediaLists, (l.insert m).get c = AndroidMetaList.append (l.get c) m
  remove : ∀ l : MediaLists, (l.remove m).get c = AndroidMetaList.removePath (l.get c) m
  insert_other : ∀ (l : MediaLists) (d : Category), d ≠ c → (l.insert m).get d = l.get d
  remove_other : ∀ (l : MediaLists) (d : Category), d ≠ c → (l.remove m).get d = l.get d

/-- A message with the record alone inserts it into the lists or deletes it from
them, and makes or removes its two links in the folders of the category. -/
structure FiledUnder (m : AndroidMeta) (c : Category) : Prop where
  inserted : ∀ {F : Type} {host : Host F} {s t : State F} {totalNum : Int32},
    onSyncFiles host s ⟨1, [m], totalNum⟩ = some t → t.lists = s.lists.insert m ∧
      (linked m = true → ∃ fileName, fileNameOf m = some fileName ∧ t.files =
        linkInto host
          (linkInto host s.files (srcFilePath host m) (destPath host m c.label) fileName)
          (srcFilePath host m) (destPath2 host m c.label) fileName)
  deleted : ∀ {F : Type} {host : Host F} {s t : State F} {totalNum : Int32},
    onSyncFiles host s ⟨2, [m], totalNum⟩ = some t → t.lists = s.lists.remove m ∧
      (linked m = true → ∃ fileName, fileNameOf m = some fileName ∧ t.files =
        removeIfExists host (removeIfExists host s.files (destPath host m c.label ++ fileName))
          (destPath2 host m c.label ++ fileName))

variable {m : AndroidMeta} {c : Category} {front : QString}

theorem listedUnder_category (m : AndroidMeta) : ListedUnder m (category m) := by
  refine ⟨fun l => ?_, fun l => ?_, fun l d hd => ?_, fun l d hd => ?_⟩
  · rw [get_insert, if_pos rfl, append_eq]
  · rw [get_remove, if_pos rfl, removePath_eq]
  · rw [get_insert, if_neg (Ne.symm hd)]
  · rw [get_remove, if_neg (Ne.symm hd)]

/-- An insertion into empty lists shows the category. -/
theorem listedUnder_iff : ListedUnder m c ↔ category m = c := by
  constructor
  · intro h
    by_contra hne
    have hinsert := h.insert {}
    rw [get_insert, if_neg hne, append_eq] at hinsert
    simp [insertNew] at hinsert
  · rintro rfl
    exact listedUnder_category m

/-- A message of one record, of a type other than a dump's. -/
theorem onSyncFiles_record {F : Type} {host : Host F} {s t : State F} {type totalNum : Int32}
    (htype : type ≠ 0) (h : onSyncFiles host s ⟨type, [m], totalNum⟩ = some t) :
    t.lists = applyRecord type s.lists m ∧ applyLinks host type s.files m = some t.files := by
  have hreceive : receive s ⟨type, [m], totalNum⟩ = s := if_neg htype
  unfold onSyncFiles at h
  rw [hreceive] at h
  obtain ⟨u, hu, hdone⟩ := run_cons_some.mp h
  obtain ⟨files, hfiles, rfl⟩ := syncMeta_some.mp hu
  obtain rfl := Option.some.inj hdone
  exact ⟨rfl, hfiles⟩

/-- Both branches take the folder from the first segment. -/
theorem filedUnder_of_fileTypeOf (h : fileTypeOf m = some c.label) : FiledUnder m c := by
  constructor
  · intro F host s t totalNum hsync
    obtain ⟨hlists, hlinks⟩ := onSyncFiles_record (by decide) hsync
    refine ⟨hlists, fun hlinked => ?_⟩
    change createLinks host s.files m = some t.files at hlinks
    rw [createLinks, if_pos hlinked, h, Option.bind_eq_bind, Option.bind_some] at hlinks
    obtain ⟨fileName, hname, hfiles⟩ := Option.bind_eq_some_iff.mp hlinks
    exact ⟨fileName, hname, (Option.some.inj hfiles).symm⟩
  · intro F host s t totalNum hsync
    obtain ⟨hlists, hlinks⟩ := onSyncFiles_record (by decide) hsync
    refine ⟨hlists, fun hlinked => ?_⟩
    change removeLinks host s.files m = some t.files at hlinks
    rw [removeLinks, if_pos hlinked, h, Option.bind_eq_bind, Option.bind_some] at hlinks
    obtain ⟨fileName, hname, hfiles⟩ := Option.bind_eq_some_iff.mp hlinks
    exact ⟨fileName, hname, (Option.some.inj hfiles).symm⟩

theorem segmentCategory_cases (front : QString) :
    front = "image".toList ∧ segmentCategory front = .image ∨
    front = "video".toList ∧ segmentCategory front = .video ∨
    front = "audio".toList ∧ segmentCategory front = .audio ∨
    (front = "application".toList ∨ front = "text".toList) ∧ segmentCategory front = .document ∨
    segmentCategory front = .other := by
  unfold segmentCategory
  split_ifs <;> simp_all

theorem fileType_eq (front : QString) : fileType front = (segmentCategory front).label := by
  unfold fileType segmentCategory
  by_cases haudio : front = "audio".toList
  · rw [haudio]
    decide
  by_cases hvideo : front = "video".toList
  · rw [hvideo]
    decide
  rw [if_neg haudio, if_neg hvideo, if_neg hvideo, if_neg haudio]
  split_ifs <;> rfl

theorem mentions_of_front (h : front ∈ m.mimeType.splitSkipEmpty '/') {word : String}
    (hword : front = word.toList) : mentions m word = true := by
  have hinfix := QString.splitOn_infix (List.mem_of_mem_filter h)
  rw [hword] at hinfix
  simpa [mentions] using QString.indexOf_ne_neg_one.mpr hinfix

/-- The search comes to the category of the first segment unless it meets
another word before. -/
theorem category_eq_iff (h : front ∈ m.mimeType.splitSkipEmpty '/') :
    category m = segmentCategory front ↔
      ∀ word ∈ (segmentCategory front).earlier, mentions m word = false := by
  obtain ⟨hword, hc⟩ | ⟨hword, hc⟩ | ⟨hword, hc⟩ | ⟨hword, hc⟩ | hc := segmentCategory_cases front
  · have himage := mentions_of_front h hword
    simp [hc, category, Category.earlier, himage]
  · have hvideo := mentions_of_front h hword
    cases himage : mentions m "image" <;> simp [hc, category, Category.earlier, hvideo, himage]
  · have haudio := mentions_of_front h hword
    cases himage : mentions m "image" <;> cases hvideo : mentions m "video" <;>
      simp [hc, category, Category.earlier, himage, hvideo, haudio]
  · have hdocument : (mentions m "application" || mentions m "text") = true := by
      rw [Bool.or_eq_true]
      exact hword.imp (mentions_of_front h) (mentions_of_front h)
    rw [hc, Category.earlier, category, if_pos hdocument]
    split_ifs <;> simp [*]
  · rw [hc, Category.earlier, category]
    cases happ : mentions m "application" <;> split_ifs <;> simp_all

/-- **One classification.** List and folder of a record are of one category
exactly when its mime type contains no word that the search tries before those
of the first segment's category. The lists and the folders are those of
`onSyncFiles`, for insertions and deletions. -/
theorem classifications_agree_iff (h : ∃ ch ∈ m.mimeType, ch ≠ '/') :
    ((∃ c, ListedUnder m c ∧ fileTypeOf m = some c.label) ↔
      ∃ front, (m.mimeType.splitSkipEmpty '/').head? = some front ∧
        ∀ word ∈ (segmentCategory front).earlier, mentions m word = false) ∧
    ∀ c, fileTypeOf m = some c.label → FiledUnder m c := by
  obtain ⟨front, rest, hparts⟩ :=
    List.exists_cons_of_ne_nil (QString.splitSkipEmpty_ne_nil.mpr h)
  have hfront : front ∈ m.mimeType.splitSkipEmpty '/' := by simp [hparts]
  have hlabel : ∀ c : Category, fileTypeOf m = some c.label ↔ segmentCategory front = c := by
    intro c
    rw [fileTypeOf, hparts, List.head?_cons, Option.map_some, fileType_eq, Option.some_inj]
    exact Category.label_injective.eq_iff
  have hagree : (∃ c, ListedUnder m c ∧ fileTypeOf m = some c.label) ↔
      category m = segmentCategory front := by
    simp only [listedUnder_iff, hlabel]
    constructor
    · intro h
      obtain ⟨c, hlist, hfolder⟩ := h
      exact hlist.trans hfolder.symm
    · intro heq
      exact ⟨_, rfl, heq.symm⟩
  refine ⟨?_, fun c => filedUnder_of_fileTypeOf⟩
  rw [hagree, category_eq_iff hfront, hparts, List.head?_cons]
  simp

/-- A photo is under images in both. -/
theorem photo_classifications_agree :
    ∃ c, ListedUnder ⟨[], "image/png".toList, []⟩ c ∧
      fileTypeOf ⟨[], "image/png".toList, []⟩ = some c.label :=
  (classifications_agree_iff (m := ⟨[], "image/png".toList, []⟩)
    ⟨'i', by decide, by decide⟩).1.mpr ⟨"image".toList, by decide, by decide⟩

/-- An image in a document format is listed under images and linked under
documents. -/
theorem opendocument_classifications_differ :
    ¬ ∃ c, ListedUnder ⟨[], "application/vnd.oasis.opendocument.image".toList, []⟩ c ∧
      fileTypeOf ⟨[], "application/vnd.oasis.opendocument.image".toList, []⟩ = some c.label := by
  simp only [listedUnder_iff]
  rintro ⟨c, rfl, hfolder⟩
  exact absurd hfolder (by decide)

end KmreManager.ControlManager
