import KmreManager.HostTree
import KmreManager.ControlManager.Step

/-! # The links of the records

Every record is to be linked under two names below `KmreData`, built from its
package, its type and the last part of its path. Nothing keeps two records
from sharing these names: a link that is there is not replaced, and a delete
removes what it finds. This file says which steps of a run keep every record
that was inserted and not deleted since linked under both names. -/
namespace KmreManager.ControlManager
open KmreManager.Lib KmreManager.Lib.Runs
open KmreManager.HostTree

/-! ## Names -/

section Names
variable {F : Type} (host : Host F)

/-- The host file a record's path denotes: the data directory of the container
in place of a leading `/storage/emulated/0`. -/
def denoted (m : AndroidMeta) : QString :=
  entryPath host ++
    if "/storage/emulated/0".toList.isPrefixOf m.path then
      m.path.drop "/storage/emulated/0".toList.length
    else m.path

/-- The two directories and the two names of a record's links. -/
structure Links where
  dir : List QString
  dir' : List QString
  name : List QString
  name' : List QString
  deriving DecidableEq, Repr

def Links.names (l : Links) : List (List QString) := [l.name, l.name']

/-- The links a record gets: none without a package or a mime type. -/
def linksOf (m : AndroidMeta) : Option Links :=
  if linked m then do
    let type ← fileTypeOf m
    let fileName ← fileNameOf m
    return {
      dir := components (destPath host m type)
      dir' := components (destPath2 host m type)
      name := components (destPath host m type ++ fileName)
      name' := components (destPath2 host m type ++ fileName) }
  else none

variable {host} {m : AndroidMeta} {l : Links}

theorem linksOf_eq_some :
    linksOf host m = some l ↔ linked m = true ∧ ∃ type fileName, fileTypeOf m = some type ∧
      fileNameOf m = some fileName ∧ l = {
        dir := components (destPath host m type)
        dir' := components (destPath2 host m type)
        name := components (destPath host m type ++ fileName)
        name' := components (destPath2 host m type ++ fileName) } := by
  unfold linksOf
  by_cases hl : linked m = true
  · rw [if_pos hl, and_iff_right hl]
    cases fileTypeOf m with
    | none => simp
    | some type =>
      cases fileNameOf m with
      | none => simp
      | some fileName => simp [eq_comm]
  · simp [hl]

/-- The records with links: a package, and a mime type and a path that split. -/
theorem linksOf_isSome (host : Host F) (m : AndroidMeta) : (linksOf host m).isSome ↔
    linked m = true ∧ (∃ c ∈ m.mimeType, c ≠ '/') ∧ ∃ c ∈ m.path, c ≠ '/' := by
  rw [← fileTypeOf_isSome, ← fileNameOf_isSome]
  simp only [Option.isSome_iff_exists, linksOf_eq_some]
  constructor
  · rintro ⟨_, hl, type, fileName, ht, hn, _⟩
    exact ⟨hl, ⟨type, ht⟩, ⟨fileName, hn⟩⟩
  · rintro ⟨hl, ⟨type, ht⟩, ⟨fileName, hn⟩⟩
    exact ⟨_, hl, type, fileName, ht, hn, rfl⟩

theorem applyLinks_insert {type : Int32} (h : type = 1) (files : F) :
    applyLinks host type files m = createLinks host files m := by
  simp [applyLinks, h]

theorem applyLinks_delete {type : Int32} (h : type = 2) (files : F) :
    applyLinks host type files m = removeLinks host files m := by
  simp [applyLinks, h]

/-- A record without links changes no file. -/
theorem applyLinks_of_none {type : Int32} {files files' : F} (hl : linksOf host m = none)
    (h : applyLinks host type files m = some files') : files' = files := by
  by_cases hlinked : linked m = true
  · by_cases ht : Handled type
    · have hsplit := (applyLinks_isSome type files m).mp (Option.isSome_of_eq_some h) ht hlinked
      have hsome := (linksOf_isSome host m).mpr ⟨hlinked, hsplit⟩
      rw [hl] at hsome
      cases hsome
    · unfold Handled at ht
      rw [not_or, not_or] at ht
      rw [applyLinks, if_neg (by simp [ht]), if_neg ht.2.2] at h
      exact (Option.some.inj h).symm
  · unfold applyLinks at h
    rw [createLinks, removeLinks, if_neg hlinked, if_neg hlinked, ite_self, ite_self] at h
    exact (Option.some.inj h).symm

end Names

/-! ## Record by record -/

section Track
variable {F : Type} (host : Host F)

/-- The records of a run, each with its message. -/
def records (msgs : List SyncFiles) : List (SyncFiles × AndroidMeta) :=
  msgs.flatMap fun msg => msg.metas.map fun m => (msg, m)

/-- The manager and an observer who keeps the records that were inserted and
not deleted since. -/
def track (o : AndroidMetaList × State F) (r : SyncFiles × AndroidMeta) :
    Option (AndroidMetaList × State F) :=
  (syncMeta host r.1 o.2 r.2).map fun s =>
    (if r.1.type = 1 then r.2 :: o.1 else o.1.filter fun b => b.path ≠ r.2.path, s)

variable {host}

theorem track_some {o o' : AndroidMetaList × State F} {r : SyncFiles × AndroidMeta} :
    track host o r = some o' ↔
      o'.1 = (if r.1.type = 1 then r.2 :: o.1 else o.1.filter fun b => b.path ≠ r.2.path) ∧
        syncMeta host r.1 o.2 r.2 = some o'.2 := by
  obtain ⟨live, s⟩ := o'
  simp only [track, Option.map_eq_some_iff, Prod.mk.injEq]
  constructor
  · rintro ⟨t, ht, rfl, rfl⟩
    exact ⟨rfl, ht⟩
  · rintro ⟨rfl, ht⟩
    exact ⟨s, ht, rfl, rfl⟩

/-- Updates touch no counter before their loop, so the loops of a run of
updates are one loop over its records. -/
theorem run_track {msgs : List SyncFiles} (htype : ∀ msg ∈ msgs, msg.type = 1 ∨ msg.type = 2)
    (live : AndroidMetaList) (s : State F) :
    (run (track host) (live, s) (records msgs)).map Prod.snd = run (onSyncFiles host) s msgs := by
  have hproject : ∀ o r, (track host o r).map Prod.snd = syncMeta host r.1 o.2 r.2 := by
    intro o r
    simp [track, Function.comp_def]
  rw [map_run (fun s r => syncMeta host r.1 s r.2) Prod.snd hproject]
  clear hproject
  induction msgs generalizing s with
  | nil => rfl
  | cons msg msgs ih =>
    obtain ⟨hmsg, hmsgs⟩ := List.forall_mem_cons.mp htype
    have hreceive : receive s msg = s := by
      refine if_neg fun h0 => ?_
      rw [h0] at hmsg
      revert hmsg
      decide
    rw [records, List.flatMap_cons, run_append, run_map, run_cons, onSyncFiles, hreceive]
    exact congrArg _ (funext fun t => ih hmsgs t)

end Track

/-! ## One link and one removal -/

theorem linkInto_of_mkpath {F : Type} {host : Host F} {files : F} {src dest fileName : QString}
    (h : (host.mkpath files dest).2 = true) :
    linkInto host files src dest fileName =
      (host.link (host.mkpath files dest).1 src (dest ++ fileName)).1 := by
  unfold linkInto
  generalize host.mkpath files dest = made at h
  obtain ⟨files', made⟩ := made
  cases h
  rfl

section TreeHost
variable {uid userName : QString} {m : AndroidMeta} {l : Links}

theorem linkInto_treeHost {files : HostFiles} {src dest fileName : QString}
    (h : (HardLinks.mkpath files (components dest)).2 = true) :
    linkInto (treeHost uid userName) files src dest fileName =
      HardLinks.place files (components src) (components dest) (components (dest ++ fileName)) :=
  linkInto_of_mkpath h

theorem inode?_removeIfExists (files : HostFiles) (filePath : QString) (q : List QString) :
    (removeIfExists (treeHost uid userName) files filePath).inode? q =
      if q = components filePath then none else files.inode? q := by
  unfold removeIfExists
  by_cases he : (treeHost uid userName).fileExists files filePath
  · rw [if_pos he]
    exact HardLinks.inode?_remove files (components filePath) q
  · rw [if_neg he]
    have hnone : files (components filePath) = none := by
      simpa [treeHost, HardLinks.fileExists] using he
    by_cases hq : q = components filePath
    · rw [if_pos hq, hq, HardLinks.Tree.inode?, hnone]
    · rw [if_neg hq]

/-- What an insert does to the host's files, where its directories can be made. -/
theorem createLinks_treeHost {files files' : HostFiles} {src : List QString}
    (hl : linksOf (treeHost uid userName) m = some l)
    (hsrc : src = components (srcFilePath (treeHost uid userName) m))
    (h : createLinks (treeHost uid userName) files m = some files')
    (hdir : (HardLinks.mkpath files l.dir).2 = true)
    (hdir' : (HardLinks.mkpath (HardLinks.place files src l.dir l.name) l.dir').2 = true) :
    files' = HardLinks.place (HardLinks.place files src l.dir l.name) src l.dir' l.name' := by
  obtain ⟨hlinked, type, fileName, ht, hn, rfl⟩ := linksOf_eq_some.mp hl
  rw [createLinks, if_pos hlinked, ht, hn] at h
  have h' := Option.some.inj h
  dsimp only at h' hdir hdir' ⊢
  generalize destPath (treeHost uid userName) m type = dest at *
  generalize destPath2 (treeHost uid userName) m type = dest2 at *
  generalize srcFilePath (treeHost uid userName) m = srcFilePath at *
  subst hsrc
  rw [linkInto_treeHost hdir, linkInto_treeHost hdir'] at h'
  exact h'.symm

/-- What a delete does. -/
theorem removeLinks_treeHost {files files' : HostFiles}
    (hl : linksOf (treeHost uid userName) m = some l)
    (h : removeLinks (treeHost uid userName) files m = some files') (q : List QString) :
    files'.inode? q = if q ∈ l.names then none else files.inode? q := by
  obtain ⟨hlinked, type, fileName, ht, hn, rfl⟩ := linksOf_eq_some.mp hl
  rw [removeLinks, if_pos hlinked, ht, hn] at h
  rw [← Option.some.inj h, inode?_removeIfExists, inode?_removeIfExists]
  simp only [Links.names, List.mem_cons, List.not_mem_nil, or_false]
  by_cases hq' : q = components (destPath2 (treeHost uid userName) m type ++ fileName)
  · rw [if_pos hq', if_pos (Or.inr hq')]
  · simp only [hq', if_false, or_false]

end TreeHost

/-! ## The mirror -/

/-- Every record the observer keeps is linked under both names to the file its
path denotes. -/
def Mirrored (host : Host HostFiles) (o : AndroidMetaList × State HostFiles) : Prop :=
  ∀ r ∈ o.1, ∀ l, linksOf host r = some l → ∀ q ∈ l.names, ∃ i,
    o.2.files.inode? (components (denoted host r)) = some i ∧ o.2.files.inode? q = some i

/-- What the host is assumed to do for an insert: the file is there, and both
directories can be made. -/
def Provided (host : Host HostFiles) (o : AndroidMetaList × State HostFiles)
    (r : SyncFiles × AndroidMeta) : Prop :=
  r.1.type = 1 → ∀ l ∈ linksOf host r.2,
    (o.2.files.inode? (components (denoted host r.2))).isSome ∧
    (HardLinks.mkpath o.2.files l.dir).2 = true ∧
    (HardLinks.mkpath (HardLinks.place o.2.files (components (srcFilePath host r.2)) l.dir l.name)
      l.dir').2 = true

/-- The step has a successor, and the mirror stands in it. -/
def MirrorsAfter (host : Host HostFiles) (o : AndroidMetaList × State HostFiles)
    (r : SyncFiles × AndroidMeta) : Prop :=
  ∃ o', track host o r = some o' ∧ Mirrored host o'

/-- An insert finds each of its two names linked to its file already, or free
while the path the code makes up leads to that file. -/
def InsertHarmless (host : Host HostFiles) (files : HostFiles) (m : AndroidMeta) : Prop :=
  ∀ l ∈ linksOf host m, ∀ q ∈ l.names,
    files.inode? q = files.inode? (components (denoted host m)) ∨
      HardLinks.Free files l.dir l.dir' q ∧
        files.inode? (components (srcFilePath host m)) =
          files.inode? (components (denoted host m))

/-- The names a delete removes are not those of a record that stays, nor its
host file. -/
def DeleteHarmless (host : Host HostFiles) (live : AndroidMetaList) (m : AndroidMeta) : Prop :=
  ∀ l ∈ linksOf host m, ∀ r ∈ live, r.path ≠ m.path → ∀ k ∈ linksOf host r, ∀ q ∈ l.names,
    q ∉ k.names ∧ q ≠ components (denoted host r)

def Harmless (host : Host HostFiles) (o : AndroidMetaList × State HostFiles)
    (r : SyncFiles × AndroidMeta) : Prop :=
  Splits r.2 ∧ (r.1.type = 1 → InsertHarmless host o.2.files r.2) ∧
    (r.1.type = 2 → DeleteHarmless host o.1 r.2)

instance (host : Host HostFiles) (o : AndroidMetaList × State HostFiles)
    (r : SyncFiles × AndroidMeta) : Decidable (Provided host o r) :=
  inferInstanceAs (Decidable (_ → _))

instance (host : Host HostFiles) (files : HostFiles) (m : AndroidMeta) :
    Decidable (InsertHarmless host files m) :=
  inferInstanceAs (Decidable (∀ l ∈ linksOf host m, _))

instance (host : Host HostFiles) (live : AndroidMetaList) (m : AndroidMeta) :
    Decidable (DeleteHarmless host live m) :=
  inferInstanceAs (Decidable (∀ l ∈ linksOf host m, _))

instance (host : Host HostFiles) (o : AndroidMetaList × State HostFiles)
    (r : SyncFiles × AndroidMeta) : Decidable (Harmless host o r) :=
  inferInstanceAs (Decidable (_ ∧ _))

section Steps
variable {uid userName : QString} {o o' : AndroidMetaList × State HostFiles}
  {r : SyncFiles × AndroidMeta}

theorem track_files {F : Type} {host : Host F} {o o' : AndroidMetaList × State F}
    {r : SyncFiles × AndroidMeta} (h : track host o r = some o') :
    applyLinks host r.1.type o.2.files r.2 = some o'.2.files := by
  obtain ⟨_, hmeta⟩ := track_some.mp h
  obtain ⟨files, hfiles, heq⟩ := syncMeta_some.mp hmeta
  rw [hfiles, ← heq]
  rfl

theorem mirrored_insert (h1 : r.1.type = 1) (hI : Mirrored (treeHost uid userName) o)
    (hprovided : Provided (treeHost uid userName) o r)
    (hstep : track (treeHost uid userName) o r = some o') :
    Mirrored (treeHost uid userName) o' ↔
      InsertHarmless (treeHost uid userName) o.2.files r.2 := by
  have hlive : o'.1 = r.2 :: o.1 := by rw [(track_some.mp hstep).1, if_pos h1]
  have hfiles := track_files hstep
  cases hl : linksOf (treeHost uid userName) r.2 with
  | none =>
    have hsame := applyLinks_of_none hl hfiles
    refine iff_of_true ?_ (fun l h => by rw [hl] at h; cases h)
    intro b hb l hlb
    rw [hlive] at hb
    rcases List.mem_cons.mp hb with rfl | hb
    · rw [hl] at hlb
      cases hlb
    · rw [hsame]
      exact hI b hb l hlb
  | some l =>
    obtain ⟨hfile, hdir, hdir'⟩ := hprovided h1 l hl
    obtain ⟨i, hi⟩ := Option.isSome_iff_exists.mp hfile
    rw [applyLinks_insert h1] at hfiles
    have hplace := createLinks_treeHost hl rfl hfiles hdir hdir'
    generalize treeHost uid userName = host at *
    have hkeep : ∀ q j, o.2.files.inode? q = some j → o'.2.files.inode? q = some j := by
      intro q j hq
      rw [hplace]
      exact HardLinks.inode?_place_of_some hdir' (HardLinks.inode?_place_of_some hdir hq)
    have hnames : ∀ q ∈ l.names, (o'.2.files.inode? q = some i ↔ o.2.files.inode? q = some i ∨
        HardLinks.Free o.2.files l.dir l.dir' q ∧
          o.2.files.inode? (components (srcFilePath host r.2)) = some i) := by
      intro q hq
      rw [hplace]
      exact HardLinks.place_two hdir hdir' (by simpa [Links.names] using hq)
    have hdenoted := hkeep _ _ hi
    constructor
    · intro hm k hk q hq
      obtain rfl := Option.some.inj (hl.symm.trans hk)
      obtain ⟨j, hj, hqj⟩ := hm r.2 (by rw [hlive]; exact List.mem_cons_self) l hl q hq
      obtain rfl := Option.some.inj (hdenoted.symm.trans hj)
      rw [hi]
      exact (hnames q hq).mp hqj
    · intro hok b hb k hk q hq
      rw [hlive] at hb
      rcases List.mem_cons.mp hb with rfl | hb
      · obtain rfl := Option.some.inj (hl.symm.trans hk)
        refine ⟨i, hdenoted, (hnames q hq).mpr ?_⟩
        rw [← hi]
        exact hok l hl q hq
      · obtain ⟨j, hj, hqj⟩ := hI b hb k hk q hq
        exact ⟨j, hkeep _ _ hj, hkeep _ _ hqj⟩

theorem mirrored_delete (h2 : r.1.type = 2) (hI : Mirrored (treeHost uid userName) o)
    (hstep : track (treeHost uid userName) o r = some o') :
    Mirrored (treeHost uid userName) o' ↔ DeleteHarmless (treeHost uid userName) o.1 r.2 := by
  have h1 : r.1.type ≠ 1 := by rw [h2]; decide
  have hlive : o'.1 = o.1.filter fun b => b.path ≠ r.2.path := by
    rw [(track_some.mp hstep).1, if_neg h1]
  have hmem : ∀ b, b ∈ o'.1 ↔ b ∈ o.1 ∧ b.path ≠ r.2.path := by
    intro b
    rw [hlive, List.mem_filter, decide_eq_true_eq]
  have hfiles := track_files hstep
  cases hl : linksOf (treeHost uid userName) r.2 with
  | none =>
    have hsame := applyLinks_of_none hl hfiles
    refine iff_of_true ?_ (fun l h => by rw [hl] at h; cases h)
    intro b hb l hlb
    rw [hsame]
    exact hI b ((hmem b).mp hb).1 l hlb
  | some l =>
    rw [applyLinks_delete h2] at hfiles
    have hinode := removeLinks_treeHost hl hfiles
    generalize treeHost uid userName = host at *
    constructor
    · intro hm l' hl' b hb hp k hk q hq
      obtain rfl := Option.some.inj (hl.symm.trans hl')
      have hlinked := hm b ((hmem b).mpr ⟨hb, hp⟩) k hk
      constructor
      · intro hqk
        obtain ⟨i, _, hi⟩ := hlinked q hqk
        rw [hinode, if_pos hq] at hi
        cases hi
      · rintro rfl
        obtain ⟨i, hi, _⟩ := hlinked k.name (by simp [Links.names])
        rw [hinode, if_pos hq] at hi
        cases hi
    · intro hok b hb k hk q hq
      obtain ⟨hb, hp⟩ := (hmem b).mp hb
      obtain ⟨i, hi, hqi⟩ := hI b hb k hk q hq
      have hdisjoint := hok l hl b hb hp k hk
      refine ⟨i, ?_, ?_⟩
      · rwa [hinode, if_neg fun h => (hdisjoint _ h).2 rfl]
      · rwa [hinode, if_neg fun h => (hdisjoint _ h).1 hq]

theorem mirrorsAfter_iff (hI : Mirrored (treeHost uid userName) o)
    (htype : r.1.type = 1 ∨ r.1.type = 2) (hprovided : Provided (treeHost uid userName) o r) :
    MirrorsAfter (treeHost uid userName) o r ↔ Harmless (treeHost uid userName) o r := by
  have hmirrored : ∀ o', track (treeHost uid userName) o r = some o' →
      (Mirrored (treeHost uid userName) o' ↔
        (r.1.type = 1 → InsertHarmless (treeHost uid userName) o.2.files r.2) ∧
          (r.1.type = 2 → DeleteHarmless (treeHost uid userName) o.1 r.2)) := by
    intro o' hstep
    rcases htype with h1 | h2
    · have h2 : r.1.type ≠ 2 := by rw [h1]; decide
      rw [mirrored_insert h1 hI hprovided hstep]
      exact ⟨fun h => ⟨fun _ => h, fun h' => absurd h' h2⟩, fun h => h.1 h1⟩
    · have h1 : r.1.type ≠ 1 := by rw [h2]; decide
      rw [mirrored_delete h2 hI hstep]
      exact ⟨fun h => ⟨fun h' => absurd h' h1, fun _ => h⟩, fun h => h.2 h2⟩
  have hdefined : (∃ o', track (treeHost uid userName) o r = some o') ↔ Splits r.2 := by
    rw [← Option.isSome_iff_exists, track, Option.isSome_map, syncMeta_eq, Option.isSome_map,
      applyLinks_isSome]
    exact ⟨fun h => h (Or.inr htype), fun h _ => h⟩
  rw [Harmless, ← hdefined]
  constructor
  · rintro ⟨o', hstep, hm⟩
    exact ⟨⟨o', hstep⟩, (hmirrored o' hstep).mp hm⟩
  · rintro ⟨⟨o', hstep⟩, hok⟩
    exact ⟨o', hstep, (hmirrored o' hstep).mpr hok⟩

end Steps

theorem mem_records {msgs : List SyncFiles} {P : SyncFiles → Prop} (h : ∀ msg ∈ msgs, P msg) :
    ∀ r ∈ records msgs, P r.1 := by
  intro r hr
  obtain ⟨msg, hmsg, hr⟩ := List.mem_flatMap.mp hr
  obtain ⟨m, _, rfl⟩ := List.mem_map.mp hr
  exact h msg hmsg

/-- **When the links mirror the records.** Along a run of inserts and deletes
whose host files are there and whose directories can be made, every record that
was inserted and not deleted since is linked under both names after every
record of the run exactly when no step is harmful: each insert finds its names
free or linked to its own file, and each delete finds under its names no link
of another record. The manager then reaches the end of the run with the mirror
standing. -/
theorem links_mirror_records (uid userName : QString) (s : State HostFiles)
    (msgs : List SyncFiles) (htype : ∀ msg ∈ msgs, msg.type = 1 ∨ msg.type = 2)
    (hprovided : Guarded (track (treeHost uid userName)) (Provided (treeHost uid userName))
      ([], s) (records msgs)) :
    (Guarded (track (treeHost uid userName)) (MirrorsAfter (treeHost uid userName))
        ([], s) (records msgs) ↔
      Guarded (track (treeHost uid userName)) (Harmless (treeHost uid userName))
        ([], s) (records msgs)) ∧
    (Guarded (track (treeHost uid userName)) (Harmless (treeHost uid userName))
        ([], s) (records msgs) →
      ∃ live s', run (track (treeHost uid userName)) ([], s) (records msgs) = some (live, s') ∧
        run (onSyncFiles (treeHost uid userName)) s msgs = some s' ∧
        Mirrored (treeHost uid userName) (live, s')) := by
  generalize hhost : treeHost uid userName = host at *
  have hempty : Mirrored host ([], s) := fun r hr => absurd hr List.not_mem_nil
  have hiff : Guarded (track host) (MirrorsAfter host) ([], s) (records msgs) ↔
      Guarded (track host) (Harmless host) ([], s) (records msgs) :=
    Guarded.congr (Mirrored host)
      (fun o r => (r.1.type = 1 ∨ r.1.type = 2) ∧ Provided host o r)
      (fun o r hI hbase => by subst hhost; exact mirrorsAfter_iff hI hbase.1 hbase.2)
      (fun o r o' _ _ ⟨t, ht, hm⟩ hstep => by
        obtain rfl := Option.some.inj (ht.symm.trans hstep)
        exact hm)
      hempty (hprovided.and_mem (mem_records htype))
  refine ⟨hiff, fun hharmless => ?_⟩
  have hafter := hiff.mpr hharmless
  obtain ⟨o', hrun⟩ := hafter.exists_run (fun o r ⟨t, ht, _⟩ => ⟨t, ht⟩)
  refine ⟨o'.1, o'.2, hrun, ?_, ?_⟩
  · rw [← run_track htype [] s, hrun]
    rfl
  · exact run_guarded (I := Mirrored host) (fun o r o' _ ⟨t, ht, hm⟩ hstep => by
      obtain rfl := Option.some.inj (ht.symm.trans hstep)
      exact hm) hempty hafter hrun

/-- Two pictures with one base name, of two packages, one deleted in the end. -/
theorem links_mirror_records_packages :
    ∃ live s', run (onSyncFiles kylinHost) (started pictures)
        [⟨1, [photo], 1⟩, ⟨1, [{ screenshot with pkgName := "com.shot".toList }], 1⟩,
          ⟨2, [photo], 1⟩] = some s' ∧ Mirrored kylinHost (live, s') := by
  have hmirror := links_mirror_records "1000".toList "kylin".toList (started pictures)
    [⟨1, [photo], 1⟩, ⟨1, [{ screenshot with pkgName := "com.shot".toList }], 1⟩,
      ⟨2, [photo], 1⟩] (by decide) (by decide +kernel)
  obtain ⟨live, s', _, hrun, hm⟩ := hmirror.2 (by decide +kernel)
  exact ⟨live, s', hrun, hm⟩

/-- Two pictures of one package and base name, in different directories: both
names of the second are links to the first. -/
theorem second_picture_linked_to_first :
    Guarded (track kylinHost) (Provided kylinHost) ([], started pictures)
        (records [⟨1, [photo, screenshot], 2⟩]) ∧
      ∃ s', run (onSyncFiles kylinHost) (started pictures) [⟨1, [photo, screenshot], 2⟩] = some s' ∧
        s'.files.inode? (components (denoted kylinHost screenshot)) = some 2 ∧
        ∀ l ∈ linksOf kylinHost screenshot, ∀ q ∈ l.names, s'.files.inode? q = some 1 := by
  refine ⟨by decide +kernel, _, rfl, ?_⟩
  decide +kernel

end KmreManager.ControlManager
