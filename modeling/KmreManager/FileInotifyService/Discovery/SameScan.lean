import KmreManager.FileInotifyService.Discovery
import KmreManager.FileInotifyService.StaticScan
import KmreManager.FileInotifyService.Undisturbed

/-! # The three scans are one

`StaticScan` walks path names through the links of a whole file system, and the
watcher thread of `FileInotifyService` scans step by step. On a tree that two of
them have, `addWatchRecursively` registers the same directories and lists the
same files as it does in `Discovery`. -/
namespace KmreManager.FileInotifyService.Discovery
open KmreManager.Lib KmreManager.Lib.PathWalk KmreManager.FileInotifyWatcher
open StaticScan (Tree NodeKind Scanned ScannedExactly AddsWatches)

/-- The entries at and below `root` are those that `fileType` has. -/
structure SameTree (fileType : HostPath → Option FileType) (root : HostPath) (s : State) :
    Prop where
  rooted : Rooted (toStdString root) s
  lstat : ∀ p, root <:+ p → s.lstat (toStdString p) = fileType p

/-- The directories of the tree that are watched are those that the other service
knows, and the same files are listed. -/
structure SameService (fileType : HostPath → Option FileType) (root : HostPath)
    (known : HostPath → Prop) (mFileList : List NotifyFileInfo) (s : State) : Prop where
  watched : ∀ p, root <:+ p → fileType p = some .directory →
    (known p ↔ (s.kernel.wdOf (toStdString p)).isSome = true)
  listed : ∀ f, (∃ info ∈ mFileList, info.path = f) ↔ ∃ info ∈ s.mFileList, info.path = f

/-- No name from `root` down to `p` starts with a dot. -/
def Unhidden (root p : HostPath) : Prop :=
  ∃ rel, p = rel ++ root ∧ ∀ name ∈ rel, name.head? ≠ some '.'

section Paths
variable {fileType : HostPath → Option FileType} {root p : HostPath} {s : State}

theorem Unhidden.suffix (h : Unhidden root p) : root <:+ p := by
  obtain ⟨rel, rfl, -⟩ := h
  exact List.suffix_append rel root

theorem toStdString_append (rel path : HostPath) :
    toStdString (rel ++ path) = toStdString rel ++ toStdString path :=
  List.map_append

/-- The bytes of the names start with dots where the names do. -/
theorem visible_toStdString :
    Visible (toStdString root) (toStdString p) ↔ Unhidden root p := by
  constructor
  · rintro ⟨raw, hraw, hnames⟩
    have hp : p = ofBytes raw ++ root := calc
      p = ofBytes (raw ++ toStdString root) := by rw [← hraw, ofBytes_toStdString]
      _ = ofBytes raw ++ ofBytes (toStdString root) := List.map_append
      _ = ofBytes raw ++ root := by rw [ofBytes_toStdString]
    have hback : toStdString (ofBytes raw) = raw := by
      rw [hp, toStdString_append] at hraw
      exact List.append_cancel_right hraw
    refine ⟨ofBytes raw, hp, fun n hn hdot => ?_⟩
    have hmem : QString.toUtf8 n ∈ raw := by
      rw [← hback]
      exact List.mem_map_of_mem hn
    exact hnames _ hmem (QString.head_toUtf8.mpr hdot)
  · rintro ⟨rel, rfl, hnames⟩
    refine ⟨toStdString rel, toStdString_append rel root, fun m hm hdot => ?_⟩
    obtain ⟨n, hn, rfl⟩ := List.mem_map.mp hm
    exact hnames n hn (QString.head_toUtf8.mp hdot)

theorem SameTree.length_le (h : SameTree fileType root s) (hp : root <:+ p) {t : FileType}
    (ht : fileType p = some t) : (toStdString p).length ≤ s.depth :=
  length_le_depth (mem_files_of_lstat ((h.lstat p hp).trans ht))

/-- The files of which a scan tells. -/
theorem SameTree.told_iff (h : SameTree fileType root s) (env : Env) (shouldNotifyFile : Bool)
    (f : QString) : (∃ raw, ScansFile env shouldNotifyFile s (s.depth + 1) (toStdString root) raw ∧
        filePath (ofBytes raw) = f) ↔
      ∃ p, shouldNotifyFile = true ∧ fileType p = some .regular ∧ Unhidden root p ∧
        env.notifies (filePath p) = true ∧ filePath p = f := by
  constructor
  · rintro ⟨raw, ⟨hflag, hfile, hnotifies, hvisible, -⟩, hpath⟩
    have hbelow : toStdString root <:+ raw := by
      obtain ⟨rel, rfl, -⟩ := hvisible
      exact List.suffix_append rel _
    have hlstat := isPathRegularFile_iff.mp hfile
    have hspelled : toStdString (ofBytes raw) = raw :=
      h.rooted.spelled raw _ hbelow (mem_files_of_lstat hlstat)
    rw [← hspelled] at hvisible hlstat
    have hunhidden := visible_toStdString.mp hvisible
    rw [h.lstat _ hunhidden.suffix] at hlstat
    exact ⟨ofBytes raw, hflag, hlstat, hunhidden, hnotifies, hpath⟩
  · rintro ⟨p, hflag, hfile, hunhidden, hnotifies, hpath⟩
    have hlstat : s.lstat (toStdString p) = some .regular :=
      (h.lstat p hunhidden.suffix).trans hfile
    have hdepth := h.length_le hunhidden.suffix hfile
    refine ⟨toStdString p, ⟨hflag, isPathRegularFile_iff.mpr hlstat, ?_,
      visible_toStdString.mpr hunhidden, by omega⟩, ?_⟩
    · rw [ofBytes_toStdString]
      exact hnotifies
    · rw [ofBytes_toStdString]
      exact hpath

/-- A scan that finds the unhidden directories and files, and this one. -/
theorem SameService.scan {known known' : HostPath → Prop} {list list' : List NotifyFileInfo}
    {env : Env} {shouldNotifyFile : Bool} (hservice : SameService fileType root known list s)
    (h : SameTree fileType root s) (ht : Tended (toStdString root) s)
    (hroot : fileType root = some .directory)
    (hknown : ∀ p, root <:+ p → fileType p = some .directory →
      (known' p ↔ known p ∨ Unhidden root p))
    (hlisted : ∀ f, (∃ info ∈ list', info.path = f) ↔ (∃ info ∈ list, info.path = f) ∨
      ∃ p, shouldNotifyFile = true ∧ fileType p = some .regular ∧ Unhidden root p ∧
        env.notifies (filePath p) = true ∧ filePath p = f) :
    SameService fileType root known' list' (addWatchRecursively env s root shouldNotifyFile).1 := by
  have hlstat : s.lstat (toStdString root) = some .directory :=
    (h.lstat root List.suffix_rfl).trans hroot
  have hscan := ht.addWatchRecursively env shouldNotifyFile h.rooted List.suffix_rfl
    (isPathDir_iff.mpr hlstat)
  rw [ofBytes_toStdString] at hscan
  constructor
  · intro p hp hdir
    rw [hknown p hp hdir, hscan.watched, hservice.watched p hp hdir, ← visible_toStdString]
    refine or_congr Iff.rfl ⟨fun hvisible => ?_, fun hscanned => hscanned.2.1⟩
    have hdepth := h.length_le hp hdir
    exact ⟨isPathDir_iff.mpr ((h.lstat p hp).trans hdir), hvisible, by omega⟩
  · intro f
    rw [hlisted, hscan.listed, hservice.listed, h.told_iff]

end Paths

/-! ## The scan of a tree that stands still -/

/-- What `lstat` finds of an entry; the service passes over the other kinds of
files. -/
def fileTypeOf : Entry QString NodeKind → Option FileType
  | .dir => some .directory
  | .symlink _ => some .symlink
  | .file .regular => some .regular
  | .file _ => none

section Still
variable {tree : Tree} {root p : HostPath}

theorem fileTypeOf_eq_directory {e : Option (Entry QString NodeKind)} :
    e.bind fileTypeOf = some .directory ↔ e = some .dir := by
  constructor
  · intro h
    obtain ⟨e, rfl, htype⟩ := Option.bind_eq_some_iff.mp h
    unfold fileTypeOf at htype
    split at htype <;> cases htype
    rfl
  · rintro rfl
    rfl

theorem fileTypeOf_eq_regular {e : Option (Entry QString NodeKind)} :
    e.bind fileTypeOf = some .regular ↔ e = some (.file .regular) := by
  constructor
  · intro h
    obtain ⟨e, rfl, htype⟩ := Option.bind_eq_some_iff.mp h
    unfold fileTypeOf at htype
    split at htype <;> cases htype
    rfl
  · rintro rfl
    rfl

theorem isDir_above {name : QString} {dir : HostPath} {e : Entry QString NodeKind}
    (h : tree.node (name :: dir) = some e) : tree.node dir = some .dir :=
  StaticScan.Tree.node_eq_some.mpr
    (tree.closed name dir _ (StaticScan.Tree.node_eq_some.mp h))

/-- The scanned directories are the unhidden ones. -/
theorem scanned_iff_unhidden (hroot : tree.node root = some .dir) :
    Scanned tree root p ↔ tree.node p = some .dir ∧ Unhidden root p := by
  constructor
  · intro h
    induction h with
    | root => exact ⟨hroot, [], rfl, by simp⟩
    | @entry name dir _ hname hsub ih =>
      obtain ⟨-, rel, rfl, hnames⟩ := ih
      exact ⟨hsub, name :: rel, rfl, List.forall_mem_cons.mpr ⟨hname, hnames⟩⟩
  · rintro ⟨hp, rel, rfl, hnames⟩
    induction rel with
    | nil => exact .root
    | cons name rel ih =>
      obtain ⟨hname, hrel⟩ := List.forall_mem_cons.mp hnames
      exact .entry (ih hrel (isDir_above hp)) hname hp

/-- So the files in them are the unhidden ones. -/
theorem scannedFile_iff (hroot : tree.node root = some .dir) (p : HostPath) :
    (∃ name dir, Scanned tree root dir ∧ name.head? ≠ some '.' ∧
      tree.node (name :: dir) = some (.file .regular) ∧ name :: dir = p) ↔
      tree.node p = some (.file .regular) ∧ Unhidden root p := by
  constructor
  · rintro ⟨name, dir, hdir, hname, hfile, rfl⟩
    obtain ⟨-, rel, rfl, hrel⟩ := (scanned_iff_unhidden hroot).mp hdir
    exact ⟨hfile, name :: rel, rfl, List.forall_mem_cons.mpr ⟨hname, hrel⟩⟩
  · rintro ⟨hfile, rel, rfl, hrel⟩
    cases rel with
    | nil =>
      rw [List.nil_append, hroot] at hfile
      cases hfile
    | cons name rel =>
      obtain ⟨hname, hrel⟩ := List.forall_mem_cons.mp hrel
      have hdir := (scanned_iff_unhidden hroot).mpr ⟨isDir_above hfile, rel, rfl, hrel⟩
      exact ⟨name, rel ++ root, hdir, hname, hfile, rfl⟩

variable {K : Type} {env : Env} {sys : Inotify K QString} {r r' : StaticScan.State K}
  {s : State} {shouldNotifyFile : Bool}

theorem known_iff (hexact : ScannedExactly env tree shouldNotifyFile root r r')
    (hroot : tree.node root = some .dir) (hp : tree.node p = some .dir) :
    (r'.mWatcher.mPathToWdMap (QString.ofPlace p)).isSome = true ↔
      (r.mWatcher.mPathToWdMap (QString.ofPlace p)).isSome = true ∨ Unhidden root p := by
  rw [hexact.registered]
  refine or_congr Iff.rfl ⟨?_, fun hunhidden => ?_⟩
  · rintro ⟨dir, hdir, heq⟩
    obtain ⟨hnode, hunhidden⟩ := (scanned_iff_unhidden hroot).mp hdir
    obtain rfl : p = dir := (StaticScan.spells_ofPlace p).unique
      (heq ▸ StaticScan.spells_ofPlace dir) hp hnode
    exact hunhidden
  · exact ⟨p, (scanned_iff_unhidden hroot).mpr ⟨hp, hunhidden⟩, rfl⟩

theorem listed_iff (hexact : ScannedExactly env tree shouldNotifyFile root r r')
    (hroot : tree.node root = some .dir) (f : QString) :
    (∃ info ∈ r'.mFileList, info.path = f) ↔ (∃ info ∈ r.mFileList, info.path = f) ∨
      ∃ p, shouldNotifyFile = true ∧ (tree.node p).bind fileTypeOf = some .regular ∧
        Unhidden root p ∧ env.notifies (filePath p) = true ∧ filePath p = f := by
  obtain ⟨paths, hlist, -, hpaths⟩ := hexact.listed
  have hnew : (∃ info ∈ r'.mFileList, info.path = f) ↔
      (∃ info ∈ r.mFileList, info.path = f) ∨ f ∈ paths := by
    simp [hlist, or_and_right, exists_or]
  rw [hnew, hpaths]
  refine or_congr Iff.rfl ⟨?_, ?_⟩
  · rintro ⟨hflag, name, dir, hdir, hname, hfile, rfl, hnotifies⟩
    rw [← StaticScan.filePath_cons] at hnotifies ⊢
    have hp := (scannedFile_iff hroot _).mp ⟨name, dir, hdir, hname, hfile, rfl⟩
    exact ⟨name :: dir, hflag, fileTypeOf_eq_regular.mpr hp.1, hp.2, hnotifies, rfl⟩
  · rintro ⟨p, hflag, hfile, hunhidden, hnotifies, rfl⟩
    obtain ⟨name, dir, hdir, hname, hnode, rfl⟩ :=
      (scannedFile_iff hroot p).mpr ⟨fileTypeOf_eq_regular.mp hfile, hunhidden⟩
    exact ⟨hflag, name, dir, hdir, hname, hnode, StaticScan.filePath_cons name dir, hnotifies⟩

/-- The directories that this service has registered, and its list of files. -/
abbrev SameAsStill (tree : Tree) (root : HostPath) (r : StaticScan.State K) (s : State) : Prop :=
  SameService (fun p => (tree.node p).bind fileTypeOf) root
    (fun p => (r.mWatcher.mPathToWdMap (QString.ofPlace p)).isSome = true) r.mFileList s

/-- **One scan.** Where the kernel adds every watch, both scans of a directory
return, and leave the same behind. -/
theorem addWatchRecursively_same (hservice : SameAsStill tree root r s)
    (h : SameTree (fun p => (tree.node p).bind fileTypeOf) root s)
    (ht : Tended (toStdString root) s) (hroot : tree.node root = some .dir)
    (hr : r.mInitialized = true) (hwatcher : r.mWatcher.mInitialized = true)
    (hadds : AddsWatches sys tree root r.mWatcher.kernel) :
    ∃ r', StaticScan.addWatchRecursively env sys tree r (QString.ofPlace root) shouldNotifyFile =
        some (r', 0) ∧
      SameAsStill tree root r' (addWatchRecursively env s root shouldNotifyFile).1 := by
  have hspells := StaticScan.spells_ofPlace root
  obtain ⟨r', hrun, hexact⟩ : ∃ r', StaticScan.addWatchRecursively env sys tree r
      (QString.ofPlace root) shouldNotifyFile = some (r', 0) ∧
        ScannedExactly env tree shouldNotifyFile root r r' :=
    StaticScan.exact_of_realpath hr hwatcher ((hspells.isPathDir hroot).mpr rfl)
      (hspells.realpath hroot) hroot hadds
  refine ⟨r', hrun, hservice.scan h ht (fileTypeOf_eq_directory.mpr hroot) (fun p _ hp => ?_) ?_⟩
  · exact known_iff hexact hroot (fileTypeOf_eq_directory.mp hp)
  · exact listed_iff hexact hroot

end Still

/-! ## The scan of the watcher thread -/

/-- A tree of directories and files has no other entries. -/
def fileTypeOfNode : FileTree.Node → FileType
  | ⟨.dir, _⟩ => .directory
  | ⟨.file, _⟩ => .regular

section Stepwise
variable {env : Env} {tree : FileSystem} {root p : HostPath} {r : FileInotifyService.State}
  {s : State} {shouldNotifyFile : Bool}

theorem fileTypeOfNode_eq_directory :
    (tree.node p).map fileTypeOfNode = some .directory ↔ tree.isDir p = true := by
  rw [FileTree.Tree.isDir_iff, Option.map_eq_some_iff]
  constructor
  · rintro ⟨⟨kind, i⟩, hnode, htype⟩
    cases kind with
    | dir => exact ⟨i, hnode⟩
    | file => cases htype
  · rintro ⟨i, hnode⟩
    exact ⟨_, hnode, rfl⟩

theorem fileTypeOfNode_eq_regular :
    (tree.node p).map fileTypeOfNode = some .regular ↔ tree.isFile p = true := by
  rw [FileTree.Tree.isFile_iff, Option.map_eq_some_iff]
  constructor
  · rintro ⟨⟨kind, i⟩, hnode, htype⟩
    cases kind with
    | dir => cases htype
    | file => exact ⟨i, hnode⟩
  · rintro ⟨i, hnode⟩
    exact ⟨_, hnode, rfl⟩

/-- An entry has no empty name, so what is not hidden is shown. -/
theorem SameTree.visible_iff (h : SameTree (fun p => (tree.node p).map fileTypeOfNode) root s)
    (hp : tree.node p ≠ none) : FileInotifyService.Visible root p ↔ Unhidden root p := by
  constructor
  · rintro ⟨rel, rfl, hnames⟩
    exact ⟨rel, rfl, fun n hn => (hnames n hn).2⟩
  · rintro ⟨rel, rfl, hnames⟩
    refine ⟨rel, rfl, fun n hn => ⟨?_, hnames n hn⟩⟩
    rintro rfl
    obtain ⟨low, high, rfl⟩ := List.append_of_mem hn
    rw [List.append_assoc, List.cons_append] at hp
    have hnode := FileTree.Tree.ne_none_of_suffix hp (List.suffix_append low _)
    obtain ⟨node, hnode⟩ := Option.ne_none_iff_exists'.mp hnode
    have hlstat := h.lstat _ (List.suffix_append ([] :: high) root)
    rw [List.cons_append, hnode] at hlstat
    have hbelow : toStdString root <:+ toStdString (high ++ root) := by
      rw [toStdString_append]
      exact List.suffix_append _ _
    have hvalid := h.rooted.valid _ _ _ hbelow (mem_files_of_lstat hlstat)
    exact validFileName_ne_nil hvalid rfl

/-- The directories that the watcher thread has registered, and its list of files. -/
abbrev SameAsThread (root : HostPath) (r : FileInotifyService.State) (s : State) : Prop :=
  SameService (fun p => (r.tree.node p).map fileTypeOfNode) root
    (fun p => r.mWatcher.mPathToWdMap p ≠ none) r.mFileList s

/-- **One scan.** Undisturbed, the watcher thread scans a directory to the end,
and leaves the same behind. -/
theorem run_addWatchRecursively_same (hservice : SameAsThread root r s)
    (h : SameTree (fun p => (r.tree.node p).map fileTypeOfNode) root s)
    (ht : Tended (toStdString root) s) (hr : Orderly r) (hroot : r.tree.isDir root = true)
    (hc : r.control = .addWatchRecursively root shouldNotifyFile) :
    ∃ r', Undisturbed env r r' ∧ r'.control = .idle ∧
      SameAsThread root r' (addWatchRecursively env s root shouldNotifyFile).1 := by
  obtain ⟨r', hfound⟩ := addWatchRecursively_undisturbed env hr hc hroot
  refine ⟨r', hfound.reached, hfound.control_eq, ?_⟩
  rw [SameAsThread, hfound.tree_eq]
  refine hservice.scan h ht (fileTypeOfNode_eq_directory.mpr hroot) (fun p _ hdir => ?_) fun f => ?_
  · have hp := fileTypeOfNode_eq_directory.mp hdir
    rw [hfound.registered, FileInotifyService.ScansDir, and_iff_right hp,
      h.visible_iff (FileTree.Tree.isDir_ne_none hp)]
  · rw [hfound.listed]
    refine or_congr Iff.rfl (exists_congr fun p => ?_)
    rw [FileInotifyService.ScansFile, fileTypeOfNode_eq_regular]
    constructor
    · rintro ⟨⟨hflag, hfile, hvisible, hnotifies⟩, hpath⟩
      exact ⟨hflag, hfile, (h.visible_iff (FileTree.Tree.isFile_ne_none hfile)).mp hvisible,
        hnotifies, hpath⟩
    · rintro ⟨hflag, hfile, hunhidden, hnotifies, hpath⟩
      exact ⟨⟨hflag, hfile, (h.visible_iff (FileTree.Tree.isFile_ne_none hfile)).mpr hunhidden,
        hnotifies⟩, hpath⟩

end Stepwise

end KmreManager.FileInotifyService.Discovery
