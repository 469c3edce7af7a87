import KmreManager.FileInotifyService
import KmreManager.QStringUtf8
import Mathlib.Data.List.Find

/-! # Two ways to discover a tree

`addWatchRecursively` scans a tree that is complete, `run` takes its entries
one event at a time. Here the file system has symbolic links, which `lstat`
does not follow, and its names are bytes, of which the service makes a `QString`
and then bytes again. It stands still while a call of the service lasts; entries
are only made, and the kernel has room for every watch. -/
namespace KmreManager.FileInotifyService.Discovery
open KmreManager.Lib KmreManager.FileInotifyWatcher

/-! ## Paths of bytes and paths of characters -/

/-- A path as the kernel has it, the last name first. -/
abbrev RawPath := List FileName

/-- `path.toStdString().c_str()` -/
def toStdString (path : HostPath) : RawPath := path.map QString.toUtf8

/-- The conversion of a `char *` that holds a path, name by name. -/
def ofBytes (path : RawPath) : HostPath := path.map QString.fromUtf8

/-- `"%s/%s"`, of the directory and the name. -/
def rawFilePath : RawPath → FileName
  | [] => [47]
  | [name] => 47 :: 47 :: name
  | name :: dir => (dir.reverse.flatMap fun n => 47 :: n) ++ 47 :: name

/-- The service has a text that leads to the path. -/
def Spelled (path : RawPath) : Prop := toStdString (ofBytes path) = path

section Spelled
variable {p q : RawPath} {name : FileName}

theorem Spelled.nil : Spelled [] := rfl

theorem spelled_cons :
    Spelled (name :: p) ↔ QString.toUtf8 (QString.fromUtf8 name) = name ∧ Spelled p := by
  simp [Spelled, toStdString, ofBytes]

theorem Spelled.ofBytes_inj (hp : Spelled p) (hq : Spelled q) (h : ofBytes p = ofBytes q) :
    p = q :=
  hp.symm.trans ((congrArg toStdString h).trans hq)

theorem ofBytes_toStdString (path : HostPath) : ofBytes (toStdString path) = path := by
  simp [ofBytes, toStdString, Function.comp_def, QString.fromUtf8_toUtf8]

/-- What the conversion makes of the text of a path. -/
theorem fromUtf8_rawFilePath (p : RawPath) :
    QString.fromUtf8 (rawFilePath p) = filePath (ofBytes p) := by
  have hslash : ∀ bytes, QString.fromUtf8 (47 :: bytes) = '/' :: QString.fromUtf8 bytes :=
    QString.fromUtf8_path []
  have hnames : ∀ (names : List FileName) (rest : FileName),
      QString.fromUtf8 ((names.flatMap fun n => 47 :: n) ++ 47 :: rest) =
        ((names.map QString.fromUtf8).flatMap fun n => '/' :: n) ++
          '/' :: QString.fromUtf8 rest := by
    intro names rest
    induction names with
    | nil => exact hslash rest
    | cons n names ih =>
      obtain ⟨more, hmore⟩ : ∃ more,
          (names.flatMap fun m => 47 :: m) ++ 47 :: rest = 47 :: more := by
        cases names <;> exact ⟨_, rfl⟩
      rw [hmore, hslash] at ih
      rw [List.flatMap_cons, List.append_assoc, hmore, List.cons_append, hslash,
        QString.fromUtf8_path, ih]
      simp
  match p with
  | [] => rfl
  | [name] => exact (hslash _).trans (congrArg ('/' :: ·) (hslash name))
  | name :: n :: dir =>
    rw [rawFilePath, hnames, List.map_reverse]
    · rfl
    · simp

end Spelled

/-! ## The kernel -/

/-- What `st_mode & S_IFMT` tells apart. -/
inductive FileType
  | directory
  | regular
  | symlink
  deriving DecidableEq, Repr

/-- A path stands for its directory, as nothing is renamed. The queue holds the
`IN_CREATE` events, each a descriptor and a name. -/
structure Kernel where
  watches : List (RawPath × Int)
  next : Int
  queue : List (Int × FileName)
  deriving DecidableEq, Repr

namespace Kernel
variable (k : Kernel)

def wdOf (path : RawPath) : Option Int :=
  (k.watches.find? fun watch => watch.1 = path).map Prod.snd

/-- A name has been made in `dir`. -/
def notify (dir : RawPath) (name : FileName) : Kernel :=
  match k.wdOf dir with
  | some wd => { k with queue := k.queue ++ [(wd, name)] }
  | none => k

end Kernel

def inotify (lstat : RawPath → Option FileType) : Inotify Kernel HostPath where
  inotify_init1 k := ({ k with watches := [], queue := [] }, 0)
  inotify_add_watch k path _ :=
    let path := toStdString path
    if lstat path = none then (k, -1)
    else
      match k.wdOf path with
      | some wd => (k, wd)
      | none => ({ k with watches := (path, k.next) :: k.watches, next := k.next + 1 }, k.next)
  inotify_rm_watch k wd :=
    ({ k with watches := k.watches.filter fun watch => watch.2 ≠ wd },
      if k.watches.any fun watch => watch.2 = wd then 0 else -1)
  close k := { k with watches := [], queue := [] }

structure State where
  files : List (RawPath × FileType)
  mWatcher : Watcher Kernel HostPath
  mFileList : List NotifyFileInfo

namespace State
variable (s : State)

abbrev kernel : Kernel := s.mWatcher.kernel

def setKernel (kernel : Kernel) : State := { s with mWatcher := { s.mWatcher with kernel } }

def lstat (path : RawPath) : Option FileType :=
  (s.files.find? fun entry => entry.1 = path).map Prod.snd

def isPathFileType (path : RawPath) (fileType : FileType) : Bool := s.lstat path = some fileType

def isPathDir (path : RawPath) : Bool := s.isPathFileType path .directory

def isPathRegularFile (path : RawPath) : Bool := s.isPathFileType path .regular

/-- `isPathDir(path.toStdString().c_str())` -/
def leadsToDir (path : HostPath) : Bool := s.isPathDir (toStdString path)

/-- The names in a directory, without `.` and `..`. -/
def readdir (path : RawPath) : List FileName :=
  s.files.filterMap fun entry =>
    match entry.1 with
    | [] => none
    | name :: dir => if dir = path then some name else none

/-- No path has more names. -/
def depth : Nat := (s.files.map fun entry => entry.1.length).foldr max 0

def addWatchLocked (path : HostPath) : State :=
  { s with mWatcher := (s.mWatcher.addWatch (inotify s.lstat) path watchMask).1 }

end State

section Service
variable (env : Env)

def addNotifyFile (s : State) (path : QString) : State :=
  if env.notifies path then { s with mFileList := s.mFileList ++ [⟨path, -1⟩] } else s

/-- The round of the scan's loop for one name, with the scan it calls. -/
def scanEntry (shouldNotifyFile : Bool) (scan : State → HostPath → State) (resolvedPath : RawPath)
    (s : State) (d_name : FileName) : State :=
  if d_name = [] ∨ d_name.head? = some 46 then s
  else if s.isPathRegularFile (d_name :: resolvedPath) && shouldNotifyFile then
    addNotifyFile env s (QString.fromUtf8 (rawFilePath (d_name :: resolvedPath)))
  else if s.isPathDir (d_name :: resolvedPath) then scan s (ofBytes (d_name :: resolvedPath))
  else s

/-- The scan is given the number of levels it may go down. Its path leads to a
directory, so `realpath` changes nothing in it. -/
def watchAndNotifyDirectoryRecursivelyLocked (shouldNotifyFile : Bool) :
    Nat → State → HostPath → State
  | 0, s, _ => s
  | levels + 1, s, path =>
    let resolvedPath := toStdString path
    if s.lstat resolvedPath = none then s
    else
      let s := s.addWatchLocked (ofBytes resolvedPath)
      if s.isPathDir resolvedPath then
        (s.readdir resolvedPath).foldl (scanEntry env shouldNotifyFile
          (watchAndNotifyDirectoryRecursivelyLocked shouldNotifyFile levels) resolvedPath) s
      else s

def addWatchRecursively (s : State) (path : HostPath) (shouldNotifyFile : Bool) : State × Int :=
  if !s.mWatcher.mInitialized then (s, -1)
  else if !s.leadsToDir path then (s, -1)
  else (watchAndNotifyDirectoryRecursivelyLocked env shouldNotifyFile (s.depth + 1) s path, 0)

/-- What `run` does with the event `IN_CREATE` for `name`. -/
def handleCreate (s : State) (wd : Int) (name : FileName) : State :=
  if name = [] then s
  else
    match s.mWatcher.watchedPathFromWd s.leadsToDir wd with
    | none => s
    | some pathName =>
      let newPath := QString.fromName name :: pathName
      if s.isPathDir (toStdString newPath) then (addWatchRecursively env s newPath true).1
      else if s.isPathRegularFile (toStdString newPath) then
        addNotifyFile env s (filePath newPath)
      else s

end Service

/-! ## Steps -/

/-- The names a directory entry can have. -/
def validFileName (name : FileName) : Bool :=
  name ≠ [] ∧ name ≠ [46] ∧ name ≠ [46, 46] ∧ 47 ∉ name ∧ 0 ∉ name

theorem validFileName_ne_nil {name : FileName} (h : validFileName name = true) : name ≠ [] := by
  rintro rfl
  simp [validFileName] at h

/-- `mkdir`, `open` or `symlink` makes an entry. -/
def make (s : State) (entry : RawPath × FileType) : Option State :=
  match entry.1 with
  | [] => none
  | name :: dir =>
    if validFileName name ∧ s.lstat (name :: dir) = none ∧ s.isPathDir dir then
      some { s.setKernel (s.kernel.notify dir name) with files := entry :: s.files }
    else none

/-- An entry is made in a directory that is watched, or `run` takes the next
event. -/
inductive Action
  | make (entry : RawPath × FileType)
  | handle
  deriving DecidableEq, Repr

def step (env : Env) (s : State) : Action → Option State
  | .make entry => if (s.kernel.wdOf entry.1.tail).isSome then make s entry else none
  | .handle =>
    match s.mWatcher.mInitialized, s.kernel.queue with
    | false, _ | true, [] => none
    | true, (wd, name) :: queue =>
      some (handleCreate env (s.setKernel { s.kernel with queue }) wd name)

theorem make_cases {s s' : State} {entry : RawPath × FileType} (h : make s entry = some s') :
    ∃ name dir, entry.1 = name :: dir ∧ validFileName name = true ∧ s.lstat (name :: dir) = none ∧
      s.isPathDir dir = true ∧
      s' = { s.setKernel (s.kernel.notify dir name) with files := entry :: s.files } := by
  unfold make at h
  split at h
  · cases h
  · rename_i name dir hpath
    split at h
    · rename_i hpre
      exact ⟨name, dir, hpath, hpre.1, hpre.2.1, hpre.2.2, (Option.some.inj h).symm⟩
    · cases h

theorem step_handle {env : Env} {s s' : State} (h : step env s .handle = some s') :
    ∃ wd name queue, s.kernel.queue = (wd, name) :: queue ∧
      s' = handleCreate env (s.setKernel { s.kernel with queue }) wd name := by
  simp only [step] at h
  split at h
  · cases h
  · cases h
  · rename_i wd name queue _ hqueue
    exact ⟨wd, name, queue, hqueue, (Option.some.inj h).symm⟩

/-! ## The tree below the root -/

/-- The entries at and below `root` are a tree of directories, files and links,
whose names come back from the service. -/
structure Rooted (root : RawPath) (s : State) : Prop where
  unique : ∀ p t, root <:+ p → ((p, t) ∈ s.files ↔ s.lstat p = some t)
  closed : ∀ name p t, root <:+ p → (name :: p, t) ∈ s.files → s.lstat p = some .directory
  valid : ∀ name p t, root <:+ p → (name :: p, t) ∈ s.files → validFileName name = true
  spelled : ∀ p t, root <:+ p → (p, t) ∈ s.files → Spelled p
  parent : Spelled root.tail

section Tree
variable {root path p : RawPath} {s : State} {name : FileName} {t : FileType}

theorem isPathDir_iff : s.isPathDir p = true ↔ s.lstat p = some .directory := by
  simp [State.isPathDir, State.isPathFileType]

theorem isPathRegularFile_iff : s.isPathRegularFile p = true ↔ s.lstat p = some .regular := by
  simp [State.isPathRegularFile, State.isPathFileType]

theorem mem_files_of_lstat (h : s.lstat p = some t) : (p, t) ∈ s.files := by
  obtain ⟨entry, hfind, rfl⟩ := Option.map_eq_some_iff.mp h
  have hmem := List.mem_of_find?_eq_some hfind
  have hpath : entry.1 = p := by simpa using List.find?_some hfind
  rw [← hpath]
  exact hmem

theorem lstat_eq_none_iff : s.lstat p = none ↔ ∀ t, (p, t) ∉ s.files := by
  simp only [State.lstat, Option.map_eq_none_iff, List.find?_eq_none, decide_eq_true_eq]
  exact ⟨fun h t hmem => h (p, t) hmem rfl, fun h entry hmem hp => h entry.2 (hp ▸ hmem)⟩

theorem mem_readdir : name ∈ s.readdir path ↔ ∃ t, (name :: path, t) ∈ s.files := by
  simp only [State.readdir, List.mem_filterMap]
  constructor
  · rintro ⟨⟨p, t⟩, hmem, hname⟩
    cases p with
    | nil => cases hname
    | cons n dir =>
      simp only at hname
      split at hname
      · rename_i hdir
        cases hname
        exact ⟨t, hdir ▸ hmem⟩
      · cases hname
  · rintro ⟨t, hmem⟩
    exact ⟨_, hmem, by simp⟩

theorem length_le_depth (h : (p, t) ∈ s.files) : p.length ≤ s.depth := by
  unfold State.depth
  generalize s.files = files at h
  induction files with
  | nil => cases h
  | cons entry files ih =>
    simp only [List.map_cons, List.foldr_cons]
    cases List.mem_cons.mp h with
    | inl heq => rw [← heq]; exact Nat.le_max_left _ _
    | inr hmem => exact (ih hmem).trans (Nat.le_max_right _ _)

/-- What leads from a directory down to an entry are directories. -/
theorem Rooted.isPathDir_of_append (h : Rooted root s) (hroot : root <:+ path)
    {rel : RawPath} {t : FileType} (hne : rel ≠ [])
    (hp : s.lstat (rel ++ path) = some t) : s.isPathDir path = true := by
  induction rel generalizing t with
  | nil => exact absurd rfl hne
  | cons n rel ih =>
    have hdir := h.closed n (rel ++ path) t (hroot.trans (List.suffix_append rel path))
      (mem_files_of_lstat hp)
    by_cases hrel : rel = []
    · rw [hrel] at hdir
      exact isPathDir_iff.mpr hdir
    · exact ih hrel hdir

theorem Rooted.spelled_of_dir (h : Rooted root s) (hroot : root <:+ p)
    (hdir : s.isPathDir p = true) : Spelled p :=
  h.spelled p _ hroot (mem_files_of_lstat (isPathDir_iff.mp hdir))

end Tree

/-! ## What the service knows of the tree -/

/-- The tables agree on the paths at and below `root`, and a descriptor of one
of these, or of the directory that holds the tree, leads back to its path. -/
structure Tended (root : RawPath) (s : State) : Prop where
  initialized : s.mWatcher.mInitialized = true
  next_nonneg : 0 ≤ s.kernel.next
  watch_lt : ∀ p wd, (p, wd) ∈ s.kernel.watches → wd < s.kernel.next
  value_lt : ∀ p wd, (wd, p) ∈ s.mWatcher.mWdToPathMap → wd < s.kernel.next
  map_eq : ∀ p, root <:+ p → Spelled p →
    s.mWatcher.mPathToWdMap (ofBytes p) = s.kernel.wdOf p
  value_watched : ∀ p wd, (wd, ofBytes p) ∈ s.mWatcher.mWdToPathMap → root <:+ p → Spelled p →
    s.kernel.wdOf p = some wd
  watched_dir : ∀ p, root <:+ p → (s.kernel.wdOf p).isSome → s.isPathDir p = true
  named : ∀ p wd, p = root.tail ∨ root <:+ p → s.kernel.wdOf p = some wd →
    s.mWatcher.watchedPathFromWd s.leadsToDir wd = some (ofBytes p)

/-- `s'` is `s` after the service has added watches on `dirs` and told of `files`. -/
structure Adds (root : RawPath) (s s' : State) (dirs files : RawPath → Prop) : Prop where
  tended : Tended root s'
  files_eq : s'.files = s.files
  queue_eq : s'.kernel.queue = s.kernel.queue
  kept : ∀ p wd, s.kernel.wdOf p = some wd → s'.kernel.wdOf p = some wd
  watched : ∀ p, (s'.kernel.wdOf p).isSome ↔ (s.kernel.wdOf p).isSome ∨ dirs p
  listed : ∀ f, (∃ info ∈ s'.mFileList, info.path = f) ↔
    (∃ info ∈ s.mFileList, info.path = f) ∨ ∃ p, files p ∧ filePath (ofBytes p) = f

namespace Adds
variable {root : RawPath} {s t u : State} {dirs dirs' files files' : RawPath → Prop}

theorem none (h : Tended root s) : Adds root s s (fun _ => False) (fun _ => False) :=
  ⟨h, rfl, rfl, fun _ _ hp => hp, by simp, by simp⟩

theorem trans (h : Adds root s t dirs files) (h' : Adds root t u dirs' files') :
    Adds root s u (fun p => dirs p ∨ dirs' p) (fun p => files p ∨ files' p) where
  tended := h'.tended
  files_eq := h'.files_eq.trans h.files_eq
  queue_eq := h'.queue_eq.trans h.queue_eq
  kept p wd hp := h'.kept p wd (h.kept p wd hp)
  watched p := by rw [h'.watched, h.watched, or_assoc]
  listed f := by
    rw [h'.listed, h.listed, or_assoc]
    simp only [or_and_right, exists_or]

theorem congr (h : Adds root s t dirs files) (hdirs : ∀ p, dirs p ↔ dirs' p)
    (hfiles : ∀ p, files p ↔ files' p) : Adds root s t dirs' files' := by
  obtain rfl : dirs = dirs' := funext fun p => propext (hdirs p)
  obtain rfl : files = files' := funext fun p => propext (hfiles p)
  exact h

/-- A loop adds what its rounds add. -/
theorem foldl {α : Type} {f : State → α → State} {D F : α → RawPath → Prop}
    {as : List α} (hs : Tended root s)
    (hround : ∀ a ∈ as, ∀ t, Tended root t → t.files = s.files →
      Adds root t (f t a) (D a) (F a)) :
    Adds root s (as.foldl f s) (fun p => ∃ a ∈ as, D a p) (fun p => ∃ a ∈ as, F a p) := by
  induction as generalizing s with
  | nil => exact (none hs).congr (by simp) (by simp)
  | cons a as ih =>
    have hfirst := hround a List.mem_cons_self s hs rfl
    have hrest := ih hfirst.tended fun b hb t ht hfiles =>
      hround b (List.mem_cons_of_mem a hb) t ht (hfiles.trans hfirst.files_eq)
    exact (hfirst.trans hrest).congr (by simp) (by simp)

end Adds

section Tended
variable {root path : RawPath} {s : State}

theorem Tended.addNotifyFile (h : Tended root s) (env : Env) (p : RawPath) :
    Adds root s (addNotifyFile env s (filePath (ofBytes p))) (fun _ => False)
      (fun q => q = p ∧ env.notifies (filePath (ofBytes p)) = true) := by
  unfold Discovery.addNotifyFile
  split
  · rename_i hnotifies
    refine ⟨⟨h.1, h.2, h.3, h.4, h.5, h.6, h.7, h.8⟩, rfl, rfl, fun _ _ hp => hp,
      by simp, fun f => ?_⟩
    simp [or_and_right, exists_or, hnotifies]
  · rename_i hnotifies
    exact (Adds.none h).congr (by simp) (by simp [hnotifies])

/-- `s` with a new watch on `path`. -/
def State.withWatch (s : State) (path : RawPath) : State :=
  { s with mWatcher := { s.mWatcher with
      kernel := { s.kernel with
        watches := (path, s.kernel.next) :: s.kernel.watches, next := s.kernel.next + 1 }
      mWdToPathMap := (s.kernel.next, ofBytes path) :: s.mWatcher.mWdToPathMap
      mPathToWdMap := Function.update s.mWatcher.mPathToWdMap (ofBytes path)
        (some s.kernel.next) } }

theorem wdOf_withWatch (p : RawPath) : (s.withWatch path).kernel.wdOf p =
    if path = p then some s.kernel.next else s.kernel.wdOf p := by
  simp only [State.withWatch, State.kernel, Kernel.wdOf, List.find?_cons]
  by_cases hp : path = p <;> simp [hp]

theorem mem_watches_of_wdOf {wd : Int} (h : s.kernel.wdOf path = some wd) :
    (path, wd) ∈ s.kernel.watches := by
  obtain ⟨watch, hfind, rfl⟩ := Option.map_eq_some_iff.mp h
  have hpath : watch.1 = path := by simpa using List.find?_some hfind
  rw [← hpath]
  exact List.mem_of_find?_eq_some hfind

/-- No path stands for the next descriptor yet. -/
theorem Tended.values_next (h : Tended root s) :
    s.mWatcher.mWdToPathMap.values s.kernel.next = [] := by
  rw [List.eq_nil_iff_forall_not_mem]
  intro p hp
  exact absurd (h.value_lt p _ (Multimap.mem_values.mp hp)) (Int.lt_irrefl _)

theorem Tended.withWatch (h : Tended root s) (hspelled : Spelled path)
    (hdir : s.isPathDir path = true) (hnone : s.kernel.wdOf path = none) :
    Tended root (s.withWatch path) where
  initialized := h.initialized
  next_nonneg := Int.le_add_one h.next_nonneg
  watch_lt p wd hmem := by
    cases List.mem_cons.mp hmem with
    | inl heq => cases heq; exact Int.lt_succ _
    | inr hmem => exact Int.lt_trans (h.watch_lt p wd hmem) (Int.lt_succ _)
  value_lt p wd hmem := by
    cases List.mem_cons.mp hmem with
    | inl heq => cases heq; exact Int.lt_succ _
    | inr hmem => exact Int.lt_trans (h.value_lt p wd hmem) (Int.lt_succ _)
  map_eq p hp hps := by
    rw [wdOf_withWatch, ← h.map_eq p hp hps]
    by_cases heq : path = p
    · simp [State.withWatch, heq]
    · have hne : ofBytes p ≠ ofBytes path := fun hsame => heq (hspelled.ofBytes_inj hps hsame.symm)
      simp [State.withWatch, heq, Function.update_of_ne hne]
  value_watched p wd hmem hp hps := by
    rw [wdOf_withWatch]
    cases List.mem_cons.mp hmem with
    | inl heq =>
      obtain ⟨rfl, hsame⟩ := Prod.mk.inj heq
      rw [if_pos (hspelled.ofBytes_inj hps hsame.symm)]
    | inr hmem =>
      have hwatched := h.value_watched p wd hmem hp hps
      have hne : path ≠ p := fun heq => by rw [heq, hwatched] at hnone; cases hnone
      rw [if_neg hne, hwatched]
  watched_dir p hp hwatched := by
    by_cases heq : path = p
    · exact heq ▸ hdir
    · rw [wdOf_withWatch, if_neg heq] at hwatched
      exact h.watched_dir p hp hwatched
  named p wd hp hwd := by
    rw [wdOf_withWatch] at hwd
    simp only [Watcher.watchedPathFromWd, State.withWatch, h.initialized, Multimap.values_cons]
    by_cases heq : path = p
    · obtain rfl : s.kernel.next = wd := by simpa [heq] using hwd
      have hleads : ∀ w, State.leadsToDir { s with mWatcher := w } (ofBytes path) = true := by
        intro w
        rw [State.leadsToDir, hspelled]
        exact hdir
      rw [if_pos rfl, h.values_next, ← heq]
      simp [h.next_nonneg, hleads]
    · rw [if_neg heq] at hwd
      have hne : s.kernel.next ≠ wd :=
        (Int.ne_of_lt (h.watch_lt p wd (mem_watches_of_wdOf hwd))).symm
      have hnamed := h.named p wd hp hwd
      simp only [Watcher.watchedPathFromWd, h.initialized] at hnamed
      rw [if_neg hne]
      exact hnamed

/-- A path that has a watch is left alone. -/
theorem Tended.addWatchLocked (h : Tended root s) (hpath : root <:+ path)
    (hspelled : Spelled path) (hdir : s.isPathDir path = true) :
    Adds root s (s.addWatchLocked (ofBytes path)) (fun p => p = path) (fun _ => False) := by
  have hmap := h.map_eq path hpath hspelled
  cases hwd : s.kernel.wdOf path with
  | some wd =>
    have hsame : s.addWatchLocked (ofBytes path) = s := by
      simp [State.addWatchLocked, Watcher.addWatch, h.initialized, hmap, hwd]
    rw [hsame]
    refine ⟨h, rfl, rfl, fun _ _ hp => hp, fun p => ?_, by simp⟩
    exact ⟨Or.inl, fun hp => hp.elim id fun heq => by rw [heq, hwd]; rfl⟩
  | none =>
    have hlstat := isPathDir_iff.mp hdir
    have hnew : s.addWatchLocked (ofBytes path) = s.withWatch path := by
      have hback : toStdString (ofBytes path) = path := hspelled
      simp [State.addWatchLocked, Watcher.addWatch, h.initialized, hmap, hwd, inotify, hback,
        hlstat, Int.not_lt.mpr h.next_nonneg, State.withWatch]
    rw [hnew]
    refine ⟨h.withWatch hspelled hdir hwd, rfl, rfl, fun p wd hp => ?_, fun p => ?_,
      by simp [State.withWatch]⟩
    · rw [wdOf_withWatch, if_neg, hp]
      rintro rfl
      rw [hwd] at hp
      cases hp
    · rw [wdOf_withWatch]
      by_cases heq : path = p
      · simp [heq]
      · simp [heq, Ne.symm heq]

end Tended

/-! ## The scan -/

/-- No name from `path` down to `p` starts with a dot. -/
def Visible (path p : RawPath) : Prop :=
  ∃ rel, p = rel ++ path ∧ ∀ name ∈ rel, name.head? ≠ some 46

theorem visible_iff {path p : RawPath} : Visible path p ↔
    p = path ∨ ∃ name : FileName, name.head? ≠ some 46 ∧ Visible (name :: path) p :=
  FileTree.exists_below_iff

section Scan
variable (env : Env) (shouldNotifyFile : Bool)

/-- The directories a scan of `path` watches. -/
def ScansDir (s : State) (levels : Nat) (path p : RawPath) : Prop :=
  s.isPathDir p = true ∧ Visible path p ∧ p.length < path.length + levels

/-- The files a scan of `path` tells of. -/
def ScansFile (s : State) (levels : Nat) (path p : RawPath) : Prop :=
  shouldNotifyFile = true ∧ s.isPathRegularFile p = true ∧
    env.notifies (filePath (ofBytes p)) = true ∧ Visible path p ∧ p.length ≤ path.length + levels

variable {root path p : RawPath} {s t : State}

theorem lstat_congr (h : t.files = s.files) : t.lstat = s.lstat := by
  funext p
  simp only [State.lstat, h]

theorem Rooted.congr (hr : Rooted root s) (h : t.files = s.files) : Rooted root t := by
  obtain ⟨hunique, hclosed, hvalid, hspelled, hparent⟩ := hr
  rw [← h] at hunique hclosed hvalid hspelled
  rw [← lstat_congr h] at hunique hclosed
  exact ⟨hunique, hclosed, hvalid, hspelled, hparent⟩

theorem Visible.length_le (h : Visible path p) : path.length ≤ p.length := by
  obtain ⟨rel, rfl, _⟩ := h
  simp

/-- The entry of `path` on the way to `p` is a directory, or `p` itself. -/
theorem Rooted.dir_or_eq (hr : Rooted root s) (hroot : root <:+ path) {name : FileName}
    {t : FileType} (hvis : Visible (name :: path) p) (hp : s.lstat p = some t) :
    p = name :: path ∨ s.isPathDir (name :: path) = true := by
  obtain ⟨rel, rfl, _⟩ := hvis
  by_cases hrel : rel = []
  · exact Or.inl (by simp [hrel])
  · exact Or.inr (hr.isPathDir_of_append (hroot.trans (List.suffix_cons name path)) hrel hp)

theorem not_regular_of_dir (h : s.isPathDir p = true) : ¬ s.isPathRegularFile p = true := by
  rw [isPathDir_iff] at h
  rw [isPathRegularFile_iff, h]
  simp

theorem mem_readdir_of_lstat {name : FileName} {t : FileType}
    (h : s.lstat (name :: path) = some t) : name ∈ s.readdir path :=
  mem_readdir.mpr ⟨t, mem_files_of_lstat h⟩

theorem scansDir_succ (hr : Rooted root s) (hroot : root <:+ path)
    (hdir : s.isPathDir path = true) (levels : Nat) : ScansDir s (levels + 1) path p ↔
      p = path ∨ ∃ name ∈ s.readdir path, name.head? ≠ some 46 ∧
        s.isPathDir (name :: path) = true ∧ ScansDir s levels (name :: path) p := by
  unfold ScansDir
  rw [visible_iff]
  constructor
  · rintro ⟨hp, rfl | ⟨name, hname, hvis⟩, hlen⟩
    · exact Or.inl rfl
    · have hsub : s.isPathDir (name :: path) = true :=
        (hr.dir_or_eq hroot hvis (isPathDir_iff.mp hp)).elim (fun heq => heq ▸ hp) id
      refine Or.inr ⟨name, mem_readdir_of_lstat (isPathDir_iff.mp hsub), hname, hsub, hp, hvis, ?_⟩
      rw [List.length_cons]
      omega
  · rintro (rfl | ⟨name, _, hname, _, hp, hvis, hlen⟩)
    · exact ⟨hdir, Or.inl rfl, by omega⟩
    · rw [List.length_cons] at hlen
      exact ⟨hp, Or.inr ⟨name, hname, hvis⟩, by omega⟩

/-- The files of which the round of the loop for `name` tells. -/
def EntryFile (s : State) (levels : Nat) (path : RawPath) (name : FileName) (p : RawPath) : Prop :=
  name.head? ≠ some 46 ∧
    (shouldNotifyFile = true ∧ s.isPathRegularFile (name :: path) = true ∧
        p = name :: path ∧ env.notifies (filePath (ofBytes (name :: path))) = true ∨
      s.isPathDir (name :: path) = true ∧
        ScansFile env shouldNotifyFile s levels (name :: path) p)

theorem scansFile_succ (hr : Rooted root s) (hroot : root <:+ path)
    (hdir : s.isPathDir path = true) (levels : Nat) :
    ScansFile env shouldNotifyFile s (levels + 1) path p ↔
      ∃ name ∈ s.readdir path, EntryFile env shouldNotifyFile s levels path name p := by
  unfold EntryFile ScansFile
  rw [visible_iff]
  constructor
  · rintro ⟨hflag, hp, hnotifies, rfl | ⟨name, hname, hvis⟩, hlen⟩
    · exact absurd hp (not_regular_of_dir hdir)
    · have hlstat := isPathRegularFile_iff.mp hp
      rcases hr.dir_or_eq hroot hvis hlstat with rfl | hsub
      · exact ⟨name, mem_readdir_of_lstat hlstat, hname, Or.inl ⟨hflag, hp, rfl, hnotifies⟩⟩
      · refine ⟨name, mem_readdir_of_lstat (isPathDir_iff.mp hsub), hname,
          Or.inr ⟨hsub, hflag, hp, hnotifies, hvis, ?_⟩⟩
        rw [List.length_cons]
        omega
  · rintro ⟨name, _, hname, ⟨hflag, hp, rfl, hnotifies⟩ | ⟨_, hflag, hp, hnotifies, hvis, hlen⟩⟩
    · refine ⟨hflag, hp, hnotifies, Or.inr ⟨name, hname, visible_iff.mpr (Or.inl rfl)⟩, ?_⟩
      rw [List.length_cons]
      omega
    · rw [List.length_cons] at hlen
      exact ⟨hflag, hp, hnotifies, Or.inr ⟨name, hname, hvis⟩, by omega⟩

/-- One round of the loop, with a scan that is known to keep its promise one
level down. -/
theorem Tended.scanEntry (h : Tended root s) (hr : Rooted root s) (hroot : root <:+ path)
    {levels : Nat} {scan : State → HostPath → State} {name : FileName}
    (hscan : ∀ p, root <:+ p → s.isPathDir p = true →
      Adds root s (scan s (ofBytes p)) (ScansDir s levels p)
        (ScansFile env shouldNotifyFile s levels p))
    (hname : name ∈ s.readdir path) :
    Adds root s (scanEntry env shouldNotifyFile scan path s name)
      (fun p => name.head? ≠ some 46 ∧ s.isPathDir (name :: path) = true ∧
        ScansDir s levels (name :: path) p)
      (EntryFile env shouldNotifyFile s levels path name) := by
  unfold Discovery.scanEntry EntryFile
  obtain ⟨t, hmem⟩ := mem_readdir.mp hname
  have hnil : name ≠ [] := validFileName_ne_nil (hr.valid name path t hroot hmem)
  by_cases hdot : name.head? = some 46
  · rw [if_pos (Or.inr hdot)]
    exact (Adds.none h).congr (by simp [hdot]) (by simp [hdot])
  · rw [if_neg (by simp [hnil, hdot])]
    by_cases hreg : s.isPathRegularFile (name :: path) = true
    · have hnot : ¬ s.isPathDir (name :: path) = true := fun hd => not_regular_of_dir hd hreg
      by_cases hflag : shouldNotifyFile = true
      · rw [if_pos (by simp [hreg, hflag]), fromUtf8_rawFilePath]
        exact (h.addNotifyFile env (name :: path)).congr (by simp [hnot])
          (by simp [hdot, hflag, hreg, hnot])
      · rw [if_neg (by simp [hflag]), if_neg hnot]
        exact (Adds.none h).congr (by simp [hnot]) (by simp [hflag, hnot])
    · rw [if_neg (by simp [hreg])]
      by_cases hdir : s.isPathDir (name :: path) = true
      · rw [if_pos hdir]
        exact (hscan _ (hroot.trans (List.suffix_cons name path)) hdir).congr
          (by simp [hdot, hdir]) (by simp [hdot, hdir, hreg])
      · rw [if_neg hdir]
        exact (Adds.none h).congr (by simp [hdir]) (by simp [hdir, hreg])

theorem readdir_congr (h : t.files = s.files) : t.readdir = s.readdir := by
  funext p
  simp only [State.readdir, h]

theorem isPathDir_congr (h : t.files = s.files) : t.isPathDir = s.isPathDir := by
  funext p
  simp only [State.isPathDir, State.isPathFileType, lstat_congr h]

theorem isPathRegularFile_congr (h : t.files = s.files) :
    t.isPathRegularFile = s.isPathRegularFile := by
  funext p
  simp only [State.isPathRegularFile, State.isPathFileType, lstat_congr h]

theorem scansDir_congr (h : t.files = s.files) : ScansDir t = ScansDir s := by
  funext levels path p
  simp only [ScansDir, isPathDir_congr h]

theorem scansFile_congr (h : t.files = s.files) :
    ScansFile env shouldNotifyFile t = ScansFile env shouldNotifyFile s := by
  funext levels path p
  simp only [ScansFile, isPathRegularFile_congr h]

theorem entryFile_congr (h : t.files = s.files) :
    EntryFile env shouldNotifyFile t = EntryFile env shouldNotifyFile s := by
  funext levels path name p
  simp only [EntryFile, isPathRegularFile_congr h, isPathDir_congr h, scansFile_congr _ _ h]

/-- A scan watches the visible directories and tells of the visible files. -/
theorem Tended.scan (h : Tended root s) (hr : Rooted root s) (hroot : root <:+ path)
    (hdir : s.isPathDir path = true) (levels : Nat) :
    Adds root s
      (watchAndNotifyDirectoryRecursivelyLocked env shouldNotifyFile levels s (ofBytes path))
      (ScansDir s levels path) (ScansFile env shouldNotifyFile s levels path) := by
  induction levels generalizing s path with
  | zero =>
    refine (Adds.none h).congr (fun p => ?_) (fun p => ?_)
    · refine ⟨False.elim, fun ⟨_, hvis, hlen⟩ => ?_⟩
      exact absurd hvis.length_le (by omega)
    · refine ⟨False.elim, fun ⟨_, hreg, _, ⟨rel, hrel, _⟩, hlen⟩ => ?_⟩
      rw [hrel, List.length_append] at hlen
      obtain rfl : rel = [] := List.eq_nil_of_length_eq_zero (by omega)
      exact not_regular_of_dir hdir (by simpa [hrel] using hreg)
  | succ levels ih =>
    have hspelled := hr.spelled_of_dir hroot hdir
    have hback : toStdString (ofBytes path) = path := hspelled
    have hwatch := h.addWatchLocked hroot hspelled hdir
    have hfiles := hwatch.files_eq
    have hloop : Adds root (s.addWatchLocked (ofBytes path))
        (((s.addWatchLocked (ofBytes path)).readdir path).foldl
          (Discovery.scanEntry env shouldNotifyFile
            (watchAndNotifyDirectoryRecursivelyLocked env shouldNotifyFile levels) path)
          (s.addWatchLocked (ofBytes path)))
        (fun p => ∃ name ∈ s.readdir path, name.head? ≠ some 46 ∧
          s.isPathDir (name :: path) = true ∧ ScansDir s levels (name :: path) p)
        (fun p => ∃ name ∈ s.readdir path,
          EntryFile env shouldNotifyFile s levels path name p) := by
      rw [readdir_congr hfiles]
      refine Adds.foldl hwatch.tended fun name hname t ht hsame => ?_
      have hst := hsame.trans hfiles
      have hround := ht.scanEntry env shouldNotifyFile (hr.congr hst) hroot
        (fun p hp hpdir => ih ht (hr.congr hst) hp hpdir) (readdir_congr hst ▸ hname)
      rw [isPathDir_congr hst, scansDir_congr hst, entryFile_congr _ _ hst] at hround
      exact hround
    have hlstat := isPathDir_iff.mp hdir
    simp only [watchAndNotifyDirectoryRecursivelyLocked, hback, hlstat]
    rw [if_neg (by simp), if_pos (by rw [isPathDir_congr hfiles, hdir])]
    refine (hwatch.trans hloop).congr (fun p => ?_) (fun p => ?_)
    · rw [scansDir_succ hr hroot hdir]
    · rw [scansFile_succ env shouldNotifyFile hr hroot hdir, false_or]

/-- So does `addWatchRecursively` for a directory of the tree. -/
theorem Tended.addWatchRecursively (h : Tended root s) (hr : Rooted root s) (hroot : root <:+ path)
    (hdir : s.isPathDir path = true) :
    Adds root s (addWatchRecursively env s (ofBytes path) shouldNotifyFile).1
      (ScansDir s (s.depth + 1) path) (ScansFile env shouldNotifyFile s (s.depth + 1) path) := by
  have hback : toStdString (ofBytes path) = path := hr.spelled_of_dir hroot hdir
  simp only [Discovery.addWatchRecursively, h.initialized, State.leadsToDir, hback, hdir]
  exact h.scan env shouldNotifyFile hr hroot hdir (s.depth + 1)

end Scan

/-! ## Making an entry -/

section Make
variable {root : RawPath} {s s' : State} {entry : RawPath × FileType}

theorem files_make (h : make s entry = some s') : s'.files = entry :: s.files := by
  obtain ⟨_, _, _, _, _, _, rfl⟩ := make_cases h
  rfl

theorem mFileList_make (h : make s entry = some s') : s'.mFileList = s.mFileList := by
  obtain ⟨_, _, _, _, _, _, rfl⟩ := make_cases h
  rfl

theorem free_of_make (h : make s entry = some s') : s.lstat entry.1 = none := by
  obtain ⟨_, _, hpath, _, hfree, _, _⟩ := make_cases h
  rw [hpath]
  exact hfree

theorem watches_notify (k : Kernel) (dir : RawPath) (name : FileName) :
    (k.notify dir name).watches = k.watches := by
  unfold Kernel.notify
  split <;> rfl

theorem wdOf_notify (k : Kernel) (dir : RawPath) (name : FileName) (p : RawPath) :
    (k.notify dir name).wdOf p = k.wdOf p := by
  simp only [Kernel.wdOf, watches_notify]

theorem next_notify (k : Kernel) (dir : RawPath) (name : FileName) :
    (k.notify dir name).next = k.next := by
  unfold Kernel.notify
  split <;> rfl

theorem wdOf_make (h : make s entry = some s') (p : RawPath) :
    s'.kernel.wdOf p = s.kernel.wdOf p := by
  obtain ⟨_, _, _, _, _, _, rfl⟩ := make_cases h
  exact wdOf_notify ..

theorem lstat_make (h : make s entry = some s') (p : RawPath) :
    s'.lstat p = if entry.1 = p then some entry.2 else s.lstat p := by
  simp only [State.lstat, files_make h, List.find?_cons]
  by_cases hp : entry.1 = p <;> simp [hp]

theorem lstat_make_of_some (h : make s entry = some s') {p : RawPath} {t : FileType}
    (hp : s.lstat p = some t) : s'.lstat p = some t := by
  have hne : entry.1 ≠ p := by
    rintro rfl
    rw [free_of_make h] at hp
    cases hp
  rw [lstat_make h, if_neg hne, hp]

/-- What holds an entry of the tree: one of its directories, or the one around it. -/
theorem tail_or_below {name : FileName} {dir : RawPath} (h : root <:+ name :: dir) :
    dir = root.tail ∨ root <:+ dir := by
  rcases List.suffix_cons_iff.mp h with rfl | h
  · exact Or.inl rfl
  · exact Or.inr h

theorem Rooted.spelled_make (hr : Rooted root s) (hroot : root <:+ entry.1)
    (hname : ∀ name ∈ entry.1.head?, QString.ComesBack name) (h : make s entry = some s') :
    Spelled entry.1 := by
  obtain ⟨name, dir, hpath, _, _, hdir, _⟩ := make_cases h
  rw [hpath] at hroot hname ⊢
  refine spelled_cons.mpr ⟨(hname name rfl).1, ?_⟩
  rcases tail_or_below hroot with rfl | hbelow
  · exact hr.parent
  · exact hr.spelled_of_dir hbelow hdir

theorem Rooted.make (hr : Rooted root s) (hspelled : Spelled entry.1)
    (h : make s entry = some s') : Rooted root s' := by
  obtain ⟨name, dir, hpath, hvalid, hfree, hdir, _⟩ := make_cases h
  obtain ⟨p₀, t₀⟩ := entry
  obtain rfl : p₀ = name :: dir := hpath
  refine ⟨fun p t hp => ?_, fun n p t hp hmem => ?_, fun n p t hp hmem => ?_,
    fun p t hp hmem => ?_, hr.parent⟩
  · rw [files_make h, lstat_make h, List.mem_cons, Prod.mk.injEq]
    by_cases heq : name :: dir = p
    · obtain rfl := heq
      have hnot : (name :: dir, t) ∉ s.files := lstat_eq_none_iff.mp hfree t
      simp [hnot, eq_comm]
    · simp [heq, Ne.symm heq, hr.unique p t hp]
  · rw [files_make h, List.mem_cons] at hmem
    refine lstat_make_of_some h (hmem.elim (fun heq => ?_) (hr.closed n p t hp))
    obtain ⟨⟨rfl, rfl⟩, rfl⟩ := by simpa using heq
    exact isPathDir_iff.mp hdir
  · rw [files_make h, List.mem_cons] at hmem
    refine hmem.elim (fun heq => ?_) (hr.valid n p t hp)
    obtain ⟨⟨rfl, rfl⟩, rfl⟩ := by simpa using heq
    exact hvalid
  · rw [files_make h, List.mem_cons] at hmem
    refine hmem.elim (fun heq => ?_) (hr.spelled p t hp)
    obtain ⟨rfl, rfl⟩ := Prod.mk.inj heq
    exact hspelled

theorem Tended.make (ht : Tended root s) (hroot : root <:+ entry.1)
    (hspelled : Spelled entry.1) (h : make s entry = some s') : Tended root s' := by
  have hfree := free_of_make h
  have hwd := wdOf_make h
  have hwatch : s'.mWatcher.mWdToPathMap = s.mWatcher.mWdToPathMap ∧
      s'.mWatcher.mPathToWdMap = s.mWatcher.mPathToWdMap ∧
      s'.mWatcher.mInitialized = s.mWatcher.mInitialized ∧
      s'.kernel.watches = s.kernel.watches ∧ s'.kernel.next = s.kernel.next := by
    obtain ⟨name, dir, _, _, _, _, rfl⟩ := make_cases h
    exact ⟨rfl, rfl, rfl, watches_notify .., next_notify ..⟩
  obtain ⟨hvalues, hmap, hinit, hwatches, hnext⟩ := hwatch
  -- the new path was no directory, so no descriptor stands for it
  have hunknown : ∀ wd, ofBytes entry.1 ∉ s.mWatcher.mWdToPathMap.values wd := by
    intro wd hmem
    have hwatched := ht.value_watched _ wd (Multimap.mem_values.mp hmem) hroot hspelled
    have hdir := ht.watched_dir _ hroot (by rw [hwatched]; rfl)
    rw [isPathDir_iff, hfree] at hdir
    cases hdir
  refine ⟨by rw [hinit]; exact ht.initialized, by rw [hnext]; exact ht.next_nonneg, ?_, ?_,
    ?_, ?_, ?_, ?_⟩
  · rw [hwatches, hnext]
    exact ht.watch_lt
  · rw [hvalues, hnext]
    exact ht.value_lt
  · intro p hp hps
    rw [hmap, hwd, ht.map_eq p hp hps]
  · intro p wd hmem hp hps
    rw [hvalues] at hmem
    rw [hwd, ht.value_watched p wd hmem hp hps]
  · intro p hp hwatched
    rw [hwd] at hwatched
    exact isPathDir_iff.mpr (lstat_make_of_some h (isPathDir_iff.mp (ht.watched_dir p hp hwatched)))
  · intro p wd hp hpwd
    rw [hwd] at hpwd
    have hnamed := ht.named p wd hp hpwd
    have hfind : (s.mWatcher.mWdToPathMap.values wd).find? s'.leadsToDir =
        (s.mWatcher.mWdToPathMap.values wd).find? s.leadsToDir := by
      refine List.find?_congr fun q hq => ?_
      have hne : entry.1 ≠ toStdString q := fun heq =>
        hunknown wd (by rw [heq, ofBytes_toStdString]; exact hq)
      simp only [State.leadsToDir, State.isPathDir, State.isPathFileType, lstat_make h, if_neg hne]
    simp only [Watcher.watchedPathFromWd, hvalues, hinit, hfind] at hnamed ⊢
    exact hnamed

end Make

end KmreManager.FileInotifyService.Discovery
