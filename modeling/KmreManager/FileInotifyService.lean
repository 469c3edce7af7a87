import KmreManager.FileInotifyWatcher
import KmreManager.Lib.FileTree
import KmreManager.Lib.Runs

/-! # `FileInotifyService`

The watcher thread of the service, the kernel's watches and event queue, and
the other programs that make, remove and rename directories and make files
meanwhile. Every test of a path and every call that reads the tree is a step of
its own, so the other programs can act between any two of them. There are no
symbolic links, so `realpath` changes nothing in a path that exists; the queue
never overflows and holds each event by itself. -/
namespace KmreManager.FileInotifyService
open KmreManager.Lib KmreManager.Lib.FileTree KmreManager.FileInotifyWatcher

/-- An absolute path, the last name first. -/
abbrev HostPath := Path QString

abbrev FileSystem := FileTree.Tree QString

/-- The name of the entry `name` of `dir`: `"%s/%s"`. -/
def filePath : HostPath → QString
  | [] => "/".toList
  | [name] => "//".toList ++ name
  | name :: dir => (dir.reverse.flatMap fun n => '/' :: n) ++ '/' :: name

/-! ## The kernel -/

inductive Event
  | create (wd : Int) (name : QString)
  | movedTo (wd : Int) (name : QString)
  | moveSelf (wd : Int)
  | deleteSelf (wd : Int)
  | ignored (wd : Int)
  deriving DecidableEq, Repr

/-- What the kernel keeps for the descriptor: which inode each watch is on, and
the events not yet read. -/
structure Kernel where
  watches : List (Int × Nat)
  queue : List Event
  deriving Repr

namespace Kernel
variable (k : Kernel)

def wdOf (inode : Nat) : Option Int := (k.watches.find? fun watch => watch.2 = inode).map Prod.fst

def post (event : Event) : Kernel := { k with queue := k.queue ++ [event] }

/-- Queue an event for the watch of an inode, if there is one. -/
def notify (inode : Nat) (event : Int → Event) : Kernel :=
  match k.wdOf inode with
  | some wd => k.post (event wd)
  | none => k

def drop (wd : Int) : Kernel :=
  { k with watches := k.watches.filter fun watch => watch.1 ≠ wd }.post (.ignored wd)

/-- The last reference to a removed inode goes away. -/
def evict (inode : Nat) : Kernel :=
  match k.wdOf inode with
  | some wd => (k.post (.deleteSelf wd)).drop wd
  | none => k

end Kernel

/-- The system calls on a file system. `fresh` is the descriptor of the next
new watch; an inode that has a watch keeps it. -/
def inotify (tree : FileSystem) (fresh : Int) : Inotify Kernel HostPath where
  inotify_init1 _ := (⟨[], []⟩, fresh)
  inotify_add_watch k path _ :=
    match tree.node path with
    | none => (k, -1)
    | some node =>
      match k.wdOf node.inode with
      | some wd => (k, wd)
      | none => ({ k with watches := (fresh, node.inode) :: k.watches }, fresh)
  inotify_rm_watch k wd :=
    if k.watches.any fun watch => watch.1 = wd then (k.drop wd, 0) else (k, -1)
  close _ := ⟨[], []⟩

/-! ## The service -/

structure NotifyFileInfo where
  path : QString
  size : Int
  deriving DecidableEq, Repr

/-- `mMimeDB.mimeTypeForFile(path, MatchExtension).name()` and the home directory. -/
structure Env where
  mimeTypeForFile : QString → QString
  homeDirPath : QString

/-- An open directory with the entries `readdir` has yet to return. -/
structure Reading where
  path : HostPath
  pending : List QString
  deriving DecidableEq, Repr

/-- Where one call of `watchAndNotifyDirectoryRecursivelyLocked` stands. -/
inductive Point
  | realpath
  | addWatch
  | opendir
  | readdir (pending : List QString)
  | isPathRegularFile (pending : List QString) (name : QString)
  | isPathDir (pending : List QString) (name : QString)
  deriving DecidableEq, Repr

/-- Where the watcher thread stands: in `run`, in `watchedPathFromWd` with the
paths still to test, in a scan with the scans that called it, or in
`removeWatch(wd)` with the rounds still to go. -/
inductive Control
  | idle
  | watchedPathFromWd (name : QString) (paths : List HostPath)
  | isPathDir (newPath : HostPath)
  | isPathRegularFile (newPath : HostPath)
  | addWatchRecursively (path : HostPath) (shouldNotifyFile : Bool)
  | scan (shouldNotifyFile : Bool) (path : HostPath) (point : Point) (outer : List Reading)
  | removeWatch (wd : Int) (count j : Nat)
  deriving DecidableEq, Repr

/-- `mFileList` is all that has been appended so far: the list thread, which
takes files out again, is left aside. -/
structure State where
  tree : FileSystem
  mWatcher : Watcher Kernel HostPath
  mFileList : List NotifyFileInfo
  control : Control

/-- `IN_CREATE | IN_MOVED_TO | IN_MOVE_SELF | IN_DELETE_SELF | IN_EXCL_UNLINK | IN_DONT_FOLLOW` -/
def watchMask : Int32 := 0x100 ||| 0x80 ||| 0x800 ||| 0x400 ||| 0x04000000 ||| 0x02000000

/-- Back to the scan that made the call. -/
def leave (shouldNotifyFile : Bool) : List Reading → Control
  | [] => .idle
  | frame :: outer => .scan shouldNotifyFile frame.path (.readdir frame.pending) outer

section Service
variable (env : Env) (s : State)

/-- Does `addNotifyFileLocked` take this path? -/
def Env.notifies (path : QString) : Bool :=
  env.homeDirPath.isPrefixOf path &&
    ("image/".toList.isPrefixOf (env.mimeTypeForFile path) ||
      "video/".toList.isPrefixOf (env.mimeTypeForFile path))

def addNotifyFile (path : QString) : State :=
  if env.notifies path then { s with mFileList := s.mFileList ++ [⟨path, -1⟩] } else s

/-- What `run` does first with an event it has read. -/
def handle : Event → Control
  | .create wd name | .movedTo wd name =>
    if name = [] ∨ wd < 0 then .idle
    else .watchedPathFromWd name (s.mWatcher.mWdToPathMap.values wd)
  | .moveSelf wd | .deleteSelf wd =>
    if wd < 0 then .idle else .removeWatch wd (s.mWatcher.mWdToPathMap.values wd).length 0
  | .ignored _ => .idle

/-- A step of a scan whose outcome the tree decides. -/
def scanStep (shouldNotifyFile : Bool) (path : HostPath) (outer : List Reading) :
    Point → Option State
  | .realpath =>
    let control := if (s.tree.node path).isSome then .scan shouldNotifyFile path .addWatch outer
      else leave shouldNotifyFile outer
    some { s with control }
  | .addWatch => none
  | .opendir =>
    let control := if s.tree.isDir path then
        .scan shouldNotifyFile path (.readdir (s.tree.children path)) outer
      else leave shouldNotifyFile outer
    some { s with control }
  | .readdir _ => none
  | .isPathRegularFile pending name =>
    if s.tree.isFile (name :: path) && shouldNotifyFile then
      let s' := { s with control := .scan shouldNotifyFile path (.readdir pending) outer }
      some (addNotifyFile env s' (filePath (name :: path)))
    else some { s with control := .scan shouldNotifyFile path (.isPathDir pending name) outer }
  | .isPathDir pending name =>
    let control := if s.tree.isDir (name :: path) then
        .scan shouldNotifyFile (name :: path) .realpath (⟨path, pending⟩ :: outer)
      else .scan shouldNotifyFile path (.readdir pending) outer
    some { s with control }

/-- The next step of the watcher thread, unless it waits for an event, for a
descriptor or for a directory entry. -/
def serve : Option State :=
  match s.control with
  | .idle =>
    match s.mWatcher.mInitialized, s.mWatcher.kernel.queue with
    | false, _ | true, [] => none
    | true, event :: queue =>
      let kernel := { s.mWatcher.kernel with queue }
      some { s with mWatcher := { s.mWatcher with kernel }, control := handle s event }
  | .watchedPathFromWd _ [] => some { s with control := .idle }
  | .watchedPathFromWd name (path :: paths) =>
    let control := if s.tree.isDir path then .isPathDir (name :: path)
      else .watchedPathFromWd name paths
    some { s with control }
  | .isPathDir newPath =>
    let control := if s.tree.isDir newPath then .addWatchRecursively newPath true
      else .isPathRegularFile newPath
    some { s with control }
  | .isPathRegularFile newPath =>
    let s' := { s with control := .idle }
    some (if s.tree.isFile newPath then addNotifyFile env s' (filePath newPath) else s')
  | .addWatchRecursively path shouldNotifyFile =>
    some { s with control := if s.tree.isDir path then .scan shouldNotifyFile path .realpath []
      else .idle }
  | .scan shouldNotifyFile path point outer => scanStep env s shouldNotifyFile path outer point
  | .removeWatch wd 0 _ =>
    some { s with mWatcher := (s.mWatcher.dropUnused (inotify s.tree 0) wd).1, control := .idle }
  | .removeWatch wd (count + 1) j =>
    let isPathDir := ((s.mWatcher.mWdToPathMap.values wd)[j]?).any s.tree.isDir
    let (mWatcher, j) := s.mWatcher.removeRound wd j isPathDir
    some { s with mWatcher, control := .removeWatch wd count j }

end Service

/-! ## Steps -/

/-- The entries of an open directory that are not taken away with `gone`. -/
def keepEntries (gone path : HostPath) (pending : List QString) : List QString :=
  pending.filter fun name => ¬ gone <:+ name :: path

def Point.forget (gone path : HostPath) : Point → Point
  | .readdir pending => .readdir (keepEntries gone path pending)
  | .isPathRegularFile pending name => .isPathRegularFile (keepEntries gone path pending) name
  | .isPathDir pending name => .isPathDir (keepEntries gone path pending) name
  | point => point

/-- `readdir` need not return an entry that was taken away. -/
def Control.forget (gone : HostPath) : Control → Control
  | .scan shouldNotifyFile path point outer =>
    .scan shouldNotifyFile path (point.forget gone path)
      (outer.map fun frame => ⟨frame.path, keepEntries gone frame.path frame.pending⟩)
  | control => control

/-- The names a directory entry can have. -/
def validName (name : QString) : Bool :=
  name ≠ [] ∧ name ≠ ".".toList ∧ name ≠ "..".toList ∧ '/' ∉ name ∧ '\x00' ∉ name

theorem validName_ne_nil {name : QString} (h : validName name = true) : name ≠ [] := by
  rintro rfl
  simp [validName] at h

/-- No path leads to the inode. -/
def unlinked (tree : FileSystem) (inode : Nat) : Bool :=
  tree.paths.all fun p => (tree.node p).all fun node => node.inode ≠ inode

/-- Queue an event for the watch of the directory `path`. -/
def State.notify (s : State) (path : HostPath) (event : Int → Event) : State :=
  match s.tree.dir? path with
  | some inode =>
    { s with mWatcher := { s.mWatcher with kernel := s.mWatcher.kernel.notify inode event } }
  | none => s

/-- The other programs make a directory or a file, remove an empty directory,
rename a directory (to a free name or over an empty directory) and let go of a
removed one. The watcher thread takes its next step, gets a descriptor for the
watch it adds, or gets an answer of `readdir`. -/
inductive Action
  | create (kind : Kind) (name : QString) (dir : HostPath)
  | rmdir (name : QString) (dir : HostPath)
  | rename (old : HostPath) (name : QString) (dir : HostPath)
  | evict (inode : Nat)
  | serve
  | addWatch (wd : Int)
  | readdir (entry : Option QString)
  deriving DecidableEq, Repr

/-- The directory that `rename` and `rmdir` work on has no entry and is no file. -/
def vacant (tree : FileSystem) (path : HostPath) : Bool :=
  !tree.isFile path && (tree.children path).isEmpty

theorem node_of_vacant {tree : FileSystem} {path : HostPath} (h : vacant tree path = true)
    (name : QString) : tree.node (name :: path) = none := by
  have hempty : tree.children path = [] := by
    rw [vacant, Bool.and_eq_true] at h
    exact List.isEmpty_iff.mp h.2
  by_contra hne
  have hmem := Tree.mem_children.mpr hne
  rw [hempty] at hmem
  cases hmem

def step (env : Env) (s : State) : Action → Option State
  | .create kind name dir =>
    if h : validName name = true ∧ s.tree.node (name :: dir) = none ∧ s.tree.isDir dir = true then
      some { s.notify dir (.create · name) with tree := s.tree.create kind name dir h.2.1 h.2.2 }
    else none
  | .rmdir name dir =>
    if h : s.tree.isDir (name :: dir) = true ∧ vacant s.tree (name :: dir) = true then
      some { s with
        tree := s.tree.remove name dir (node_of_vacant h.2)
        control := s.control.forget (name :: dir) }
    else none
  | .rename old name dir =>
    if h : validName name = true ∧ s.tree.isDir old = true ∧ vacant s.tree (name :: dir) = true ∧
        s.tree.isDir dir = true ∧ ¬ old <:+ name :: dir then
      some { (s.notify dir (.movedTo · name)).notify old .moveSelf with
        tree := s.tree.rename old name dir h.2.2.2.1 h.2.2.2.2
        control := s.control.forget old }
    else none
  | .evict inode =>
    if unlinked s.tree inode then
      some { s with mWatcher := { s.mWatcher with kernel := s.mWatcher.kernel.evict inode } }
    else none
  | .serve => serve env s
  | .addWatch wd =>
    match s.control with
    | .scan shouldNotifyFile path .addWatch outer =>
      if 0 ≤ wd ∧ s.mWatcher.kernel.watches.all fun watch => watch.1 ≠ wd then
        some { s with
          mWatcher := (s.mWatcher.addWatch (inotify s.tree wd) path watchMask).1
          control := .scan shouldNotifyFile path .opendir outer }
      else none
    | _ => none
  | .readdir entry =>
    match s.control, entry with
    | .scan shouldNotifyFile _ (.readdir []) outer, none =>
      some { s with control := leave shouldNotifyFile outer }
    | .scan shouldNotifyFile path (.readdir pending) outer, some name =>
      let pending := pending.filter fun n => n ≠ name
      let control := if name = [] ∨ name.head? = some '.' then
          .scan shouldNotifyFile path (.readdir pending) outer
        else .scan shouldNotifyFile path (.isPathRegularFile pending name) outer
      some { s with control }
    | _, _ => none

/-! ## What a step can do -/

section Steps
variable {env : Env} {s s' : State} {name : QString} {dir : HostPath}

theorem step_create {kind : Kind} (h : step env s (.create kind name dir) = some s') :
    ∃ (hfree : s.tree.node (name :: dir) = none) (hdir : s.tree.isDir dir = true),
      validName name = true ∧ s' = { s.notify dir (.create · name) with
        tree := s.tree.create kind name dir hfree hdir } := by
  dsimp only [step] at h
  split at h
  · rename_i hpre
    exact ⟨hpre.2.1, hpre.2.2, hpre.1, (Option.some.inj h).symm⟩
  · cases h

theorem step_rmdir (h : step env s (.rmdir name dir) = some s') :
    ∃ hvacant : vacant s.tree (name :: dir) = true, s' = { s with
      tree := s.tree.remove name dir (node_of_vacant hvacant)
      control := s.control.forget (name :: dir) } := by
  dsimp only [step] at h
  split at h
  · rename_i hpre
    exact ⟨hpre.2, (Option.some.inj h).symm⟩
  · cases h

theorem step_rename {old : HostPath} (h : step env s (.rename old name dir) = some s') :
    ∃ (hdir : s.tree.isDir dir = true) (hout : ¬ old <:+ name :: dir), s' =
      { (s.notify dir (.movedTo · name)).notify old .moveSelf with
        tree := s.tree.rename old name dir hdir hout
        control := s.control.forget old } := by
  dsimp only [step] at h
  split at h
  · rename_i hpre
    exact ⟨hpre.2.2.2.1, hpre.2.2.2.2, (Option.some.inj h).symm⟩
  · cases h

theorem step_evict {inode : Nat} (h : step env s (.evict inode) = some s') :
    unlinked s.tree inode = true ∧ s' =
      { s with mWatcher := { s.mWatcher with kernel := s.mWatcher.kernel.evict inode } } := by
  dsimp only [step] at h
  split at h
  · rename_i hun
    exact ⟨hun, (Option.some.inj h).symm⟩
  · cases h

end Steps

/-! ## `removeWatch` in one piece -/

section RemoveWatch
variable (env : Env) {s : State} {wd : Int}

/-- The rounds to go, taken one after the other. -/
theorem run_removeWatch {count j : Nat} (hc : s.control = .removeWatch wd count j) :
    ∃ isPathDir, Runs.run (step env) s (List.replicate (count + 1) .serve) = some { s with
      mWatcher := ((s.mWatcher.removeLoop wd count j isPathDir).dropUnused (inotify s.tree 0) wd).1
      control := .idle } := by
  induction count generalizing s j with
  | zero =>
    refine ⟨fun _ => false, ?_⟩
    rw [List.replicate_one, Runs.run_cons]
    simp [step, serve, hc, Watcher.removeLoop]
  | succ count ih =>
    let answer := ((s.mWatcher.mWdToPathMap.values wd)[j]?).any s.tree.isDir
    rcases hround : s.mWatcher.removeRound wd j answer with ⟨w, j'⟩
    have hserve : step env s .serve =
        some { s with mWatcher := w, control := .removeWatch wd count j' } := by
      simp only [step, serve, hc]
      rw [hround]
    obtain ⟨isPathDir, hrest⟩ := ih (s := { s with
      mWatcher := w, control := .removeWatch wd count j' }) rfl
    refine ⟨fun i => if i = 0 then answer else isPathDir (i - 1), ?_⟩
    rw [List.replicate_succ, Runs.run_cons, hserve, Option.bind_some, hrest]
    simp [Watcher.removeLoop, hround]

/-- Undisturbed, the steps of the thread are a call of `removeWatch(wd)`. -/
theorem run_removeWatchWd (hinit : s.mWatcher.mInitialized = true) (hwd : 0 ≤ wd)
    (hc : s.control = .removeWatch wd (s.mWatcher.mWdToPathMap.values wd).length 0) :
    ∃ isPathDir, Runs.run (step env) s
        (List.replicate ((s.mWatcher.mWdToPathMap.values wd).length + 1) .serve) = some { s with
      mWatcher := (s.mWatcher.removeWatchWd (inotify s.tree 0) wd isPathDir).1
      control := .idle } := by
  obtain ⟨isPathDir, hrun⟩ := run_removeWatch env hc
  refine ⟨isPathDir, hrun.trans ?_⟩
  simp [Watcher.removeWatchWd, hinit, Int.not_lt.mpr hwd]

end RemoveWatch
end KmreManager.FileInotifyService
