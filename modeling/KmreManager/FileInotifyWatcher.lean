import KmreManager.QString
import KmreManager.Lib.Multimap

/-! # `FileInotifyWatcher`

The watcher keeps two maps between watch descriptors and paths beside the
kernel's own table. What the kernel does is a parameter (`Inotify`), and so is
the type of paths: the watcher compares paths, hands them to system calls and
looks at nothing inside. The file system may change between two calls of
`isPathDir`, so the loops that make them are cut into single rounds. -/
namespace KmreManager.FileInotifyWatcher
open KmreManager.Lib

/-- The inotify system calls on the watcher's descriptor. -/
structure Inotify (K π : Type) where
  inotify_init1 : K → K × Int
  inotify_add_watch : K → π → Int32 → K × Int
  inotify_rm_watch : K → Int → K × Int
  close : K → K

structure Watcher (K π : Type) where
  mWdToPathMap : Multimap Int π
  mPathToWdMap : π → Option Int
  mInotifyFd : Int
  mInitialized : Bool
  kernel : K

variable {K π : Type} [DecidableEq π]

namespace Watcher

/-- The constructor's state. -/
def constructed (kernel : K) : Watcher K π := ⟨[], fun _ => none, -1, false, kernel⟩

section Operations
variable (sys : Inotify K π) (w : Watcher K π)

def initializeWatcher : Watcher K π × Int :=
  if w.mInitialized then (w, 0)
  else
    let (kernel, fd) := sys.inotify_init1 w.kernel
    if fd < 0 then ({ w with kernel, mInotifyFd := fd }, -1)
    else ({ w with kernel, mInotifyFd := fd, mInitialized := true }, 0)

def cleanup : Watcher K π :=
  if !w.mInitialized then w
  else
    let kernel := w.mWdToPathMap.foldl (fun kernel item => (sys.inotify_rm_watch kernel item.1).1)
      w.kernel
    { w with
      mWdToPathMap := []
      mPathToWdMap := fun _ => none
      kernel := sys.close kernel
      mInotifyFd := -1
      mInitialized := false }

def addWatch (path : π) (mask : Int32) : Watcher K π × Int :=
  if !w.mInitialized then (w, -1)
  else
    match w.mPathToWdMap path with
    | some _ => (w, 0)
    | none =>
      let (kernel, wd) := sys.inotify_add_watch w.kernel path mask
      if wd < 0 then ({ w with kernel }, -1)
      else
        ({ w with
            kernel
            mWdToPathMap := (wd, path) :: w.mWdToPathMap
            mPathToWdMap := Function.update w.mPathToWdMap path (some wd) }, 0)

/-- `if (mWdToPathMap.count(wd) == 0) ret = inotify_rm_watch(mInotifyFd, wd);` -/
def dropUnused (wd : Int) : Watcher K π × Int :=
  if (w.mWdToPathMap.values wd).length = 0 then
    let (kernel, ret) := sys.inotify_rm_watch w.kernel wd
    ({ w with kernel }, ret)
  else (w, 0)

end Operations

/-! ## `removeWatch(const QString &)` -/

section RemovePath
variable (c_str : π → QString)

/-- The loop: `count` items to go, the iterator on the `j`-th value of `wd`.
`strcmp` gives zero exactly for equal C strings. -/
def eraseSame (path : π) (wd : Int) : Nat → Nat → Multimap Int π → Multimap Int π
  | 0, _, items => items
  | count + 1, j, items =>
    match (items.values wd)[j]? with
    | none => items
    | some value =>
      if c_str value = c_str path then eraseSame path wd count j (items.eraseNth wd j)
      else eraseSame path wd count (j + 1) items

def removeWatchPath (sys : Inotify K π) (w : Watcher K π) (path : π) : Watcher K π × Int :=
  if !w.mInitialized then (w, -1)
  else
    match w.mPathToWdMap path with
    | none => (w, -1)
    | some wd =>
      let w := { w with mPathToWdMap := Function.update w.mPathToWdMap path none }
      if wd = -1 then (w, -1)
      else
        let count := (w.mWdToPathMap.values wd).length
        dropUnused sys { w with mWdToPathMap := eraseSame c_str path wd count 0 w.mWdToPathMap } wd

end RemovePath

/-! ## `removeWatch(int)` -/

/-- One round of the loop, with the iterator on the `j`-th value of `wd` and
the answer of `isPathDir` for it. -/
def removeRound (w : Watcher K π) (wd : Int) (j : Nat) (isPathDir : Bool) : Watcher K π × Nat :=
  match (w.mWdToPathMap.values wd)[j]? with
  | none => (w, j)
  | some path =>
    if !isPathDir then
      ({ w with
          mWdToPathMap := w.mWdToPathMap.eraseNth wd j
          mPathToWdMap := Function.update w.mPathToWdMap path none }, j)
    else (w, j + 1)

/-- The loop: `count` items to go, with the answers still to come. -/
def removeLoop (wd : Int) : Nat → Nat → (Nat → Bool) → Watcher K π → Watcher K π
  | 0, _, _, w => w
  | count + 1, j, isPathDir, w =>
    let (w, j) := removeRound w wd j (isPathDir 0)
    removeLoop wd count j (fun i => isPathDir (i + 1)) w

/-- `isPathDir` lists the answers of the file system in the order of the calls. -/
def removeWatchWd (sys : Inotify K π) (w : Watcher K π) (wd : Int) (isPathDir : Nat → Bool) :
    Watcher K π × Int :=
  if !w.mInitialized then (w, -1)
  else if wd < 0 then (w, -1)
  else
    dropUnused sys (removeLoop wd (w.mWdToPathMap.values wd).length 0 isPathDir w) wd

/-! ## `watchedPathFromWd` -/

/-- The first path of the descriptor that is a directory now; the source
returns an empty string where there is none. -/
def watchedPathFromWd (w : Watcher K π) (isPathDir : π → Bool) (wd : Int) : Option π :=
  if !w.mInitialized then none
  else if wd < 0 then none
  else (w.mWdToPathMap.values wd).find? isPathDir

/-! ## What a call can do -/

variable {sys : Inotify K π} {w w' : Watcher K π} {path : π} {mask : Int32} {wd ret : Int}
  {j j' : Nat}

theorem addWatch_cases (h : w.addWatch sys path mask = (w', ret)) :
    w' = w ∧ ret = -1 ∧ w.mInitialized = false ∨
    w' = w ∧ ret = 0 ∧ (∃ wd, w.mPathToWdMap path = some wd) ∨
    ∃ kernel wd, sys.inotify_add_watch w.kernel path mask = (kernel, wd) ∧
      w.mInitialized = true ∧ w.mPathToWdMap path = none ∧
      (wd < 0 ∧ ret = -1 ∧ w' = { w with kernel } ∨
        0 ≤ wd ∧ ret = 0 ∧ w' = { w with
          kernel
          mWdToPathMap := (wd, path) :: w.mWdToPathMap
          mPathToWdMap := Function.update w.mPathToWdMap path (some wd) }) := by
  unfold addWatch at h
  split at h
  · rename_i hinit
    obtain ⟨rfl, rfl⟩ := Prod.mk.inj h
    exact Or.inl ⟨rfl, rfl, by simpa using hinit⟩
  · rename_i hinit
    have hinit : w.mInitialized = true := by simpa using hinit
    split at h
    · rename_i wd hpath
      obtain ⟨rfl, rfl⟩ := Prod.mk.inj h
      exact Or.inr (Or.inl ⟨rfl, rfl, wd, hpath⟩)
    · rename_i hpath
      refine Or.inr (Or.inr ⟨_, _, rfl, hinit, hpath, ?_⟩)
      dsimp only at h
      split at h
      · rename_i hneg
        obtain ⟨rfl, rfl⟩ := Prod.mk.inj h
        exact Or.inl ⟨hneg, rfl, rfl⟩
      · rename_i hpos
        obtain ⟨rfl, rfl⟩ := Prod.mk.inj h
        exact Or.inr ⟨Int.not_lt.mp hpos, rfl, rfl⟩

/-- Only the path of the call is registered by it. -/
theorem addWatch_other (h : w.addWatch sys path mask = (w', ret)) {p : π} (hp : p ≠ path) :
    w'.mPathToWdMap p = w.mPathToWdMap p := by
  rcases addWatch_cases h with ⟨rfl, -, -⟩ | ⟨rfl, -, -⟩ |
    ⟨kernel, wd, -, -, -, ⟨-, -, rfl⟩ | ⟨-, -, rfl⟩⟩
  · rfl
  · rfl
  · rfl
  · exact Function.update_of_ne hp _ _

theorem removeRound_cases {isPathDir : Bool} (h : w.removeRound wd j isPathDir = (w', j')) :
    w' = w ∧ (∀ path ∈ (w.mWdToPathMap.values wd)[j]?, isPathDir = true ∧ j' = j + 1) ∨
    ∃ path, (w.mWdToPathMap.values wd)[j]? = some path ∧ isPathDir = false ∧ j' = j ∧
      w' = { w with
        mWdToPathMap := w.mWdToPathMap.eraseNth wd j
        mPathToWdMap := Function.update w.mPathToWdMap path none } := by
  unfold removeRound at h
  cases hpath : (w.mWdToPathMap.values wd)[j]? with
  | none =>
    rw [hpath] at h
    obtain ⟨rfl, rfl⟩ := Prod.mk.inj h
    exact Or.inl ⟨rfl, fun path hp => by cases hp⟩
  | some path =>
    rw [hpath] at h
    cases isPathDir with
    | true =>
      obtain ⟨rfl, rfl⟩ := Prod.mk.inj h
      exact Or.inl ⟨rfl, fun _ _ => ⟨rfl, rfl⟩⟩
    | false =>
      obtain ⟨rfl, rfl⟩ := Prod.mk.inj h
      exact Or.inr ⟨path, rfl, rfl, rfl, rfl⟩

omit [DecidableEq π] in
theorem dropUnused_cases (h : w.dropUnused sys wd = (w', ret)) :
    w' = w ∧ w.mWdToPathMap.values wd ≠ [] ∨
    w.mWdToPathMap.values wd = [] ∧ ∃ kernel, sys.inotify_rm_watch w.kernel wd = (kernel, ret) ∧
      w' = { w with kernel } := by
  unfold dropUnused at h
  split at h
  · rename_i hnone
    obtain ⟨rfl, rfl⟩ := Prod.mk.inj h
    exact Or.inr ⟨List.length_eq_zero_iff.mp hnone, _, rfl, rfl⟩
  · rename_i hsome
    obtain ⟨rfl, rfl⟩ := Prod.mk.inj h
    exact Or.inl ⟨rfl, fun hnil => hsome (by rw [hnil]; rfl)⟩

end Watcher
end KmreManager.FileInotifyWatcher
