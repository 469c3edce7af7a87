import KmreManager.Pathname

/-! # Copying a package and installing it

`Utils::copyFile` takes the destination away before it copies, and `installApp`
takes its copy away when the installation fails. Nothing compares the two
names, and a copy that fails brings nothing back. -/
namespace KmreManager

open Lib.PathWalk

namespace QFile

variable {κ : Type} (fs : HostFileSystem κ)

/-- `exists()`. -/
def fileExists (file : QString) : Bool := (fs.stat file.pathname).isSome

/-- `remove()`: an `unlink`, which the system may refuse and never does to a
directory. -/
def remove (file : QString) (unlinks : Bool) : HostFileSystem κ × Bool :=
  match fs.place file.pathname with
  | some (n :: dir) =>
    match fs.node (n :: dir) with
    | none | some .dir => (fs, false)
    | some _ => if unlinks then (fs.set n dir none, true) else (fs, false)
  | _ => (fs, false)

/-- `copy(src, dest)`: the source is read into a temporary file beside the
destination, which is renamed to a name that is free. `copies` says whether all
of that goes well. -/
def copy (src dest : QString) (copies : Bool) : HostFileSystem κ × Bool :=
  if fileExists fs dest then (fs, false)
  else
    match fs.stat src.pathname, fs.place dest.pathname with
    | some (.file c), some (n :: dir) =>
      if (fs.node (n :: dir)).isNone && copies then (fs.set n dir (some (.file c)), true)
      else (fs, false)
    | _, _ => (fs, false)

end QFile

namespace Utils

variable {κ : Type} (fs : HostFileSystem κ)

end Utils

namespace BackendWorker.Install

variable {κ : Type} (fs : HostFileSystem κ)

/-- What an installation finds: the answers of `copyFile`, of `install_app`
(false without that function too), and of the last `removeFile`. -/
structure Answers where
  unlinks : Bool
  copies : Bool
  install_app : Bool
  unlinksCopy : Bool
deriving DecidableEq

/-- `fi.fileName()`. -/
def fileName (filePath : QString) : QString := ((filePath.splitOn '/').getLast?).getD []

def destFile (uid userName filePath : QString) : QString :=
  "/var/lib/kmre/kmre-".toList ++ uid ++ "-".toList ++ userName ++ "/data/local/tmp/".toList
    ++ fileName filePath

end BackendWorker.Install

/-! ## What the calls do -/

section Calls

variable {κ : Type} {fs fs' : HostFileSystem κ} {file srcFile destFile : QString} {n : QString}
  {dir : Place QString} {c : κ} {unlinks copies : Bool}

/-- The path names something through an entry that is no directory. -/
structure Removable (fs : HostFileSystem κ) (file : QString) (n : QString) (dir : Place QString) :
    Prop where
  names : fs.stat file.pathname ≠ none
  place : fs.place file.pathname = some (n :: dir)
  not_dir : fs.node (n :: dir) ≠ some .dir

/-- The source is a file, and the destination a free name in a directory. -/
structure Copyable (fs : HostFileSystem κ) (srcFile destFile : QString) (n : QString)
    (dir : Place QString) (c : κ) : Prop where
  source : fs.stat srcFile.pathname = some (.file c)
  place : fs.place destFile.pathname = some (n :: dir)
  free : fs.node (n :: dir) = none

theorem Removable.remove (h : Removable fs file n dir) :
    QFile.remove fs file unlinks = if unlinks then (fs.set n dir none, true) else (fs, false) := by
  have hsome : fs.node (n :: dir) ≠ none := by
    have hlstat := FileSystem.lstat_ne_none h.names
    rwa [FileSystem.lstat, h.place, Option.bind_some] at hlstat
  have hdir := h.not_dir
  unfold QFile.remove
  rw [h.place]
  dsimp only
  split
  · contradiction
  · contradiction
  · rfl

/-- A successful copy makes a file of the source and leaves the source alone. -/
theorem Copyable.stat (h : Copyable fs srcFile destFile n dir c) :
    (fs.set n dir (some (.file c))).stat destFile.pathname = some (.file c) ∧
      (fs.set n dir (some (.file c))).stat srcFile.pathname = some (.file c) :=
  ⟨FileSystem.stat_make h.place h.free c,
    FileSystem.stat_extends (FileSystem.extends_of_free h.free _) h.source⟩

end Calls

/-! ## What the calls promise -/

section Law

variable {κ : Type} {fs : HostFileSystem κ} {srcFile destFile : QString} {n : QString}
  {dir : Place QString} {c : κ} {unlinks copies : Bool}

/-- A copy that fails leaves both files as they were, one that succeeds makes the
destination what the source was. -/
def CopyKeeps (fs : HostFileSystem κ) (srcFile destFile : QString)
    (r : HostFileSystem κ × Bool) : Prop :=
  (r.2 = false → r.1.stat srcFile.pathname = fs.stat srcFile.pathname ∧
    r.1.stat destFile.pathname = fs.stat destFile.pathname) ∧
  (r.2 = true → r.1.stat destFile.pathname = fs.stat srcFile.pathname ∧
    r.1.stat srcFile.pathname = fs.stat srcFile.pathname)

theorem Removable.unique {m : QString} {dir' : Place QString} (h : Removable fs destFile n dir)
    (h' : Removable fs destFile m dir') : m = n ∧ dir' = dir := by
  simpa using h'.place.symm.trans h.place

theorem Copyable.keeps (h : Copyable fs srcFile destFile n dir c) :
    CopyKeeps fs srcFile destFile (fs.set n dir (some (.file c)), true) :=
  ⟨fun hfalse => (by cases hfalse), fun _ =>
    ⟨h.stat.1.trans h.source.symm, h.stat.2.trans h.source.symm⟩⟩

end Law

section Install

open BackendWorker.Install

variable {κ : Type} {fs : HostFileSystem κ} {uid userName filePath n : QString}
  {dir : Place QString} {c : κ} {w : Answers}

end Install
end KmreManager
