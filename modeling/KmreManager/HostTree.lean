import KmreManager.ControlManager
import KmreManager.Lib.HardLinks

/-! # A host file system for the link tree

`treeHost` is the file system under which the link tree is studied: a tree of
hard links, with names resolved component by component. -/
namespace KmreManager.HostTree
open KmreManager.ControlManager KmreManager.Lib

/-- One component of a path walk: `.` stays, `..` goes up. -/
def walk (dir : List QString) (component : QString) : List QString :=
  if component = ".".toList then dir
  else if component = "..".toList then dir.dropLast
  else dir ++ [component]

/-- The file an absolute path names. -/
def components (path : QString) : List QString :=
  (path.splitSkipEmpty '/').foldl walk []

abbrev HostFiles := HardLinks.Tree QString

def treeHost (uid userName : QString) : Host HostFiles where
  uid := uid
  userName := userName
  mkpath files path := HardLinks.mkpath files (components path)
  link files src dest := HardLinks.link files (components src) (components dest)
  fileExists files path := HardLinks.fileExists files (components path)
  remove files path := HardLinks.remove files (components path)

/-! ## A user's container -/

def kylinHost : Host HostFiles := treeHost "1000".toList "kylin".toList

/-- The manager just started, on a host whose file system is `files`. -/
def started (files : HostFiles) : State HostFiles := constructed 0 0 files

def photo : AndroidMeta :=
  ⟨"/storage/emulated/0/DCIM/a.png".toList, "image/png".toList, "com.camera".toList⟩

def clip : AndroidMeta :=
  ⟨"/storage/emulated/0/DCIM/b.mp4".toList, "video/mp4".toList, "com.camera".toList⟩

/-- A record without a path; nothing on the bus refuses it. -/
def pathless : AndroidMeta := ⟨[], "image/png".toList, "com.camera".toList⟩

/-- Another picture of the same package and base name. -/
def screenshot : AndroidMeta :=
  ⟨"/storage/emulated/0/Pictures/a.png".toList, "image/png".toList, "com.camera".toList⟩

/-- The container data of the user holds the two pictures, and no links yet. -/
def pictures : HostFiles := fun q =>
  if q = components "/var/lib/kmre/data/kmre-1000-kylin/DCIM/a.png".toList then some (.file 1)
  else if q = components "/var/lib/kmre/data/kmre-1000-kylin/Pictures/a.png".toList then
    some (.file 2)
  else none

end KmreManager.HostTree
