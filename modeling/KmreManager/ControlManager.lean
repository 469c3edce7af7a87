import KmreManager.QString
import KmreManager.Lib.Runs

/-! # `ControlManager::onSyncFiles`

The manager mirrors the container's media store: five record lists, two
counters that recognise the end of a dump, and a tree of hard links. Android
delivers records over the session bus in `syncFiles` messages.

The host file system is a parameter (`Host`): the code reads nothing from it
but the outcome of each call. `front()` or `back()` of an empty `QStringList`
has no defined behaviour, so a step that reaches one has no successor state. -/
namespace KmreManager.ControlManager
open KmreManager.Lib KmreManager.Lib.Runs

/-! ## Records and lists -/

structure AndroidMeta where
  path : QString
  mimeType : QString
  pkgName : QString
  deriving DecidableEq, Repr

/-- `AndroidMeta::operator==` looks at the path only. -/
def AndroidMeta.equals (m data : AndroidMeta) : Bool := data.path == m.path

abbrev AndroidMetaList := List AndroidMeta

namespace AndroidMetaList

/-- `QList::contains`. -/
def contains (metas : AndroidMetaList) (m : AndroidMeta) : Bool :=
  metas.any fun item => item.equals m

/-- `QList::removeOne`: the first item equal to `m` goes. -/
def removeOne (metas : AndroidMetaList) (m : AndroidMeta) : AndroidMetaList :=
  metas.eraseP fun item => item.equals m

/-- `if (!metas.contains(meta)) metas << meta;` -/
def append (metas : AndroidMetaList) (m : AndroidMeta) : AndroidMetaList :=
  if !contains metas m then metas ++ [m] else metas

/-- The `foreach` over a copy of the list, broken off at the first item with
the path of `m`. -/
def removePath (metas : AndroidMetaList) (m : AndroidMeta) : AndroidMetaList :=
  match metas.find? fun item => item.path == m.path with
  | some item => removeOne metas item
  | none => metas

end AndroidMetaList

structure MediaLists where
  mImageMetas : AndroidMetaList := []
  mVideoMetas : AndroidMetaList := []
  mAudioMetas : AndroidMetaList := []
  mDocumentMetas : AndroidMetaList := []
  mOtherMetas : AndroidMetaList := []
  deriving DecidableEq, Repr

/-- `meta.mimeType.indexOf(word) != -1`. -/
def mentions (m : AndroidMeta) (word : String) : Bool :=
  m.mimeType.indexOf word.toList != -1

namespace MediaLists
open AndroidMetaList

/-- The list part of the insert branch. -/
def insert (l : MediaLists) (m : AndroidMeta) : MediaLists :=
  if mentions m "image" then { l with mImageMetas := append l.mImageMetas m }
  else if mentions m "video" then { l with mVideoMetas := append l.mVideoMetas m }
  else if mentions m "audio" then { l with mAudioMetas := append l.mAudioMetas m }
  else if mentions m "application" || mentions m "text" then
    { l with mDocumentMetas := append l.mDocumentMetas m }
  else { l with mOtherMetas := append l.mOtherMetas m }

/-- The list part of the delete branch. -/
def remove (l : MediaLists) (m : AndroidMeta) : MediaLists :=
  if mentions m "image" then { l with mImageMetas := removePath l.mImageMetas m }
  else if mentions m "video" then { l with mVideoMetas := removePath l.mVideoMetas m }
  else if mentions m "audio" then { l with mAudioMetas := removePath l.mAudioMetas m }
  else if mentions m "application" || mentions m "text" then
    { l with mDocumentMetas := removePath l.mDocumentMetas m }
  else { l with mOtherMetas := removePath l.mOtherMetas m }

end MediaLists

/-! ## The link tree -/

/-- The host: who runs the manager, and what its file system answers. -/
structure Host (F : Type) where
  uid : QString
  userName : QString
  mkpath : F → QString → F × Bool
  /-- `link(src, dest)`, true for a zero return. -/
  link : F → QString → QString → F × Bool
  fileExists : F → QString → Bool
  remove : F → QString → F × Bool

section Links
variable {F : Type} (host : Host F)

def entryPath : QString :=
  "/var/lib/kmre/data/kmre-".toList ++ host.uid ++ "-".toList ++ host.userName ++ "/".toList

def dataPath : QString := entryPath host ++ "/KmreData/".toList

/-- The folder label of the first segment of a mime type. -/
def fileType (front : QString) : QString :=
  if front = "audio".toList then "音乐".toList
  else if front = "video".toList then "视频".toList
  else if front = "image".toList then "图片".toList
  else if front = "application".toList ∨ front = "text".toList then "文档".toList
  else "其他".toList

/-- `meta.mimeType.split("/", QString::SkipEmptyParts).front()` as a folder
label; the list may be empty. -/
def fileTypeOf (m : AndroidMeta) : Option QString :=
  (m.mimeType.splitSkipEmpty '/').head?.map fileType

/-- `meta.path.split("/", QString::SkipEmptyParts).back()`. -/
def fileNameOf (m : AndroidMeta) : Option QString :=
  (m.path.splitSkipEmpty '/').getLast?

/-- The host file the code links: `/storage/emulated/0` is cut out of the path
wherever it stands. -/
def srcFilePath (m : AndroidMeta) : QString :=
  entryPath host ++ m.path.removeCaseInsensitive "/storage/emulated/0".toList

/-- `dataPath + meta.pkgName + "/" + fileType + "/"`. -/
def destPath (m : AndroidMeta) (type : QString) : QString :=
  dataPath host ++ m.pkgName ++ "/".toList ++ type ++ "/".toList

/-- `dataPath + fileType + "/" + meta.pkgName + "/"`. -/
def destPath2 (m : AndroidMeta) (type : QString) : QString :=
  dataPath host ++ type ++ "/".toList ++ m.pkgName ++ "/".toList

/-- Make the directory and link into it; failures are only logged. -/
def linkInto (files : F) (src dest fileName : QString) : F :=
  match host.mkpath files dest with
  | (files, true) => (host.link files src (dest ++ fileName)).1
  | (files, false) => files

/-- Remove a file if it exists; a failure is only logged. -/
def removeIfExists (files : F) (filePath : QString) : F :=
  if host.fileExists files filePath then (host.remove files filePath).1 else files

/-- `(!meta.pkgName.isEmpty()) && (!meta.mimeType.isEmpty())`. -/
def linked (m : AndroidMeta) : Bool := m.pkgName ≠ [] && m.mimeType ≠ []

/-- The link part of the insert branch. -/
def createLinks (files : F) (m : AndroidMeta) : Option F :=
  if linked m then do
    let type ← fileTypeOf m
    let fileName ← fileNameOf m
    let src := srcFilePath host m
    let files := linkInto host files src (destPath host m type) fileName
    return linkInto host files src (destPath2 host m type) fileName
  else some files

/-- The link part of the delete branch. -/
def removeLinks (files : F) (m : AndroidMeta) : Option F :=
  if linked m then do
    let type ← fileTypeOf m
    let fileName ← fileNameOf m
    let files := removeIfExists host files (destPath host m type ++ fileName)
    return removeIfExists host files (destPath2 host m type ++ fileName)
  else some files

end Links

/-! ## Messages and the manager's state -/

/-- A `syncFiles` signal. Type 0 carries a part of a dump of `totalNum`
records, type 1 new records, type 2 deleted ones. -/
structure SyncFiles where
  type : Int32
  metas : AndroidMetaList
  totalNum : Int32
  deriving DecidableEq, Repr

/-- A `filesMessage` signal, with the lists a receiver would read then. -/
structure FilesMessage where
  type : Int32
  metas : AndroidMetaList
  lists : MediaLists
  deriving DecidableEq, Repr

structure State (F : Type) where
  lists : MediaLists
  mTotalNum : Int32
  mCurrentNum : Int32
  /-- The signals emitted so far, oldest first. -/
  filesMessage : List FilesMessage
  files : F
  deriving DecidableEq, Repr

section Step
variable {F : Type} (host : Host F)

/-- What `onSyncFiles` does before its loop. `int` addition wraps, as on the
machines the manager is built for. -/
def receive (s : State F) (msg : SyncFiles) : State F :=
  if msg.type = 0 then
    { s with
      mTotalNum := msg.totalNum
      lists := if s.mCurrentNum = 0 then {} else s.lists
      mCurrentNum := s.mCurrentNum + Int32.ofNat msg.metas.length }
  else s

/-- `emit KmreManager::getInstance()->filesMessage(type, metas)`. -/
def emitFilesMessage (s : State F) (msg : SyncFiles) : State F :=
  { s with filesMessage := s.filesMessage ++ [⟨msg.type, msg.metas, s.lists⟩] }

/-- The notification of the insert branch: at the end of a dump, which resets
the counters, or for every inserted record. -/
def notifyInserted (s : State F) (msg : SyncFiles) : State F :=
  if msg.type = 0 then
    if s.mCurrentNum ≥ s.mTotalNum then
      { emitFilesMessage s msg with mTotalNum := 0, mCurrentNum := 0 }
    else s
  else emitFilesMessage s msg

/-- One round of the loop over the records of a message. -/
def syncMeta (msg : SyncFiles) (s : State F) (m : AndroidMeta) : Option (State F) :=
  if msg.type = 0 ∨ msg.type = 1 then
    let s := notifyInserted { s with lists := s.lists.insert m } msg
    (createLinks host s.files m).map fun files => { s with files }
  else if msg.type = 2 then
    let s := emitFilesMessage { s with lists := s.lists.remove m } msg
    (removeLinks host s.files m).map fun files => { s with files }
  else some s

def onSyncFiles (s : State F) (msg : SyncFiles) : Option (State F) :=
  run (syncMeta host msg) (receive s msg) msg.metas

/-- The state the constructor leaves: empty lists, and counters that nothing
has initialised. -/
def constructed (totalNum currentNum : Int32) (files : F) : State F :=
  ⟨{}, totalNum, currentNum, [], files⟩

end Step

end KmreManager.ControlManager
