import KmreManager.QStringArg
import KmreManager.Lib.Directory
import KmreManager.Lib.TextLines

/-! # `BackendWorker`: the files of an installed app

An app that is installed gets a desktop file in `~/.local/share/applications`
and an icon in `~/.local/share/icons`. Each function builds its paths itself
with `QString::arg`, and they need not lead to these directories. Files hold
text, which every writer encodes as UTF-8; file operations succeed. -/
namespace KmreManager.BackendWorker
open KmreManager.Lib

structure AppInfo where
  pkgName : QString
  appName : QString
  version : QString
  deriving DecidableEq, Repr

/-! ## The files and their paths -/

structure Disk where
  applications : Directory QString QString
  icons : Directory QString QString
  /-- the other files, by their paths -/
  elsewhere : Directory QString QString

inductive Place
  | application (name : QString)
  | icon (name : QString)
  | elsewhere (path : QString)
  deriving DecidableEq, Repr

/-- The name of the file in this directory that a path leads to. -/
def nameIn (dir path : QString) : Option QString :=
  let name := path.drop (dir.length + 1)
  if (dir ++ "/".toList).isPrefixOf path ∧ name ≠ [] ∧ '/' ∉ name ∧ '\x00' ∉ name then some name
  else none

def place (home path : QString) : Place :=
  match nameIn (home ++ "/.local/share/applications".toList) path with
  | some name => .application name
  | none =>
    match nameIn (home ++ "/.local/share/icons".toList) path with
    | some name => .icon name
    | none => .elsewhere path

namespace Disk

def content (disk : Disk) (home path : QString) : Option QString :=
  match place home path with
  | .application name => disk.applications.content name
  | .icon name => disk.icons.content name
  | .elsewhere path => disk.elsewhere.content path

def write (disk : Disk) (home path text : QString) : Disk :=
  match place home path with
  | .application name => { disk with applications := disk.applications.write name text }
  | .icon name => { disk with icons := disk.icons.write name text }
  | .elsewhere path => { disk with elsewhere := disk.elsewhere.write path text }

def remove (disk : Disk) (home path : QString) : Disk :=
  match place home path with
  | .application name => { disk with applications := disk.applications.remove name }
  | .icon name => { disk with icons := disk.icons.remove name }
  | .elsewhere path => { disk with elsewhere := disk.elsewhere.remove path }

end Disk

/-! ## Installation and removal -/

/-- `/var/lib/kmre/kmre-<id>-<user>/data/local/icons/<pkg>.png`: not there, no
image, or an image, given by the SVG file that is drawn from it and then edited
with `sed`. -/
inductive ContainerIcon
  | missing
  | broken
  | image (svg : QString)
  deriving DecidableEq, Repr

/-- The lines that `generateDesktop` writes, each with `\n` or `endl` after it. -/
def desktopLines (home : QString) (appInfo : AppInfo) : List QString :=
  ["[Desktop Entry]".toList,
    "Terminal=false".toList,
    "Type=Application".toList,
    "StartupNotify=false".toList,
    "Keywords=Android;App;Apk".toList,
    "Categories=Android;App;Apk".toList,
    "X-GXDE-KMREAPP=true".toList,
    "X-GXDE-KMRE-PKGNAME=".toList ++ appInfo.pkgName,
    "Name=".toList ++ appInfo.appName,
    "Name[zh_CN]=".toList ++ appInfo.appName,
    "Comment=".toList ++ appInfo.appName,
    "Comment[zh_CN]=".toList ++ appInfo.appName,
    "Exec=/usr/bin/startapp ".toList ++ appInfo.pkgName ++ " ".toList ++ appInfo.version,
    "Icon=".toList ++ home ++ "/.local/share/icons/".toList ++ appInfo.pkgName ++ ".svg".toList]

def desktopEntry (home : QString) (appInfo : AppInfo) : QString :=
  TextLines.unlines '\n' (desktopLines home appInfo)

def destDesktopFile (home pkgName : QString) : QString :=
  QString.arg "%1/.local/share/applications".toList home ++
    QString.arg "/gxme-%1.desktop".toList pkgName

def generateDesktop (home : QString) (disk : Disk) (appInfo : AppInfo) : Disk × Bool :=
  if appInfo.pkgName = [] then (disk, false)
  else
    (disk.write home (destDesktopFile home appInfo.pkgName) (desktopEntry home appInfo), true)

def convertPngToSvg (home : QString) (disk : Disk) (png : ContainerIcon) (svgPath : QString) :
    Disk × Bool :=
  match png with
  | .missing | .broken => (disk, false)
  | .image svg => (disk.write home svgPath svg, true)

def iconsPath (home : QString) : QString := QString.arg "%1/.local/share/icons".toList home

def linuxSvgPath (home pkgName : QString) : QString :=
  QString.arg (QString.arg "%1/%2.svg".toList (iconsPath home)) pkgName

def generateIcon (home : QString) (disk : Disk) (pkgName : QString)
    (containerIcon : ContainerIcon) : Disk × Bool :=
  if pkgName = [] then (disk, false)
  else if containerIcon = .missing then (disk, false)
  else
    convertPngToSvg home (disk.remove home (linuxSvgPath home pkgName)) containerIcon
      (linuxSvgPath home pkgName)

def updateDekstopAndIcon (home : QString) (disk : Disk) (appInfo : AppInfo)
    (containerIcon : ContainerIcon) : Disk × Bool :=
  let (disk, ret) := generateDesktop home disk appInfo
  if ret then ((generateIcon home disk appInfo.pkgName containerIcon).1, true) else (disk, false)

def removeDekstopAndIcon (home : QString) (disk : Disk) (pkgName : QString) : Disk :=
  let iconFile :=
    QString.arg (QString.arg "%1/.local/share/icons/%2.png".toList home) pkgName
  let destDesktopFile :=
    QString.arg (QString.arg "%1/.local/share/applications/gxme-%2.desktop".toList home) pkgName
  (disk.remove home iconFile).remove home destDesktopFile

/-! ## The callers in `ControlManager` -/

/-- From the entries of the JSON array that the container answers. -/
def getInstalledAppList (jsonArray : List AppInfo) : List AppInfo :=
  jsonArray.filter fun appInfo => appInfo.pkgName ≠ "com.antutu.benchmark.full".toList ∧
    appInfo.pkgName ≠ "com.antutu.benchmark.full.lite".toList

def getAppInfo (jsonArray : List AppInfo) (pkgName : QString) : AppInfo :=
  ((getInstalledAppList jsonArray).find? fun appInfo => appInfo.pkgName = pkgName).getD ⟨[], [], []⟩

/-- `status` 0 is an installation, 1 a removal. -/
def onUpdateAppDesktopAndIcon (home : QString) (disk : Disk) (pkgName : QString) (status : Int)
    (jsonArray : List AppInfo) (containerIcon : ContainerIcon) : Disk :=
  if status = 0 then
    let appInfo := getAppInfo jsonArray pkgName
    if appInfo.pkgName ≠ [] then (updateDekstopAndIcon home disk appInfo containerIcon).1 else disk
  else if status = 1 then removeDekstopAndIcon home disk pkgName
  else disk

/-! ### `updateAllAppNameInDesktop` -/

/-- The beginnings of the lines that are replaced, in the order of the tests. -/
def nameKeys : List QString :=
  ["Name=".toList, "Name[zh_CN]=".toList, "Comment=".toList, "Comment[zh_CN]=".toList]

/-- The line that is written for a line read. -/
def renameLine (appName line : QString) : QString :=
  match nameKeys.find? fun key => key.isPrefixOf line with
  | some key => key ++ appName
  | none => line

/-- The loop over the lines of one file; an empty file is left alone. -/
def renameText (appName text : QString) : QString :=
  let newContent := TextLines.unlines '\n' ((TextLines.readLines '\n' '\r' text).map
    (renameLine appName))
  if newContent = [] then text else newContent

/-- Does the name match `gxme-*.desktop`, up to case? -/
def matchesFileType (name : QString) : Bool :=
  QString.startsWithFolded "gxme-".toList name &&
    QString.startsWithFolded ".desktop".toList.reverse name.reverse &&
    decide (("gxme-".toList ++ ".desktop".toList).length ≤ name.length)

/-- The round of the loop over the desktop files for one of them. -/
def renameFile (appInfoList : List AppInfo) (applications : Directory QString QString)
    (desktopFile : QString) : Directory QString QString :=
  let pkgName := (desktopFile.take (desktopFile.length - ".desktop".toList.length)).drop
    "gxme-".toList.length
  let appName := match appInfoList.find? fun appInfo => appInfo.pkgName = pkgName with
    | some appInfo => appInfo.appName
    | none => []
  if appName = [] then applications
  else
    match applications.content desktopFile with
    | none => applications
    | some text => applications.write desktopFile (renameText appName text)

/-- The files are taken in the order of the directory, as no round looks at the
file of another. -/
def updateAllAppNameInDesktop (disk : Disk) (jsonArray : List AppInfo) : Disk :=
  let desktopFiles := disk.applications.names.filter matchesFileType
  let appInfoList := getInstalledAppList jsonArray
  { disk with applications := desktopFiles.foldl (renameFile appInfoList) disk.applications }

end KmreManager.BackendWorker
