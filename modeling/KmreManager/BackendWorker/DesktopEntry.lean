import KmreManager.BackendWorker.AppNames
import KmreManager.Lib.DesktopEntry

/-! # What a desktop file says

`generateDesktop` pastes the strings of the package into the file as they are.
The file is read with the rules of its format. -/
namespace KmreManager.BackendWorker

open KmreManager.Lib KmreManager.Lib.DesktopEntry

/-- The words of `Exec`. -/
def execWords (appInfo : AppInfo) : List QString :=
  ["/usr/bin/startapp".toList, appInfo.pkgName, appInfo.version]

/-- The entries with the name of the app. -/
def nameFields : List QString :=
  ["Name".toList, "Name[zh_CN]".toList, "Comment".toList, "Comment[zh_CN]".toList]

/-- The file is read back: one value for each key, the name of the app in each of
its entries, the name of the package, and the command with its arguments. -/
def RoundTrips (text : QString) (appInfo : AppInfo) : Prop :=
  ∃ entries, DesktopEntry.read text = some entries ∧ (entries.map Prod.fst).Nodup ∧
    (∀ key ∈ nameFields, stringValue entries key = some appInfo.appName) ∧
    stringValue entries "X-GXDE-KMRE-PKGNAME".toList = some appInfo.pkgName ∧
    commandLine entries "Exec".toList = some (execWords appInfo)

section Fields
variable {fields : List (QString × QString)} {field : QString × QString}
  {entries : List (QString × QString)} {lines : List QString} {appInfo : AppInfo} {home : QString}

end Fields

/-! ## The file -/

section File
variable {home : QString} {appInfo : AppInfo} {disk : Disk}

end File
end KmreManager.BackendWorker
