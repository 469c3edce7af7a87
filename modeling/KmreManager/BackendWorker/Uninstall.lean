import Mathlib.Data.List.Induction
import KmreManager.BackendWorker.AppNames

/-! # What an uninstallation leaves behind

The icon is made as an SVG file and looked for as a PNG file when the app goes.
The calls of one package touch no file of another. -/
namespace KmreManager.BackendWorker
open KmreManager.Lib

/-- A call of `onUpdateAppDesktopAndIcon`, with what the container answers
then and the icon it has. -/
structure Call where
  pkgName : QString
  status : Int
  jsonArray : List AppInfo
  containerIcon : ContainerIcon
  deriving DecidableEq, Repr

/-- The package is in the list of the installed apps. -/
def Call.installs (call : Call) : Bool :=
  call.status = 0 && decide ((getAppInfo call.jsonArray call.pkgName).pkgName ≠ [])

def Call.uninstalls (call : Call) : Bool := call.status = 1

def Call.step (home : QString) (disk : Disk) (call : Call) : Disk :=
  onUpdateAppDesktopAndIcon home disk call.pkgName call.status call.jsonArray call.containerIcon

def run (home : QString) (disk : Disk) (calls : List Call) : Disk :=
  calls.foldl (Call.step home) disk

/-- What the files of a package hold. -/
def filesOf (disk : Disk) (pkgName : QString) : Option QString × Option QString × Option QString :=
  (disk.applications.content (desktopFile pkgName), disk.icons.content (svgFile pkgName),
    disk.icons.content (pngFile pkgName))

/-! ## One call -/

section Step
variable {home : QString} {disk : Disk} {call : Call} {pkgName : QString}

/-- The app that is found has the name that was asked for. -/
theorem getAppInfo_pkgName {jsonArray : List AppInfo}
    (h : (getAppInfo jsonArray pkgName).pkgName ≠ []) :
    (getAppInfo jsonArray pkgName).pkgName = pkgName := by
  unfold getAppInfo at h ⊢
  cases hfind : (getInstalledAppList jsonArray).find? fun appInfo => appInfo.pkgName = pkgName with
  | none =>
    rw [hfind] at h
    exact absurd rfl h
  | some found => simpa using List.find?_some hfind

theorem step_installs (hkeeps : KeepsHome home) (hnamed : Named call.pkgName)
    (h : call.installs = true) : call.step home disk = { disk with
      applications := disk.applications.write (desktopFile call.pkgName)
        (desktopEntry home (getAppInfo call.jsonArray call.pkgName))
      icons := iconsAfter disk.icons call.pkgName call.containerIcon } := by
  simp only [Call.installs, Bool.and_eq_true, decide_eq_true_eq] at h
  obtain ⟨hstatus, hne⟩ := h
  have hname := getAppInfo_pkgName hne
  have hdesktop : generateDesktop home disk (getAppInfo call.jsonArray call.pkgName) = _ :=
    generateDesktop_eq hne (by rwa [hname])
  rw [hname] at hdesktop hne
  rw [Call.step, onUpdateAppDesktopAndIcon, if_pos hstatus]
  simp only [hname, if_pos hne, updateDekstopAndIcon, hdesktop, if_true,
    generateIcon_eq hkeeps hne hnamed]

theorem step_uninstalls (hkeeps : KeepsHome home) (hnamed : Named call.pkgName)
    (h : call.uninstalls = true) : call.step home disk = { disk with
      applications := disk.applications.remove (desktopFile call.pkgName)
      icons := disk.icons.remove (pngFile call.pkgName) } := by
  have hstatus : call.status = 1 := by simpa [Call.uninstalls] using h
  rw [Call.step, onUpdateAppDesktopAndIcon, if_neg (by rw [hstatus]; decide), if_pos hstatus,
    removeDekstopAndIcon_eq hkeeps hnamed]

/-- Any other call does nothing. -/
theorem step_ignored (h : call.installs = false) (h' : call.uninstalls = false) :
    call.step home disk = disk := by
  have hstatus : ¬ call.status = 1 := by simpa [Call.uninstalls] using h'
  rw [Call.step, onUpdateAppDesktopAndIcon]
  by_cases hzero : call.status = 0
  · have hname : (getAppInfo call.jsonArray call.pkgName).pkgName = [] := by
      simpa [Call.installs, hzero] using h
    rw [if_pos hzero]
    exact if_neg (not_not_intro hname)
  · rw [if_neg hzero, if_neg hstatus]

theorem installs_or_uninstalls (call : Call) : call.installs = true ∨ call.uninstalls = true ∨
    call.installs = false ∧ call.uninstalls = false := by
  cases call.installs <;> cases call.uninstalls <;> simp

end Step

/-! ## A sequence of calls -/

section Run
variable {home : QString} {disk : Disk} {calls : List Call} {call : Call} {pkgName : QString}

theorem not_installs (h : call.uninstalls = true) : call.installs = false := by
  have hstatus : call.status = 1 := by simpa [Call.uninstalls] using h
  simp [Call.installs, hstatus]

end Run

/-! ## Uninstall undoes install -/

/-- No call in the sequence touches the files of another package, or anything
outside the two directories. -/
def Framed (home : QString) (disk : Disk) (calls : List Call) : Prop :=
  ∀ before call after, calls = before ++ call :: after →
    (∀ pkgName, pkgName ≠ call.pkgName →
      filesOf (call.step home (run home disk before)) pkgName =
        filesOf (run home disk before) pkgName) ∧
    (call.step home (run home disk before)).elsewhere = (run home disk before).elsewhere

end KmreManager.BackendWorker
