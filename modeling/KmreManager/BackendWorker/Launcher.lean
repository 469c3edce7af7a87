import Mathlib.Logic.Function.Basic
import KmreManager.BackendWorker.Uninstall

/-! # What the launcher shows

The desktop files stand for a map from the packages to the apps. An
installation and a removal change it at one package, and the renaming when the
container has booted changes all names at once. -/
namespace KmreManager.BackendWorker
open KmreManager.Lib

abbrev Launcher := QString → Option AppInfo

namespace Launcher

def install (l : Launcher) (appInfo : AppInfo) : Launcher :=
  Function.update l appInfo.pkgName (some appInfo)

def uninstall (l : Launcher) (pkgName : QString) : Launcher := Function.update l pkgName none

/-- An app that the container has no name for keeps its own. -/
def rename (l : Launcher) (appInfoList : List AppInfo) : Launcher := fun pkgName =>
  (l pkgName).map fun appInfo =>
    if appNameOf appInfoList pkgName = [] then appInfo
    else { appInfo with appName := appNameOf appInfoList pkgName }

end Launcher

/-- What the window service signals, with what the container answers then. -/
inductive Signal
  | updateAppStatus (call : Call)
  | containerEnvBooted (jsonArray : List AppInfo)
deriving DecidableEq

def Signal.step (home : QString) (disk : Disk) : Signal → Disk
  | .updateAppStatus call => call.step home disk
  | .containerEnvBooted jsonArray => updateAllAppNameInDesktop disk jsonArray

def Launcher.step (l : Launcher) : Signal → Launcher
  | .updateAppStatus call =>
    if call.installs then l.install (getAppInfo call.jsonArray call.pkgName)
    else if call.uninstalls then l.uninstall call.pkgName
    else l
  | .containerEnvBooted jsonArray => l.rename (getInstalledAppList jsonArray)

def plainApps (jsonArray : List AppInfo) : Prop :=
  ∀ appInfo ∈ jsonArray, appInfo.pkgName ≠ [] → appInfo.Plain

/-- The texts that the signal and the container give make one line each, and
packages one name. -/
def Signal.Plain : Signal → Prop
  | .updateAppStatus call => Named call.pkgName ∧ plainApps call.jsonArray
  | .containerEnvBooted jsonArray => plainApps jsonArray

/-- Each app has its desktop file, and there are no others of the kind. -/
structure Shows (home : QString) (l : Launcher) (disk : Disk) : Prop where
  plain : ∀ pkgName appInfo, l pkgName = some appInfo → appInfo.Plain ∧ appInfo.pkgName = pkgName
  file : ∀ pkgName, disk.applications.content (desktopFile pkgName) =
    (l pkgName).map (desktopEntry home)
  only : ∀ name, matchesFileType name = true → disk.applications.content name ≠ none →
    ∃ pkgName, name = desktopFile pkgName

section Launcher
variable {home pkgName name : QString} {l : Launcher} {disk : Disk} {appInfo : AppInfo}
  {jsonArray : List AppInfo} {icons : Directory QString QString} {signal : Signal}

theorem Shows.install (h : Shows home l disk) (hplain : appInfo.Plain) :
    Shows home (l.install appInfo) { disk with
      applications := disk.applications.write (desktopFile appInfo.pkgName)
        (desktopEntry home appInfo)
      icons } := by
  refine ⟨fun pkgName a ha => ?_, fun pkgName => ?_, fun name hmatch hname => ?_⟩
  · by_cases hpkg : pkgName = appInfo.pkgName
    · rw [Launcher.install, hpkg, Function.update_self] at ha
      obtain rfl := Option.some.inj ha
      exact ⟨hplain, hpkg.symm⟩
    · rw [Launcher.install, Function.update_of_ne hpkg] at ha
      exact h.plain pkgName a ha
  · by_cases hpkg : pkgName = appInfo.pkgName
    · rw [Launcher.install, hpkg, Function.update_self, Directory.content_write_self,
        Option.map_some]
    · rw [Launcher.install, Function.update_of_ne hpkg, ← h.file]
      exact Directory.content_write_ne fun hfile => hpkg (desktopFile_inj hfile)
  · by_cases hfile : name = desktopFile appInfo.pkgName
    · exact ⟨appInfo.pkgName, hfile⟩
    · rw [Directory.content_write_ne hfile] at hname
      exact h.only name hmatch hname

theorem Shows.uninstall (h : Shows home l disk) (pkgName : QString) :
    Shows home (l.uninstall pkgName) { disk with
      applications := disk.applications.remove (desktopFile pkgName)
      icons } := by
  refine ⟨fun q a ha => ?_, fun q => ?_, fun name hmatch hname => ?_⟩
  · by_cases hpkg : q = pkgName
    · rw [Launcher.uninstall, hpkg, Function.update_self] at ha
      cases ha
    · rw [Launcher.uninstall, Function.update_of_ne hpkg] at ha
      exact h.plain q a ha
  · by_cases hpkg : q = pkgName
    · rw [Launcher.uninstall, hpkg, Function.update_self, Directory.content_remove_self,
        Option.map_none]
    · rw [Launcher.uninstall, Function.update_of_ne hpkg, ← h.file]
      exact Directory.content_remove_ne fun hfile => hpkg (desktopFile_inj hfile)
  · by_cases hfile : name = desktopFile pkgName
    · exact ⟨pkgName, hfile⟩
    · rw [Directory.content_remove_ne hfile] at hname
      exact h.only name hmatch hname

theorem plainApps.listed (hplain : plainApps jsonArray) :
    plainApps (getInstalledAppList jsonArray) :=
  fun appInfo hmem => hplain appInfo (List.mem_of_mem_filter hmem)

/-- A name that the list has for a package is one line. -/
theorem plainApps.appNameOf (hplain : plainApps jsonArray) (hpkg : pkgName ≠ []) :
    OneLine (appNameOf jsonArray pkgName) := by
  unfold BackendWorker.appNameOf
  split
  next found hfind =>
    have hfound : found.pkgName = pkgName := by simpa using List.find?_some hfind
    exact (hplain found (List.mem_of_find?_eq_some hfind) (hfound ▸ hpkg)).appName
  next => decide

theorem Shows.rename (h : Shows home l disk) (hhome : OneLine home)
    (hplain : plainApps jsonArray) :
    Shows home (l.rename (getInstalledAppList jsonArray))
      (updateAllAppNameInDesktop disk jsonArray) := by
  refine ⟨fun pkgName a ha => ?_, fun pkgName => ?_, fun name hmatch hname => ?_⟩
  · obtain ⟨old, hold, hnew⟩ := Option.map_eq_some_iff.mp ha
    obtain ⟨hplainOld, hpkg⟩ := h.plain pkgName old hold
    subst hnew
    split
    · exact ⟨hplainOld, hpkg⟩
    · have hname := hplain.listed.appNameOf (hpkg ▸ hplainOld.nonempty)
      exact ⟨{ hplainOld with appName := hname }, hpkg⟩
  · rw [content_updateAll, if_pos (matchesFileType_desktopFile pkgName), h.file, Launcher.rename,
      Option.map_map, Option.map_map]
    cases happ : l pkgName with
    | none => rfl
    | some appInfo =>
      obtain ⟨hplainApp, rfl⟩ := h.plain pkgName appInfo happ
      rw [Option.map_some, Option.map_some, Function.comp_apply, Function.comp_apply,
        renamed_desktopEntry _ hhome hplainApp, apply_ite (desktopEntry home)]
  · refine h.only name hmatch fun hnone => hname ?_
    rw [content_updateAll, if_pos hmatch, hnone, Option.map_none]

theorem getAppInfo_plain (hplain : plainApps jsonArray)
    (hfound : (getAppInfo jsonArray pkgName).pkgName ≠ []) :
    (getAppInfo jsonArray pkgName).Plain := by
  unfold getAppInfo at hfound ⊢
  cases hfind : (getInstalledAppList jsonArray).find? fun appInfo => appInfo.pkgName = pkgName with
  | none =>
    rw [hfind] at hfound
    exact absurd rfl hfound
  | some found =>
    rw [hfind, Option.getD_some] at hfound
    rw [Option.getD_some]
    exact hplain.listed found (List.mem_of_find?_eq_some hfind) hfound

/-- **Step lemma.** -/
theorem Shows.step (h : Shows home l disk) (hhome : OneLine home) (hkeeps : KeepsHome home)
    (hplain : signal.Plain) :
    Shows home (l.step signal) (signal.step home disk) := by
  cases signal with
  | updateAppStatus call =>
    rw [Launcher.step, Signal.step]
    rcases installs_or_uninstalls call with hcall | hcall | ⟨hcall, hcall'⟩
    · have hfound : (getAppInfo call.jsonArray call.pkgName).pkgName ≠ [] := by
        simp only [Call.installs, Bool.and_eq_true, decide_eq_true_eq] at hcall
        exact hcall.2
      have hinstall : Shows home (l.install (getAppInfo call.jsonArray call.pkgName))
          { disk with
            applications := disk.applications.write
              (desktopFile (getAppInfo call.jsonArray call.pkgName).pkgName)
              (desktopEntry home (getAppInfo call.jsonArray call.pkgName))
            icons := iconsAfter disk.icons call.pkgName call.containerIcon } :=
        h.install (getAppInfo_plain hplain.2 hfound)
      rw [getAppInfo_pkgName hfound] at hinstall
      rw [if_pos hcall, step_installs hkeeps hplain.1 hcall]
      exact hinstall
    · rw [if_neg (by rw [not_installs hcall]; exact Bool.false_ne_true), if_pos hcall,
        step_uninstalls hkeeps hplain.1 hcall]
      exact h.uninstall call.pkgName
    · rw [if_neg (by rw [hcall]; exact Bool.false_ne_true),
        if_neg (by rw [hcall']; exact Bool.false_ne_true), step_ignored hcall hcall']
      exact h
  | containerEnvBooted jsonArray => exact h.rename hhome hplain

end Launcher

end KmreManager.BackendWorker
