import KmreManager.BackendWorker

/-! # Where the paths lead

Three functions build the paths of an app's files, and two of them with a
second `arg` on a text that holds the home path already. They agree if the home
path has no place marker up to `%2` and the package name is a name of a file. -/
namespace KmreManager.BackendWorker
open KmreManager.Lib

/-- A part of a file name. -/
def Named (pkgName : QString) : Prop := '/' ∉ pkgName ∧ '\x00' ∉ pkgName

instance (pkgName : QString) : Decidable (Named pkgName) := inferInstanceAs (Decidable (_ ∧ _))

/-- No `arg` for `%1` and `%2` replaces a part of the home path. -/
def KeepsHome (home : QString) : Prop := ∀ n ∈ QString.markers home, 2 < n

instance (home : QString) : Decidable (KeepsHome home) :=
  inferInstanceAs (Decidable (∀ n ∈ QString.markers home, 2 < n))

def desktopFile (pkgName : QString) : QString := "gxme-".toList ++ pkgName ++ ".desktop".toList

def svgFile (pkgName : QString) : QString := pkgName ++ ".svg".toList

def pngFile (pkgName : QString) : QString := pkgName ++ ".png".toList

section Place
variable {home dir name pkgName : QString}

theorem desktopFile_eq (pkgName : QString) :
    desktopFile pkgName = "gxme-".toList ++ pkgName ++ ".desktop".toList := rfl

theorem nameIn_append (hne : name ≠ []) (hname : Named name) :
    nameIn dir (dir ++ '/' :: name) = some name := by
  have hdrop : (dir ++ '/' :: name).drop (dir.length + 1) = name := by
    rw [← List.drop_drop, List.drop_left]
    rfl
  have hstart : (dir ++ "/".toList).isPrefixOf (dir ++ '/' :: name) = true :=
    List.isPrefixOf_iff_prefix.mpr ⟨name, by simp⟩
  simp only [nameIn, hdrop, hstart]
  exact if_pos ⟨trivial, hne, hname.1, hname.2⟩

theorem place_application (hne : name ≠ []) (hname : Named name) :
    place home (home ++ "/.local/share/applications".toList ++ '/' :: name) =
      .application name := by
  rw [place, nameIn_append hne hname]

theorem place_icon (hne : name ≠ []) (hname : Named name) :
    place home (home ++ "/.local/share/icons".toList ++ '/' :: name) = .icon name := by
  have happlication : nameIn (home ++ "/.local/share/applications".toList)
      (home ++ "/.local/share/icons".toList ++ '/' :: name) = none := by
    have hstart : (home ++ "/.local/share/applications".toList ++ "/".toList).isPrefixOf
        (home ++ "/.local/share/icons".toList ++ '/' :: name) = false := by
      rw [Bool.eq_false_iff, ne_eq, List.isPrefixOf_iff_prefix, List.append_assoc,
        List.append_assoc, List.prefix_append_right_inj]
      exact of_decide_eq_false rfl
    simp only [nameIn, hstart]
    exact if_neg fun h => Bool.false_ne_true h.1
  rw [place, happlication, nameIn_append hne hname]

theorem Named.append {a b : QString} (ha : Named a) (hb : Named b) : Named (a ++ b) :=
  ⟨fun h => (List.mem_append.mp h).elim ha.1 hb.1, fun h => (List.mem_append.mp h).elim ha.2 hb.2⟩

theorem place_desktopFile (hname : Named pkgName) :
    place home (home ++ "/.local/share/applications".toList ++ '/' :: desktopFile pkgName) =
      .application (desktopFile pkgName) := by
  have hstart : Named "gxme-".toList := by decide
  exact place_application (List.append_ne_nil_of_right_ne_nil _ (by decide))
    ((hstart.append hname).append (b := ".desktop".toList) (by decide))

theorem place_svgFile (hname : Named pkgName) :
    place home (home ++ "/.local/share/icons".toList ++ '/' :: svgFile pkgName) =
      .icon (svgFile pkgName) :=
  place_icon (by simp [svgFile]) (hname.append (b := ".svg".toList) (by decide))

theorem place_pngFile (hname : Named pkgName) :
    place home (home ++ "/.local/share/icons".toList ++ '/' :: pngFile pkgName) =
      .icon (pngFile pkgName) :=
  place_icon (by simp [pngFile]) (hname.append (b := ".png".toList) (by decide))

end Place

/-! ## The texts -/

section Texts
variable {home pkgName : QString}

theorem destDesktopFile_eq (home pkgName : QString) : destDesktopFile home pkgName =
    home ++ "/.local/share/applications".toList ++ '/' :: desktopFile pkgName := by
  have hdir : QString.arg "%1/.local/share/applications".toList home =
      home ++ "/.local/share/applications".toList := rfl
  have hfile : QString.arg "/gxme-%1.desktop".toList pkgName = '/' :: desktopFile pkgName := by
    have harg : QString.arg "/gxme-%1.desktop".toList pkgName =
        "/gxme-".toList ++ (pkgName ++ ".desktop".toList) := rfl
    rw [harg, desktopFile_eq]
    simp
  rw [destDesktopFile, hdir, hfile]

/-- A second `arg` on a text that starts with the home path. -/
theorem arg_home {before after : QString} (h : KeepsHome home) (hbefore : '%' ∉ before)
    (hafter : QString.pieces 0 ("%2".toList ++ after) =
      .marker "%2".toList 2 :: after.map .letter) (pkgName : QString) :
    QString.arg (home ++ '/' :: (before ++ ("%2".toList ++ after))) pkgName =
      home ++ '/' :: (before ++ (pkgName ++ after)) := by
  have hslash : '%' ∉ '/' :: before := by simpa using hbefore
  have htwo : 2 ∈ QString.markers ('/' :: (before ++ ("%2".toList ++ after))) := by
    rw [QString.markers, ← List.cons_append, QString.pieces_append hslash, hafter,
      List.filterMap_append]
    exact List.mem_append_right _ List.mem_cons_self
  rw [QString.arg_append_slash htwo h, ← List.cons_append, QString.arg_marker hslash hafter,
    List.cons_append]

theorem linuxSvgPath_keeps (h : KeepsHome home) : linuxSvgPath home pkgName =
    home ++ "/.local/share/icons".toList ++ '/' :: svgFile pkgName := by
  have hformat : QString.arg "%1/%2.svg".toList (iconsPath home) =
      home ++ '/' :: (".local/share/icons/".toList ++ ("%2".toList ++ ".svg".toList)) := by
    have hdir : iconsPath home = home ++ "/.local/share/icons".toList := rfl
    have harg : QString.arg "%1/%2.svg".toList (iconsPath home) =
        iconsPath home ++ "/%2.svg".toList := rfl
    rw [harg, hdir]
    simp
  rw [linuxSvgPath, hformat, arg_home h (by decide) (by decide), svgFile]
  simp

theorem iconFile_eq (h : KeepsHome home) :
    QString.arg (QString.arg "%1/.local/share/icons/%2.png".toList home) pkgName =
      home ++ "/.local/share/icons".toList ++ '/' :: pngFile pkgName := by
  have hformat : QString.arg "%1/.local/share/icons/%2.png".toList home =
      home ++ '/' :: (".local/share/icons/".toList ++ ("%2".toList ++ ".png".toList)) := rfl
  rw [hformat, arg_home h (by decide) (by decide), pngFile]
  simp

theorem removedDesktopFile_eq (h : KeepsHome home) : QString.arg
    (QString.arg "%1/.local/share/applications/gxme-%2.desktop".toList home) pkgName =
      home ++ "/.local/share/applications".toList ++ '/' :: desktopFile pkgName := by
  have hformat : QString.arg "%1/.local/share/applications/gxme-%2.desktop".toList home =
      home ++ '/' :: (".local/share/applications/gxme-".toList ++
        ("%2".toList ++ ".desktop".toList)) := rfl
  rw [hformat, arg_home h (by decide) (by decide), desktopFile_eq]
  simp

end Texts

/-! ## The files -/

section Files
variable {home pkgName path text : QString} {disk : Disk} {appInfo : AppInfo}
  {containerIcon : ContainerIcon}

theorem generateDesktop_eq (hne : appInfo.pkgName ≠ []) (hname : Named appInfo.pkgName) :
    generateDesktop home disk appInfo = ({ disk with
      applications := disk.applications.write (desktopFile appInfo.pkgName)
        (desktopEntry home appInfo) }, true) := by
  rw [generateDesktop, if_neg hne, destDesktopFile_eq, Disk.write, place_desktopFile hname]

/-- What an installation makes of the icons. -/
def iconsAfter (icons : Directory QString QString) (pkgName : QString) :
    ContainerIcon → Directory QString QString
  | .missing => icons
  | .broken => icons.remove (svgFile pkgName)
  | .image svg => (icons.remove (svgFile pkgName)).write (svgFile pkgName) svg

theorem generateIcon_eq (hkeeps : KeepsHome home) (hne : pkgName ≠ []) (hname : Named pkgName) :
    (generateIcon home disk pkgName containerIcon).1 =
      { disk with icons := iconsAfter disk.icons pkgName containerIcon } := by
  have hplace : place home (linuxSvgPath home pkgName) = .icon (svgFile pkgName) := by
    rw [linuxSvgPath_keeps hkeeps, place_svgFile hname]
  rw [generateIcon, if_neg hne]
  cases containerIcon with
  | missing => rfl
  | broken => simp [convertPngToSvg, iconsAfter, Disk.remove, hplace]
  | image svg => simp [convertPngToSvg, iconsAfter, Disk.remove, Disk.write, hplace]

theorem removeDekstopAndIcon_eq (hkeeps : KeepsHome home) (hname : Named pkgName) :
    removeDekstopAndIcon home disk pkgName = { disk with
      applications := disk.applications.remove (desktopFile pkgName)
      icons := disk.icons.remove (pngFile pkgName) } := by
  have hicon : ∀ disk : Disk, disk.remove home (QString.arg
      (QString.arg "%1/.local/share/icons/%2.png".toList home) pkgName) =
        { disk with icons := disk.icons.remove (pngFile pkgName) } := fun disk => by
    rw [iconFile_eq hkeeps, Disk.remove, place_pngFile hname]
  have hdesktop : ∀ disk : Disk, disk.remove home (QString.arg
      (QString.arg "%1/.local/share/applications/gxme-%2.desktop".toList home) pkgName) =
        { disk with applications := disk.applications.remove (desktopFile pkgName) } :=
      fun disk => by
    rw [removedDesktopFile_eq hkeeps, Disk.remove, place_desktopFile hname]
  rw [removeDekstopAndIcon, hicon, hdesktop]

end Files
end KmreManager.BackendWorker
