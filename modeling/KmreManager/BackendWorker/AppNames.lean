import KmreManager.BackendWorker.Paths

/-! # Renaming in place is generating again

The lines of a generated desktop file that `updateAllAppNameInDesktop` replaces
are those with the app's name, whatever the names and the version are; so what
it writes is what would have been generated for the new name. -/
namespace KmreManager.BackendWorker
open KmreManager.Lib

/-- No line break in a text that becomes part of a line. -/
def OneLine (text : QString) : Prop := '\n' ∉ text ∧ '\r' ∉ text

instance (text : QString) : Decidable (OneLine text) := inferInstanceAs (Decidable (_ ∧ _))

/-- An app whose desktop file is one that `generateDesktop` is meant to write. -/
structure AppInfo.Plain (appInfo : AppInfo) : Prop where
  nonempty : appInfo.pkgName ≠ []
  name : Named appInfo.pkgName
  pkgName : OneLine appInfo.pkgName
  appName : OneLine appInfo.appName
  version : OneLine appInfo.version

section Lines
variable {home : QString} {appInfo : AppInfo}

theorem OneLine.append {a b : QString} (ha : OneLine a) (hb : OneLine b) : OneLine (a ++ b) :=
  ⟨fun h => (List.mem_append.mp h).elim ha.1 hb.1, fun h => (List.mem_append.mp h).elim ha.2 hb.2⟩

theorem desktopLines_oneLine (hhome : OneLine home) (h : appInfo.Plain) :
    ∀ line ∈ desktopLines home appInfo, OneLine line := by
  have hicons : OneLine "/.local/share/icons/".toList := by decide
  have hicon := ((hhome.append hicons).append h.pkgName).append (b := ".svg".toList) (by decide)
  simp only [desktopLines, List.forall_mem_cons, List.append_assoc] at hicon ⊢
  refine ⟨by decide, by decide, by decide, by decide, by decide, by decide, by decide,
    .append (by decide) h.pkgName, .append (by decide) h.appName, .append (by decide) h.appName,
    .append (by decide) h.appName, .append (by decide) h.appName,
    .append (by decide) (h.pkgName.append (.append (by decide) h.version)),
    .append (by decide) hicon, by simp⟩

theorem renameLine_of_no_key {line : QString} (appName : QString)
    (h : ∀ key ∈ nameKeys, key.isPrefixOf line = false) : renameLine appName line = line := by
  have hnone : nameKeys.find? (fun key => key.isPrefixOf line) = none := by
    rw [List.find?_eq_none]
    exact fun key hkey => Bool.eq_false_iff.mp (h key hkey)
  rw [renameLine, hnone]

theorem not_isPrefixOf_append {key start : QString} (rest : QString)
    (h : key.isPrefixOf start = false ∧ start.isPrefixOf key = false) :
    key.isPrefixOf (start ++ rest) = false := by
  obtain ⟨hkeyStart, hstartKey⟩ := h
  rw [Bool.eq_false_iff, ne_eq, List.isPrefixOf_iff_prefix] at hkeyStart hstartKey ⊢
  intro hprefix
  rcases List.prefix_or_prefix_of_prefix hprefix (List.prefix_append start rest) with hp | hp
  · exact hkeyStart hp
  · exact hstartKey hp

/-- A line that starts with another text than a key. -/
theorem renameLine_of_start {start : QString} (appName rest : QString)
    (h : ∀ key ∈ nameKeys, key.isPrefixOf start = false ∧ start.isPrefixOf key = false) :
    renameLine appName (start ++ rest) = start ++ rest :=
  renameLine_of_no_key appName fun key hkey => not_isPrefixOf_append rest (h key hkey)

/-- A line that starts with a key: none of the keys is the start of another. -/
theorem renameLine_of_key {key : QString} (appName old : QString) (hkey : key ∈ nameKeys) :
    renameLine appName (key ++ old) = key ++ appName := by
  have hapart : ∀ k ∈ nameKeys, ∀ k' ∈ nameKeys, k ≠ k' →
      k.isPrefixOf k' = false ∧ k'.isPrefixOf k = false := by decide
  have hself : key.isPrefixOf (key ++ old) = true :=
    List.isPrefixOf_iff_prefix.mpr (List.prefix_append key old)
  obtain ⟨found, hfound⟩ := Option.isSome_iff_exists.mp
    (List.find?_isSome (p := fun k : QString => k.isPrefixOf (key ++ old)).mpr ⟨key, hkey, hself⟩)
  have hsame : found = key := by
    by_contra hne
    have hnot := not_isPrefixOf_append old
      (hapart found (List.mem_of_find?_eq_some hfound) key hkey hne)
    exact Bool.eq_false_iff.mp hnot
      (List.find?_some (p := fun k : QString => k.isPrefixOf (key ++ old)) hfound)
  rw [renameLine, hfound, hsame]

/-- Only the lines with the app's name change. -/
theorem map_renameLine (home appName : QString) (appInfo : AppInfo) :
    (desktopLines home appInfo).map (renameLine appName) =
      desktopLines home { appInfo with appName } := by
  have hfixed : ∀ line ∈ ["[Desktop Entry]".toList, "Terminal=false".toList,
      "Type=Application".toList, "StartupNotify=false".toList, "Keywords=Android;App;Apk".toList,
      "Categories=Android;App;Apk".toList, "X-GXDE-KMREAPP=true".toList],
      renameLine appName line = line := by
    have hno : ∀ line ∈ ["[Desktop Entry]".toList, "Terminal=false".toList,
        "Type=Application".toList, "StartupNotify=false".toList,
        "Keywords=Android;App;Apk".toList, "Categories=Android;App;Apk".toList,
        "X-GXDE-KMREAPP=true".toList], ∀ key ∈ nameKeys, key.isPrefixOf line = false := by decide
    exact fun line hline => renameLine_of_no_key appName (hno line hline)
  have hstarts : ∀ start ∈ ["X-GXDE-KMRE-PKGNAME=".toList, "Exec=/usr/bin/startapp ".toList,
      "Icon=".toList], ∀ rest, renameLine appName (start ++ rest) = start ++ rest := by
    have hno : ∀ start ∈ ["X-GXDE-KMRE-PKGNAME=".toList, "Exec=/usr/bin/startapp ".toList,
        "Icon=".toList], ∀ key ∈ nameKeys,
        key.isPrefixOf start = false ∧ start.isPrefixOf key = false := by decide
    exact fun start hstart rest => renameLine_of_start appName rest (hno start hstart)
  have hkeys : ∀ key ∈ nameKeys, renameLine appName (key ++ appInfo.appName) = key ++ appName :=
    fun key hkey => renameLine_of_key appName appInfo.appName hkey
  rw [List.forall_mem_cons, List.forall_mem_cons, List.forall_mem_cons] at hstarts
  obtain ⟨hpkg, hexec, hicon, _⟩ := hstarts
  unfold nameKeys at hkeys
  simp only [List.forall_mem_cons] at hfixed hkeys
  obtain ⟨h₁, h₂, h₃, h₄, h₅, h₆, h₇, _⟩ := hfixed
  obtain ⟨h₉, h₁₀, h₁₁, h₁₂, _⟩ := hkeys
  unfold desktopLines
  simp only [List.append_assoc, List.map_cons, List.map_nil, h₁, h₂, h₃, h₄, h₅, h₆, h₇, hpkg, h₉,
    h₁₀, h₁₁, h₁₂, hexec, hicon]

theorem renameText_desktopEntry (appName : QString) (hhome : OneLine home) (h : appInfo.Plain) :
    renameText appName (desktopEntry home appInfo) =
      desktopEntry home { appInfo with appName } := by
  have hlines := desktopLines_oneLine hhome h
  have hread : TextLines.readLines '\n' '\r' (desktopEntry home appInfo) =
      desktopLines home appInfo :=
    TextLines.readLines_unlines (fun line hline => (hlines line hline).1)
      (fun line hline => (hlines line hline).2) (by decide)
  have hnew : TextLines.unlines '\n' ((TextLines.readLines '\n' '\r'
      (desktopEntry home appInfo)).map (renameLine appName)) =
      desktopEntry home { appInfo with appName } := by
    rw [hread, map_renameLine, desktopEntry]
  have hne : desktopEntry home { appInfo with appName } ≠ [] := by
    rw [desktopEntry, ne_eq, TextLines.unlines_eq_nil]
    exact List.cons_ne_nil _ _
  rw [renameText, hnew]
  exact if_neg hne

end Lines

/-! ## The loop over the files -/

section Files
variable {home : QString} {appInfoList : List AppInfo} {applications : Directory QString QString}
  {name pkgName : QString}

theorem startsWithFolded_append (start rest : QString) :
    QString.startsWithFolded start (start ++ rest) = true := by
  rw [QString.startsWithFolded, List.isPrefixOf_iff_prefix, List.map_append]
  exact List.prefix_append _ _

theorem matchesFileType_desktopFile (pkgName : QString) :
    matchesFileType (desktopFile pkgName) = true := by
  rw [desktopFile_eq]
  unfold matchesFileType
  generalize ".desktop".toList = suffix
  generalize "gxme-".toList = start
  rw [List.reverse_append, startsWithFolded_append, List.append_assoc, startsWithFolded_append]
  simp only [Bool.true_and, decide_eq_true_eq, List.length_append]
  omega

/-- The package name that the loop takes from a file name. -/
def pkgNameOf (desktopFile : QString) : QString :=
  (desktopFile.take (desktopFile.length - ".desktop".toList.length)).drop "gxme-".toList.length

theorem pkgNameOf_desktopFile (pkgName : QString) : pkgNameOf (desktopFile pkgName) = pkgName := by
  rw [desktopFile_eq]
  unfold pkgNameOf
  generalize ".desktop".toList = suffix
  generalize "gxme-".toList = start
  rw [List.length_append, Nat.add_sub_cancel, List.take_left, List.drop_left]

theorem desktopFile_inj {a b : QString} (h : desktopFile a = desktopFile b) : a = b := by
  rw [← pkgNameOf_desktopFile a, h, pkgNameOf_desktopFile]

/-- The name that the list has for a package, empty if it has none. -/
def appNameOf (appInfoList : List AppInfo) (pkgName : QString) : QString :=
  match appInfoList.find? fun appInfo => appInfo.pkgName = pkgName with
  | some appInfo => appInfo.appName
  | none => []

/-- What a round of the loop makes of the file it is about. -/
def renamed (appInfoList : List AppInfo) (desktopFile text : QString) : QString :=
  let appName := appNameOf appInfoList (pkgNameOf desktopFile)
  if appName = [] then text else renameText appName text

theorem content_renameFile (m : QString) :
    (renameFile appInfoList applications name).content m =
      if m = name then (applications.content m).map (renamed appInfoList name)
      else applications.content m := by
  by_cases happ : appNameOf appInfoList (pkgNameOf name) = []
  · have hround : renameFile appInfoList applications name = applications := if_pos happ
    have hid : renamed appInfoList name = id := by
      funext text
      simp [renamed, happ]
    rw [hround, hid, Option.map_id, id_eq, ite_self]
  · have hround : renameFile appInfoList applications name = _ := if_neg happ
    have hre : renamed appInfoList name =
        renameText (appNameOf appInfoList (pkgNameOf name)) := by
      funext text
      simp [renamed, happ]
    rw [hround, hre]
    cases htext : applications.content name with
    | none =>
      by_cases hm : m = name
      · rw [if_pos hm, hm, htext, Option.map_none]
      · rw [if_neg hm]
    | some text =>
      by_cases hm : m = name
      · rw [if_pos hm, hm, Directory.content_write_self, htext, Option.map_some]
        rfl
      · rw [if_neg hm]
        exact Directory.content_write_ne hm

theorem content_foldl_renameFile {files : List QString} (hnodup : files.Nodup) (m : QString) :
    (files.foldl (renameFile appInfoList) applications).content m =
      if m ∈ files then (applications.content m).map (renamed appInfoList m)
      else applications.content m := by
  induction files generalizing applications with
  | nil => rfl
  | cons name files ih =>
    obtain ⟨hname, hfiles⟩ := List.nodup_cons.mp hnodup
    rw [List.foldl_cons, ih hfiles, content_renameFile]
    by_cases hm : m = name
    · subst hm
      simp [hname]
    · simp [hm]

/-- What becomes of each file. -/
theorem content_updateAll (disk : Disk) (jsonArray : List AppInfo) (m : QString) :
    (updateAllAppNameInDesktop disk jsonArray).applications.content m =
      if matchesFileType m then
        (disk.applications.content m).map (renamed (getInstalledAppList jsonArray) m)
      else disk.applications.content m := by
  have hnodup := disk.applications.nodup.filter matchesFileType
  rw [updateAllAppNameInDesktop, content_foldl_renameFile hnodup]
  simp only [List.mem_filter, disk.applications.mem_names]
  cases hm : disk.applications.content m <;> cases matchesFileType m <;> simp

end Files

/-! ## Generated files -/

/-- Every file that the loop takes has been written by `generateDesktop`. -/
def Generated (home : QString) (disk : Disk) : Prop :=
  ∀ name text, disk.applications.content name = some text → matchesFileType name = true →
    ∃ appInfo : AppInfo, appInfo.Plain ∧ name = desktopFile appInfo.pkgName ∧
      text = desktopEntry home appInfo

section Generated
variable {home : QString} {disk : Disk} {appInfo : AppInfo} {name : QString}

theorem generateDesktop_content (hplain : appInfo.Plain) (m : QString) :
    (generateDesktop home disk appInfo).1.applications.content m =
      if m = desktopFile appInfo.pkgName then some (desktopEntry home appInfo)
      else disk.applications.content m := by
  rw [generateDesktop_eq hplain.nonempty hplain.name]
  rfl

theorem generateDesktop_self {pkgName appName version : QString} (hne : pkgName ≠ [])
    (hname : Named pkgName) :
    (generateDesktop home disk ⟨pkgName, appName, version⟩).1.applications.content
      (desktopFile pkgName) = some (desktopEntry home ⟨pkgName, appName, version⟩) := by
  rw [generateDesktop_eq hne hname]
  exact Directory.content_write_self

/-- Each call adds a file of this kind. -/
theorem Generated.generateDesktop (h : Generated home disk) (hplain : appInfo.Plain) :
    Generated home (generateDesktop home disk appInfo).1 := by
  intro name text htext hmatch
  rw [generateDesktop_content hplain] at htext
  split at htext
  · rename_i hname
    exact ⟨appInfo, hplain, hname, (Option.some.inj htext).symm⟩
  · exact h name text htext hmatch

/-- Nothing else makes them: a set of generated files is such a disk. -/
theorem generated_foldl {apps : List AppInfo}
    (hnone : ∀ name, matchesFileType name = true → disk.applications.content name = none)
    (happs : ∀ appInfo ∈ apps, appInfo.Plain) :
    Generated home (apps.foldl (fun disk appInfo => (BackendWorker.generateDesktop home disk
      appInfo).1) disk) := by
  have hstart : Generated home disk := by
    intro name text htext hmatch
    rw [hnone name hmatch] at htext
    cases htext
  clear hnone
  induction apps generalizing disk with
  | nil => exact hstart
  | cons appInfo apps ih =>
    obtain ⟨hplain, happs⟩ := List.forall_mem_cons.mp happs
    exact ih happs (hstart.generateDesktop hplain)

theorem renamed_desktopEntry (appInfoList : List AppInfo) (hhome : OneLine home)
    (hplain : appInfo.Plain) :
    renamed appInfoList (desktopFile appInfo.pkgName) (desktopEntry home appInfo) =
      if appNameOf appInfoList appInfo.pkgName = [] then desktopEntry home appInfo
      else desktopEntry home
        { appInfo with appName := appNameOf appInfoList appInfo.pkgName } := by
  rw [renamed, pkgNameOf_desktopFile, renameText_desktopEntry _ hhome hplain]

theorem appNameOf_oneLine {appInfoList : List AppInfo}
    (h : ∀ appInfo ∈ appInfoList, OneLine appInfo.appName) (pkgName : QString) :
    OneLine (appNameOf appInfoList pkgName) := by
  unfold appNameOf
  split
  · rename_i found hfind
    exact h found (List.mem_of_find?_eq_some hfind)
  · decide

/-- Renaming twice is renaming once, for names without line breaks. -/
theorem renamed_renamed {appInfoList : List AppInfo} (hhome : OneLine home)
    (hplain : appInfo.Plain) (h : ∀ appInfo ∈ appInfoList, OneLine appInfo.appName) :
    renamed appInfoList (desktopFile appInfo.pkgName)
        (renamed appInfoList (desktopFile appInfo.pkgName) (desktopEntry home appInfo)) =
      renamed appInfoList (desktopFile appInfo.pkgName) (desktopEntry home appInfo) := by
  have honce := renamed_desktopEntry appInfoList hhome hplain
  by_cases happ : appNameOf appInfoList appInfo.pkgName = []
  · rw [if_pos happ] at honce
    rw [honce, honce]
  · rw [if_neg happ] at honce
    have hplain' : AppInfo.Plain
        { appInfo with appName := appNameOf appInfoList appInfo.pkgName } :=
      { hplain with appName := appNameOf_oneLine h appInfo.pkgName }
    have htwice := renamed_desktopEntry appInfoList hhome hplain'
    rw [if_neg happ] at htwice
    rw [honce, htwice]

end Generated

/-- Renaming in place makes of every generated desktop file whose package has a
name in the list what `generateDesktop` would write for this name, leaves every
other file alone, and done again changes nothing more. -/
theorem rename_eq_generate {home : QString} {disk : Disk} (jsonArray : List AppInfo)
    (hhome : OneLine home) (hgenerated : Generated home disk) :
    (∀ a : AppInfo, a.Plain →
      disk.applications.content (desktopFile a.pkgName) = some (desktopEntry home a) →
      ∀ a', (getInstalledAppList jsonArray).find? (fun b => b.pkgName = a.pkgName) = some a' →
        a'.appName ≠ [] →
          (updateAllAppNameInDesktop disk jsonArray).applications.content (desktopFile a.pkgName) =
            (generateDesktop home disk ⟨a.pkgName, a'.appName, a.version⟩).1.applications.content
              (desktopFile a.pkgName)) ∧
    (∀ name, (∀ pkgName a', name = desktopFile pkgName →
        (getInstalledAppList jsonArray).find? (fun b => b.pkgName = pkgName) = some a' →
          a'.appName = []) →
      (updateAllAppNameInDesktop disk jsonArray).applications.content name =
        disk.applications.content name) ∧
    (updateAllAppNameInDesktop disk jsonArray).icons = disk.icons ∧
    ((∀ a' ∈ getInstalledAppList jsonArray, OneLine a'.appName) →
      (updateAllAppNameInDesktop (updateAllAppNameInDesktop disk jsonArray)
          jsonArray).applications.content =
        (updateAllAppNameInDesktop disk jsonArray).applications.content) := by
  refine ⟨fun a hplain hfile a' hfind hname => ?_, fun name hother => ?_, rfl, fun hlist => ?_⟩
  · have happ : appNameOf (getInstalledAppList jsonArray) a.pkgName = a'.appName := by
      rw [appNameOf, hfind]
    rw [content_updateAll, if_pos (matchesFileType_desktopFile _), hfile, Option.map_some,
      renamed_desktopEntry _ hhome hplain, happ, if_neg hname,
      generateDesktop_self hplain.nonempty hplain.name]
  · rw [content_updateAll]
    by_cases hmatch : matchesFileType name = true
    · rw [if_pos hmatch]
      cases htext : disk.applications.content name with
      | none => rfl
      | some text =>
        obtain ⟨a, hplain, rfl, rfl⟩ := hgenerated name text htext hmatch
        have happ : appNameOf (getInstalledAppList jsonArray) a.pkgName = [] := by
          unfold appNameOf
          split
          · rename_i a' hfind
            exact hother a.pkgName a' rfl hfind
          · rfl
        rw [Option.map_some, renamed_desktopEntry _ hhome hplain, if_pos happ]
    · rw [if_neg hmatch]
  · funext name
    rw [content_updateAll, content_updateAll]
    by_cases hmatch : matchesFileType name = true
    · rw [if_pos hmatch, if_pos hmatch]
      cases htext : disk.applications.content name with
      | none => rfl
      | some text =>
        obtain ⟨a, hplain, rfl, rfl⟩ := hgenerated name text htext hmatch
        rw [Option.map_some, Option.map_some, renamed_renamed hhome hplain hlist]
    · rw [if_neg hmatch, if_neg hmatch]

/-! ## An app with a new name -/

def kylinHome : QString := "/home/kylin".toList

def noFiles : Disk := ⟨.empty, .empty, .empty⟩

def camera : AppInfo := ⟨"com.camera".toList, "Camera".toList, "1.2".toList⟩

/-- What the container lists after its language has changed; the name looks
like a line of the file. -/
def renamedCamera : AppInfo := ⟨"com.camera".toList, "Name=相机".toList, "1.3".toList⟩

theorem camera_plain : camera.Plain :=
  ⟨by decide, by decide, by decide, by decide, by decide⟩

theorem rename_eq_generate_camera :
    (updateAllAppNameInDesktop (generateDesktop kylinHome noFiles camera).1
        [renamedCamera]).applications.content (desktopFile camera.pkgName) =
      some (desktopEntry kylinHome ⟨camera.pkgName, renamedCamera.appName, camera.version⟩) ∧
    (updateAllAppNameInDesktop (updateAllAppNameInDesktop
        (generateDesktop kylinHome noFiles camera).1 [renamedCamera])
          [renamedCamera]).applications.content =
      (updateAllAppNameInDesktop (generateDesktop kylinHome noFiles camera).1
        [renamedCamera]).applications.content := by
  have hnone : Generated kylinHome noFiles := fun _ _ htext => by cases htext
  obtain ⟨hrenamed, _, _, htwice⟩ := rename_eq_generate [renamedCamera] (by decide)
    (hnone.generateDesktop camera_plain)
  have hcamera : ∀ disk appName version, (generateDesktop kylinHome disk
      ⟨camera.pkgName, appName, version⟩).1.applications.content (desktopFile camera.pkgName) =
        some (desktopEntry kylinHome ⟨camera.pkgName, appName, version⟩) := fun _ _ _ =>
    generateDesktop_self camera_plain.nonempty camera_plain.name
  have hfile := hrenamed camera camera_plain (hcamera noFiles camera.appName camera.version)
    renamedCamera (by decide) (by decide)
  exact ⟨hfile.trans (hcamera _ _ _), htwice (by decide)⟩

/-- A name of two lines; the second one is taken for a name when the file is
read again. -/
def brokenCamera : AppInfo := ⟨"com.camera".toList, "A\nName=B".toList, "1.3".toList⟩

theorem rename_twice_differs : ¬ ∀ (home : QString) (disk : Disk) (jsonArray : List AppInfo),
    OneLine home → Generated home disk →
      (updateAllAppNameInDesktop (updateAllAppNameInDesktop disk jsonArray)
          jsonArray).applications.content =
        (updateAllAppNameInDesktop disk jsonArray).applications.content := by
  intro hall
  have hnone : Generated kylinHome noFiles := fun _ _ htext => by cases htext
  have hsame := hall kylinHome (generateDesktop kylinHome noFiles camera).1 [brokenCamera]
    (by decide) (hnone.generateDesktop camera_plain)
  have hdiffer : (updateAllAppNameInDesktop (updateAllAppNameInDesktop
      (generateDesktop kylinHome noFiles camera).1 [brokenCamera])
        [brokenCamera]).applications.content (desktopFile camera.pkgName) ≠
      (updateAllAppNameInDesktop (generateDesktop kylinHome noFiles camera).1
        [brokenCamera]).applications.content (desktopFile camera.pkgName) := by decide +kernel
  exact hdiffer (congrFun hsame _)

end KmreManager.BackendWorker
