import KmreManager.BackendWorker
import KmreManager.Lib.PosixShell

/-! # The commands that edit an icon

`generateIcon` hands six command strings to `system`, each with the path of the
icon pasted after a quoted script. The path is made of the home directory and
the name of the package. -/
namespace KmreManager.BackendWorker

open KmreManager.Lib.PosixShell

/-- What stands between the lines of `readline` in the source. -/
def indent : QString := List.replicate 36 ' '

def readlineLines : List QString :=
  ["<g id=\"移动数据角标_复制\">".toList,
    "<g opacity=\"0.05\"><circle cx=\"80\" cy=\"80\" r=\"15\"/></g>".toList,
    "<g opacity=\"0.08\"><circle cx=\"80\" cy=\"80\" r=\"15.33\"/></g>".toList,
    "<g opacity=\"0.08\"><circle cx=\"80\" cy=\"80\" r=\"15.67\"/></g>".toList,
    "<g opacity=\"0.08\"><circle cx=\"80\" cy=\"80\" r=\"16\"/></g>".toList,
    "<circle cx=\"80\" cy=\"80\" r=\"15\" fill=\"#fff\"/>".toList,
    "<path d=\"M83.94,72A1.05,1.05,0,0,1,85,73.06V86.94A1.05,1.05,0,0,1,83.94,88".toList ++
      "H76.06A1.05,1.05,0,0,1,75,86.94V73.06A1.05,1.05,0,0,1,76.06,72h7.88m0-1H76.06".toList ++
      "A2.06,2.06,0,0,0,74,73.06V86.94A2.06,2.06,0,0,0,76.06,89h7.88".toList ++
      "A2.06,2.06,0,0,0,86,86.94V73.06A2.06,2.06,0,0,0,83.94,71Z\" fill=\"#575757\"/>".toList,
    "<circle cx=\"80\" cy=\"85\" r=\"1\" fill=\"#575757\"/></g>".toList]

def readline : QString := indent.intercalate readlineLines

/-- `cmd1` to `cmd6`. -/
def commands (linuxSvgPath : QString) : List QString :=
  [QString.arg (QString.arg "sed -i '$i %1' %2".toList readline) linuxSvgPath,
    QString.arg "sed -i 's/\"96\"/\"83\"/g' %1".toList linuxSvgPath,
    QString.arg "sed -i 's/\"128\"/\"83\"/g' %1".toList linuxSvgPath,
    QString.arg "sed -i 's/\"256\"/\"83\"/g' %1".toList linuxSvgPath,
    QString.arg "sed -i 's/viewBox=\"0 0 128 128\"/viewBox=\"0 0 96 96\"/g' %1".toList linuxSvgPath,
    QString.arg "sed -i 's/viewBox=\"0 0 256 256\"/viewBox=\"0 0 96 96\"/g' %1".toList linuxSvgPath]

/-- What `generateIcon` passes to `system`. -/
def systemCalls (home pkgName : QString) (containerIcon : ContainerIcon) : List QString :=
  if pkgName = [] then []
  else
    match containerIcon with
    | .missing | .broken => []
    | .image _ => commands (linuxSvgPath home pkgName)

/-- The scripts that `sed` is to run. -/
def scripts : List QString :=
  ["$i ".toList ++ readline,
    "s/\"96\"/\"83\"/g".toList,
    "s/\"128\"/\"83\"/g".toList,
    "s/\"256\"/\"83\"/g".toList,
    "s/viewBox=\"0 0 128 128\"/viewBox=\"0 0 96 96\"/g".toList,
    "s/viewBox=\"0 0 256 256\"/viewBox=\"0 0 96 96\"/g".toList]

/-- The shell takes every command string for one simple command: `sed -i` with
the script and the path. -/
def ShellSafe (home pkgName : QString) (containerIcon : ContainerIcon) : Prop :=
  (systemCalls home pkgName containerIcon).map simpleCommand = scripts.map fun script =>
    some ["sed".toList, "-i".toList, script, linuxSvgPath home pkgName]

/-! ## The path -/

/-- The lowest marker where the name is to replace `%2`. -/
def lowestMarker (home : QString) : Nat :=
  ((QString.pieces 0 home).filterMap QString.Piece.number).foldl min 2

/-- The home directory in the path. If its name has markers up to `%2`, those
are replaced, too. -/
def homeInPath (home pkgName : QString) : QString :=
  (QString.pieces 0 home).flatMap (QString.Piece.fill (lowestMarker home) pkgName)

/-- Names that need no quotes. -/
structure PlainPath (home pkgName : QString) : Prop where
  home_letters : ∀ c ∈ home, isOrdinary c = true
  name_letters : ∀ c ∈ pkgName, isOrdinary c = true
  start : ∀ c ∈ (homeInPath home pkgName).head?, c ≠ '#' ∧ c ≠ '~'
  home_pattern : isPattern (unquoted (homeInPath home pkgName)) = false
  name_pattern : isPattern (unquoted pkgName) = false

section Commands
variable {home pkgName path script : QString}

theorem iconsPath_eq (home : QString) : iconsPath home = home ++ "/.local/share/icons".toList := rfl

def svgFormat : QString := "/.local/share/icons/%2.svg".toList

theorem linuxSvgPath_arg (home pkgName : QString) :
    linuxSvgPath home pkgName = QString.arg (home ++ svgFormat) pkgName := by
  have hsvg : QString.arg "%1/%2.svg".toList (iconsPath home) =
      iconsPath home ++ "/%2.svg".toList := rfl
  have hformat : svgFormat = "/.local/share/icons".toList ++ "/%2.svg".toList := rfl
  rw [linuxSvgPath, hsvg, iconsPath_eq, hformat, List.append_assoc]

theorem pieces_svgFormat : QString.pieces 0 svgFormat =
    "/.local/share/icons/".toList.map .letter ++
      .marker "%2".toList 2 :: ".svg".toList.map .letter := by decide

theorem pieces_path (home : QString) : QString.pieces 0 (home ++ svgFormat) =
    QString.pieces 0 home ++ QString.pieces 0 svgFormat :=
  QString.pieces_append_slash (Nat.zero_le _)

theorem lowestMarker_spec (home : QString) :
    (lowestMarker home = 2 ∨ ∃ text, .marker text (lowestMarker home) ∈ QString.pieces 0 home) ∧
      ((QString.pieces 0 (home ++ svgFormat)).filterMap QString.Piece.number).min? =
        some (lowestMarker home) := by
  have hnumbers : (QString.pieces 0 (home ++ svgFormat)).filterMap QString.Piece.number =
      (QString.pieces 0 home).filterMap QString.Piece.number ++ [2] := by
    rw [pieces_path, List.filterMap_append, pieces_svgFormat]
    rfl
  have hmin : (2 :: (QString.pieces 0 home).filterMap QString.Piece.number).min? =
      some (lowestMarker home) := rfl
  obtain ⟨hmem, hle⟩ := List.min?_eq_some_iff.mp hmin
  constructor
  · rcases List.mem_cons.mp hmem with htwo | hmem
    · exact .inl htwo
    · obtain ⟨piece, hpiece, hnumber⟩ := List.mem_filterMap.mp hmem
      cases piece with
      | letter c => cases hnumber
      | marker text n =>
        obtain rfl := Option.some.inj hnumber
        exact .inr ⟨text, hpiece⟩
  · rw [hnumbers, List.min?_eq_some_iff]
    exact ⟨by simpa [or_comm] using hmem, fun b hb => hle b (by simpa [or_comm] using hb)⟩

theorem linuxSvgPath_eq (home pkgName : QString) : linuxSvgPath home pkgName =
    homeInPath home pkgName ++ "/.local/share/icons/".toList ++
      ((if lowestMarker home = 2 then pkgName else "%2".toList) ++ ".svg".toList) := by
  have hfill : (QString.pieces 0 svgFormat).flatMap
      (QString.Piece.fill (lowestMarker home) pkgName) = "/.local/share/icons/".toList ++
        ((if 2 = lowestMarker home then pkgName else "%2".toList) ++ ".svg".toList) := by
    rw [pieces_svgFormat]
    rfl
  rw [linuxSvgPath_arg, QString.arg, (lowestMarker_spec home).2]
  dsimp only
  rw [pieces_path, List.flatMap_append, hfill, homeInPath, List.append_assoc]
  simp only [eq_comm]

theorem ordinary_path : (∀ c ∈ linuxSvgPath home pkgName, isOrdinary c = true) ↔
    (∀ c ∈ home, isOrdinary c = true) ∧ ∀ c ∈ pkgName, isOrdinary c = true := by
  have hmarker : ∀ c, QString.isMarkerChar c = true → isOrdinary c = true := by
    intro c hc
    rw [isOrdinary_iff_notMem]
    intro hmem
    have hall : meaningful.all (fun c => !QString.isMarkerChar c) = true := rfl
    simpa [hc] using List.all_eq_true.mp hall c hmem
  have hformat : ∀ c ∈ svgFormat, isOrdinary c = true := by
    have hall : svgFormat.all isOrdinary = true := rfl
    exact List.all_eq_true.mp hall
  have hplace : ∃ text,
      .marker text (lowestMarker home) ∈ QString.pieces 0 (home ++ svgFormat) := by
    rw [pieces_path, pieces_svgFormat]
    rcases (lowestMarker_spec home).1 with htwo | ⟨text, htext⟩
    · exact ⟨"%2".toList, by simp [htwo]⟩
    · exact ⟨text, List.mem_append_left _ htext⟩
  rw [linuxSvgPath_arg, QString.arg, (lowestMarker_spec home).2]
  dsimp only
  rw [QString.forall_mem_fill hmarker, List.forall_mem_append]
  constructor
  · intro h
    exact ⟨h.1.1, h.2 hplace⟩
  · intro h
    exact ⟨⟨h.1, hformat⟩, fun _ => h.2⟩

/-- A marker of the home directory takes the name in. -/
theorem isPattern_homeInPath (h : lowestMarker home ≠ 2)
    (hname : isPattern (unquoted pkgName) = true) :
    isPattern (unquoted (homeInPath home pkgName)) = true := by
  obtain ⟨text, htext⟩ := (lowestMarker_spec home).1.resolve_left h
  obtain ⟨before, after, hpieces⟩ := List.append_of_mem htext
  rw [homeInPath, hpieces, List.flatMap_append, List.flatMap_cons, QString.Piece.fill, if_pos rfl,
    unquoted, List.map_append, List.map_append]
  exact isPattern_append_right (isPattern_append_left hname)

theorem isPattern_path : isPattern (unquoted (linuxSvgPath home pkgName)) =
    (isPattern (unquoted (homeInPath home pkgName)) || isPattern (unquoted pkgName)) := by
  have hdirs : ∀ name : QString, isPattern (unquoted ("/.local/share/icons/".toList ++ name)) =
      isPattern (unquoted name) := fun name => rfl
  have hsuffix : ∀ name : QString, isPattern (unquoted (name ++ ".svg".toList)) =
      isPattern (unquoted name) := fun name => by
    have hcloses : closes (unquoted ".svg".toList) = false := rfl
    have hsvg : isPattern (unquoted ".svg".toList) = false := rfl
    rw [unquoted, List.map_append]
    exact (isPattern_append hcloses).trans (by rw [hsvg, Bool.or_false]; rfl)
  have hhome : ∀ name : QString,
      isPattern (unquoted (homeInPath home pkgName ++ ("/.local/share/icons/".toList ++ name))) =
        (isPattern (unquoted (homeInPath home pkgName)) || isPattern (unquoted name)) := by
    intro name
    rw [unquoted, List.map_append]
    refine (isPattern_append (closes_slash _)).trans ?_
    exact congrArg _ (hdirs name)
  rw [linuxSvgPath_eq, List.append_assoc, hhome, hsuffix]
  split
  · rfl
  · rename_i hlow
    have htwo : isPattern (unquoted "%2".toList) = false := rfl
    rw [htwo, Bool.or_false]
    cases hname : isPattern (unquoted pkgName) with
    | false => rw [Bool.or_false]
    | true => rw [isPattern_homeInPath hlow hname, Bool.or_true]

theorem bare_linuxSvgPath : Bare (linuxSvgPath home pkgName) ↔ PlainPath home pkgName := by
  have hhead : (∀ c ∈ (linuxSvgPath home pkgName).head?, c ≠ '#' ∧ c ≠ '~') ↔
      ∀ c ∈ (homeInPath home pkgName).head?, c ≠ '#' ∧ c ≠ '~' := by
    rw [linuxSvgPath_eq, List.append_assoc]
    cases homeInPath home pkgName with
    | nil => simp
    | cons c rest => simp
  have hne : linuxSvgPath home pkgName ≠ [] := by
    rw [linuxSvgPath_eq]
    simp
  constructor
  · intro h
    obtain ⟨hhome, hname⟩ := ordinary_path.mp h.ordinary
    obtain ⟨hhomePattern, hnamePattern⟩ := Bool.or_eq_false_iff.mp (isPattern_path ▸ h.pattern)
    exact ⟨hhome, hname, hhead.mp h.start, hhomePattern, hnamePattern⟩
  · intro h
    refine ⟨hne, ordinary_path.mpr ⟨h.home_letters, h.name_letters⟩, hhead.mpr h.start, ?_⟩
    rw [isPattern_path, h.home_pattern, h.name_pattern]
    rfl

/-- Without a percent sign the home directory stands in the path as it is. -/
theorem homeInPath_eq (h : '%' ∉ home) : homeInPath home pkgName = home := by
  have hpieces : QString.pieces 0 home = home.map .letter := by
    simpa [QString.pieces] using QString.pieces_append (t := []) h
  rw [homeInPath, hpieces, QString.fill_letters]

/-! ## The commands -/

/-- Up to the path. -/
def commandStart (script : QString) : QString :=
  "sed -i ".toList ++ '\x27' :: (script ++ "\x27 ".toList)

theorem commandStart_eq (script : QString) : commandStart script =
    "sed -i ".toList ++ '\x27' :: (script ++ "\x27 ".toList) := rfl

theorem not_mem_commandStart {c : Char} (hscript : c ∉ script) (hsed : c ∉ "sed -i ".toList)
    (hquote : c ≠ '\x27') : c ∉ commandStart script := by
  have hend : c ∉ "\x27 ".toList := by
    have hblank : c ≠ ' ' := by
      rintro rfl
      exact hsed (by decide)
    simp [hquote, hblank]
  rw [commandStart_eq, List.mem_append, List.mem_cons, List.mem_append]
  rintro (hc | hc | hc | hc)
  · exact hsed hc
  · exact hquote hc
  · exact hscript hc
  · exact hend hc

/-- Neither a place marker nor the end of a quoted word or a string. -/
def isScriptChar (c : Char) : Bool := c ≠ '%' && c ≠ '\x27' && c ≠ '\x00'

theorem all_intercalate {p : Char → Bool} {sep : QString} {lines : List QString}
    (hsep : sep.all p = true) (hlines : ∀ line ∈ lines, line.all p = true) :
    (sep.intercalate lines).all p = true := by
  induction lines with
  | nil => rfl
  | cons line lines ih =>
    obtain ⟨hline, hrest⟩ := List.forall_mem_cons.mp hlines
    cases lines with
    | nil => rwa [List.intercalate_singleton]
    | cons next lines =>
      rw [List.intercalate_cons_cons, List.all_append, List.all_append, hline, hsep, ih hrest]
      rfl

/-- The characters of a literal, without its encoding. -/
theorem all_ofList {p : Char → Bool} {l : List Char} (h : l.all p = true) :
    (String.ofList l).toList.all p = true := by
  rw [String.toList_ofList]
  exact h

theorem readline_script : readline.all isScriptChar = true := by
  refine all_intercalate ?_ ?_
  · rw [indent, List.all_replicate]
    decide
  · unfold readlineLines
    simp only [List.forall_mem_cons, List.not_mem_nil, false_imp_iff, implies_true, and_true,
      List.all_append, Bool.and_eq_true]
    refine ⟨?_, ?_, ?_, ?_, ?_, ?_, ⟨⟨⟨?_, ?_⟩, ?_⟩, ?_⟩, ?_⟩
    all_goals exact all_ofList rfl

theorem mem_scripts (h : script ∈ scripts) :
    '%' ∉ script ∧ '\x27' ∉ script ∧ '\x00' ∉ script := by
  have hall : script.all isScriptChar = true := by
    unfold scripts at h
    simp only [List.mem_cons, List.not_mem_nil, or_false] at h
    rcases h with rfl | rfl | rfl | rfl | rfl | rfl
    · rw [List.all_append, readline_script]
      decide
    · exact all_ofList rfl
    · exact all_ofList rfl
    · exact all_ofList rfl
    · exact all_ofList rfl
    · exact all_ofList rfl
  have hletters : ∀ c ∈ script, c ≠ '%' ∧ c ≠ '\x27' ∧ c ≠ '\x00' := by
    simpa [isScriptChar, and_assoc] using hall
  exact ⟨fun hmem => (hletters _ hmem).1 rfl, fun hmem => (hletters _ hmem).2.1 rfl,
    fun hmem => (hletters _ hmem).2.2 rfl⟩

/-- A format whose marker stands at its end. -/
theorem arg_format {marker format : QString} {n : Nat} (hscript : script ∈ scripts)
    (hformat : format = commandStart script ++ marker)
    (hmarker : QString.pieces 0 marker = [.marker marker n]) (path : QString) :
    QString.arg format path = commandStart script ++ path := by
  have hpercent : '%' ∉ commandStart script :=
    not_mem_commandStart (mem_scripts hscript).1 (by decide) (by decide)
  have hend : QString.pieces 0 (marker ++ []) =
      .marker marker n :: ([] : QString).map QString.Piece.letter := by
    rw [List.append_nil, hmarker, List.map_nil]
  have harg := QString.arg_marker (a := path) hpercent hend
  rw [hformat]
  simpa using harg

theorem arg_literal {format script : String} (hscript : script.toList ∈ scripts)
    (hformat : format = "sed -i \x27" ++ script ++ "\x27 %1") (path : QString) :
    QString.arg format.toList path = commandStart script.toList ++ path := by
  have hone : QString.pieces 0 "%1".toList = [.marker "%1".toList 1] := rfl
  refine arg_format hscript ?_ hone path
  rw [hformat, commandStart_eq, String.toList_append, String.toList_append]
  simp

theorem arg_readline (a : QString) : QString.arg "sed -i '$i %1' %2".toList a =
    commandStart ("$i ".toList ++ a) ++ "%2".toList := by
  have harg : QString.arg "sed -i '$i %1' %2".toList a =
      "sed -i '$i ".toList ++ (a ++ "' %2".toList) := rfl
  rw [harg, commandStart_eq]
  simp

theorem commands_eq (path : QString) :
    commands path = scripts.map fun script => commandStart script ++ path := by
  have htwo : QString.pieces 0 "%2".toList = [.marker "%2".toList 2] := rfl
  unfold commands scripts
  simp only [List.map_cons, List.map_nil, List.cons.injEq, and_true]
  refine ⟨?_, ?_, ?_, ?_, ?_, ?_⟩
  · exact arg_format (.head _) (arg_readline readline) htwo path
  · exact arg_literal (.tail _ (.head _)) rfl path
  · exact arg_literal (.tail _ (.tail _ (.head _))) rfl path
  · exact arg_literal (.tail _ (.tail _ (.tail _ (.head _)))) rfl path
  · exact arg_literal (.tail _ (.tail _ (.tail _ (.tail _ (.head _))))) rfl path
  · exact arg_literal (.tail _ (.tail _ (.tail _ (.tail _ (.tail _ (.head _)))))) rfl path

theorem scan_commandStart (h : '\x27' ∉ script) : scan (.bare none) (commandStart script) =
    some (.bare none, [.word (unquoted "sed".toList), .word (unquoted "-i".toList),
      .word (quoted script)]) := by
  have hstart : scan (.bare none) "sed -i ".toList = some (.bare none,
      [.word (unquoted "sed".toList), .word (unquoted "-i".toList)]) := rfl
  have hquote : step (.bare none) '\x27' = some (.single [], []) := rfl
  have hend : ∀ w, scan (.single w) "\x27 ".toList = some (.bare none, [.word w.reverse]) :=
    fun w => rfl
  rw [commandStart_eq, scan_append, hstart, Option.bind_some, scan, hquote, Option.bind_some,
    scan_append, scan_single h, Option.bind_some, List.append_nil, hend]
  simp

/-- A script of `sed` that is put between quotes. -/
theorem simpleCommand_sed (hscript : script ∈ scripts) :
    simpleCommand (commandStart script ++ path) =
      some ["sed".toList, "-i".toList, script, path] ↔ Bare path := by
  obtain ⟨-, hquote, hnul⟩ := mem_scripts hscript
  have hliterals : literals [.word (unquoted "sed".toList), .word (unquoted "-i".toList),
      .word (quoted script)] = some ["sed".toList, "-i".toList, script] := by
    have hsed : literal (.word (unquoted "sed".toList)) = some "sed".toList := rfl
    have hoption : literal (.word (unquoted "-i".toList)) = some "-i".toList := rfl
    rw [literals, hsed, Option.bind_some, literals, hoption, Option.bind_some, literals,
      literal_quoted, Option.bind_some]
    rfl
  have hstart : startsCommand ["sed".toList, "-i".toList, script] = true := by
    have hsed : startsCommand ["sed".toList] = true := rfl
    exact hsed
  have hnul' : '\x00' ∉ commandStart script :=
    not_mem_commandStart hnul (by decide) (by decide)
  exact simpleCommand_append_iff (scan_commandStart hquote) hnul' hliterals hstart

/-- **The commands.** Each is safe exactly if neither name needs quotes. -/
theorem icon_commands_safe_iff (home : QString) (svg : QString) (hne : pkgName ≠ []) :
    ShellSafe home pkgName (.image svg) ↔ PlainPath home pkgName := by
  rw [← bare_linuxSvgPath, ShellSafe, systemCalls, if_neg hne, commands_eq, List.map_map,
    List.map_inj_left]
  constructor
  · intro h
    obtain ⟨script, hscript⟩ : ∃ script, script ∈ scripts := ⟨_, .head _⟩
    exact (simpleCommand_sed hscript).mp (h script hscript)
  · intro h script hscript
    exact (simpleCommand_sed hscript).mpr h

end Commands

/-! ## Two users -/

theorem camera_icon_safe :
    ShellSafe "/home/kylin".toList "com.camera".toList (.image "<svg/>".toList) := by
  refine (icon_commands_safe_iff _ _ (by decide)).mpr ?_
  have hhome : homeInPath "/home/kylin".toList "com.camera".toList = "/home/kylin".toList :=
    homeInPath_eq (by decide)
  refine ⟨?_, ?_, ?_, ?_, by decide⟩
  · have hall : "/home/kylin".toList.all isOrdinary = true := rfl
    exact List.all_eq_true.mp hall
  · have hall : "com.camera".toList.all isOrdinary = true := rfl
    exact List.all_eq_true.mp hall
  · have hhead : "/home/kylin".toList.head? = some '/' := rfl
    rw [hhome, hhead]
    simp
  · rw [hhome]
    decide

/-- A user directory with a blank makes two arguments of the path. -/
theorem blank_home_not_safe :
    ¬ ShellSafe "/home/li ming".toList "com.camera".toList (.image "<svg/>".toList) := by
  intro h
  have hsecond : simpleCommand (QString.arg "sed -i 's/\"96\"/\"83\"/g' %1".toList
      (linuxSvgPath "/home/li ming".toList "com.camera".toList)) =
      some ["sed".toList, "-i".toList, "s/\"96\"/\"83\"/g".toList, "/home/li".toList,
        "ming/.local/share/icons/com.camera.svg".toList] := by
    decide +kernel
  rw [ShellSafe, systemCalls, if_neg (by decide)] at h
  have hrest := (List.cons.inj h).2
  have hcommand := (List.cons.inj hrest).1
  rw [hsecond] at hcommand
  have hlength := congrArg (Option.map List.length) hcommand
  revert hlength
  decide

end KmreManager.BackendWorker
