import Mathlib.Logic.Function.Basic
import KmreManager.Lib.Runs

/-! # How the container renders

kmre/wm/displaytypemanager.cpp. A manager decides once how the container is to
render, and sets the properties that the next container starts with. A manager
that starts beside a running container asks it by which module it allocates its
buffers. -/
namespace KmreManager.DisplayTypeManager

open Lib.Runs

inductive DisplayType
  | DISPLAY_TYPE_UNKNOWN
  | DISPLAY_TYPE_DRM
  | DISPLAY_TYPE_SW
  | DISPLAY_TYPE_EMUGL
deriving DecidableEq

open DisplayType

inductive GpuVendor
  | UNKNOWN_VGA
  | NVIDIA_VGA
  | AMD_VGA
  | INTEL_VGA
  | OTHER_VGA
deriving DecidableEq

abbrev Props := String → Option String

/-- What the preprocessor is told. -/
structure Build where
  amd64 : Bool
  UKUI_WAYLAND : Bool
deriving DecidableEq

structure NodeNumbers where
  primaryMajor : Int
  primaryMinor : Int
  renderMajor : Int
  renderMinor : Int
deriving DecidableEq

/-- What a manager finds of the graphics when it starts. -/
structure Machine where
  mIsDrmEnabled : Bool
  mCouldUsesDrmMode : Bool
  mCouldUseIntelGralloc : Bool
  gpuVendor : GpuVendor
  /-- `getDrmDeviceNodeNumber`, unless it fails -/
  nodes : Option NodeNumbers
  supportsOpenGLES31AEP : Bool
deriving DecidableEq

def mHasNoGPUAuthentication : Bool := false

/-- Group "display" of `.config/kmre/kmre.ini`. -/
structure Settings where
  display_type : String := ""
  use_intel_gralloc : Bool := false
  use_drm_gralloc : Bool := false
  detect_gles_31_aep : Bool := false
deriving DecidableEq

/-! ## The decision -/

def grallocType (grallocModule : String) : DisplayType :=
  if grallocModule = "drm" then DISPLAY_TYPE_DRM
  else if grallocModule = "gbm" then DISPLAY_TYPE_DRM
  else if grallocModule = "intel" then DISPLAY_TYPE_DRM
  else if grallocModule = "goldfish" then DISPLAY_TYPE_EMUGL
  else if grallocModule = "dri" then DISPLAY_TYPE_SW
  else DISPLAY_TYPE_UNKNOWN

/-- `GetPropOfContainer`: without a container, or the property, nothing. -/
def getProp (container : Option Props) (key : String) : String :=
  (container.bind fun p => p key).getD ""

def getDisplayTypeFromDBus (container : Option Props) : DisplayType :=
  grallocType (getProp container "ro.hardware.gralloc")

def getDisplayTypeFromSettings (s : Settings) : DisplayType :=
  if s.display_type = "drm" then DISPLAY_TYPE_DRM
  else if s.display_type = "emugl" then DISPLAY_TYPE_EMUGL
  else if s.display_type = "sw" then DISPLAY_TYPE_SW
  else DISPLAY_TYPE_UNKNOWN

def Machine.usesDrm (m : Machine) : Bool :=
  m.mIsDrmEnabled && (mHasNoGPUAuthentication || m.mCouldUsesDrmMode)

def getAccessableDisplayType (m : Machine) : List DisplayType :=
  DISPLAY_TYPE_EMUGL :: if m.usesDrm then [DISPLAY_TYPE_DRM] else []

def isDisplayTypeValid (m : Machine) (type : DisplayType) : Bool :=
  (getAccessableDisplayType m).contains type

/-- The type that `getDisplayType` decides on. -/
def decideType (m : Machine) (s : Settings) (container : Option Props) : DisplayType :=
  if m.usesDrm then
    if getDisplayTypeFromDBus container ≠ DISPLAY_TYPE_UNKNOWN then
      getDisplayTypeFromDBus container
    else if isDisplayTypeValid m (getDisplayTypeFromSettings s) then getDisplayTypeFromSettings s
    -- using 'drm' mode default
    else if getDisplayTypeFromSettings s = DISPLAY_TYPE_UNKNOWN then DISPLAY_TYPE_DRM
    else DISPLAY_TYPE_EMUGL
  else DISPLAY_TYPE_EMUGL

/-! ## The properties -/

def nodeProps : Option NodeNumbers → List (String × String)
  | some n =>
    if n.primaryMajor ≥ 0 ∧ n.primaryMinor ≥ 0 ∧ n.renderMajor ≥ 0 ∧ n.renderMinor ≥ 0 then
      [("ro.drm.primary.major", toString n.primaryMajor),
        ("ro.drm.primary.minor", toString n.primaryMinor),
        ("ro.drm.render.major", toString n.renderMajor),
        ("ro.drm.render.minor", toString n.renderMinor)]
    else []
  | none => []

def vendorProps (m : Machine) (s : Settings) (type : DisplayType) : List (String × String) :=
  if m.gpuVendor = .INTEL_VGA ∨ m.gpuVendor = .AMD_VGA then
    nodeProps m.nodes ++ [("ro.kmre.detect_gles_31_aep",
      if type = DISPLAY_TYPE_DRM ∧ m.supportsOpenGLES31AEP ∧ s.detect_gles_31_aep then "true"
      else "false")]
  else []

def drmGralloc (b : Build) (m : Machine) (s : Settings) : String :=
  if b.amd64 ∧ (m.mCouldUseIntelGralloc ∨ (m.gpuVendor = .INTEL_VGA ∧ s.use_intel_gralloc)) then
    "intel"
  else if s.use_drm_gralloc then "drm"
  else "gbm"

/-- Module names and switches of a type. -/
def typeProps (egl gralloc qemu post : String) : List (String × String) :=
  [("ro.hardware.egl", egl), ("ro.hardware.gralloc", gralloc), ("ro.kernel.qemu", qemu),
    ("ro.kernel.qemu.gles", qemu), ("sys.goldfish.post", post)]

def renderProps (b : Build) (m : Machine) (s : Settings) :
    DisplayType → List (String × String)
  | DISPLAY_TYPE_DRM =>
    typeProps "mesa" (drmGralloc b m s) "0" "false" ++
      if b.UKUI_WAYLAND then nodeProps m.nodes else []
  | DISPLAY_TYPE_EMUGL => typeProps "emulation" "goldfish" "1" "true"
  | DISPLAY_TYPE_SW => typeProps "swiftshader" "dri" "0" "false"
  | DISPLAY_TYPE_UNKNOWN => []

/-- What `updateDisplayType` passes to `SetDefaultPropOfContainer`, in order. -/
def props (b : Build) (m : Machine) (s : Settings) (type : DisplayType) :
    List (String × String) :=
  vendorProps m s type ++ renderProps b m s type

def setDefaultProps (p : Props) (settings : List (String × String)) : Props :=
  settings.foldl (fun p kv => Function.update p kv.1 (some kv.2)) p

/-! ## Managers and containers -/

structure Host where
  machine : Machine
  settings : Settings := {}
  mDisplayType : DisplayType := DISPLAY_TYPE_UNKNOWN
  oldDisplayType : DisplayType := DISPLAY_TYPE_UNKNOWN
  /-- the properties that the next container starts with -/
  defaults : Props := fun _ => none
  /-- the properties of the container that runs -/
  container : Option Props := none

def Host.updateDisplayType (b : Build) (h : Host) : Host :=
  if h.mDisplayType = DISPLAY_TYPE_UNKNOWN then h
  else if h.mDisplayType ≠ h.oldDisplayType then
    { h with
      oldDisplayType := h.mDisplayType
      defaults := setDefaultProps h.defaults (props b h.machine h.settings h.mDisplayType) }
  else h

def Host.getDisplayType (b : Build) (h : Host) : Host :=
  if h.mDisplayType ≠ DISPLAY_TYPE_UNKNOWN then h.updateDisplayType b
  else
    { h with mDisplayType := decideType h.machine h.settings h.container }.updateDisplayType b

inductive Action
  | getDisplayType
  | settingsChanged (s : Settings)
  | containerStarted
  | containerStopped
  | managerStarted (m : Machine)
deriving DecidableEq

def step (b : Build) (h : Host) : Action → Option Host
  | .getDisplayType => some (h.getDisplayType b)
  | .settingsChanged s => some { h with settings := s }
  | .containerStarted => some { h with container := some h.defaults }
  | .containerStopped => some { h with container := none }
  | .managerStarted m =>
    some { h with
      machine := m
      mDisplayType := DISPLAY_TYPE_UNKNOWN
      oldDisplayType := DISPLAY_TYPE_UNKNOWN }

/-- The properties of a container that renders in this way. -/
structure Renders (p : Props) (type : DisplayType) : Prop where
  egl : p "ro.hardware.egl" = some (if type = DISPLAY_TYPE_EMUGL then "emulation"
    else if type = DISPLAY_TYPE_SW then "swiftshader" else "mesa")
  gralloc : ∃ grallocModule, p "ro.hardware.gralloc" = some grallocModule ∧
    grallocType grallocModule = type
  qemu : p "ro.kernel.qemu" = some (if type = DISPLAY_TYPE_EMUGL then "1" else "0")
  gles : p "ro.kernel.qemu.gles" = some (if type = DISPLAY_TYPE_EMUGL then "1" else "0")
  post : p "sys.goldfish.post" = some (if type = DISPLAY_TYPE_EMUGL then "true" else "false")

/-- The container renders as the manager says. -/
def Agreed (h : Host) : Prop :=
  h.mDisplayType ≠ DISPLAY_TYPE_UNKNOWN → ∀ p, h.container = some p → Renders p h.mDisplayType

/-- A manager that decides beside a running container can take over what the
container does. -/
def TakesOver (h : Host) : Action → Prop
  | .getDisplayType => h.mDisplayType = DISPLAY_TYPE_UNKNOWN → h.container.isSome →
      getDisplayTypeFromDBus h.container ≠ DISPLAY_TYPE_UNKNOWN ∧
        (h.machine.usesDrm ∨ getDisplayTypeFromDBus h.container = DISPLAY_TYPE_EMUGL)
  | _ => True

variable {b : Build} {h h' : Host} {p q : Props} {type : DisplayType} {key : String}
  {settings : List (String × String)}

instance : ∀ (h : Host) (a : Action), Decidable (TakesOver h a)
  | _, .getDisplayType =>
    inferInstanceAs (Decidable (_ = _ → _ = true → _ ≠ _ ∧ (_ = true ∨ _ = _)))
  | _, .settingsChanged _ | _, .containerStarted | _, .containerStopped | _, .managerStarted _ =>
    .isTrue trivial

/-! ## What the next container starts with -/

theorem setDefaultProps_append (p : Props) (as bs : List (String × String)) :
    setDefaultProps p (as ++ bs) = setDefaultProps (setDefaultProps p as) bs :=
  List.foldl_append

theorem setDefaultProps_other (hkey : key ∉ settings.map Prod.fst) :
    setDefaultProps p settings key = p key := by
  induction settings generalizing p with
  | nil => rfl
  | cons kv settings ih =>
    rw [List.map_cons, List.mem_cons, not_or] at hkey
    have hrest : setDefaultProps p (kv :: settings) key =
        setDefaultProps (Function.update p kv.1 (some kv.2)) settings key := rfl
    rw [hrest, ih hkey.2, Function.update_of_ne hkey.1]

theorem renders_typeProps {egl gralloc qemu post : String} (htype : grallocType gralloc = type)
    (hegl : egl = if type = DISPLAY_TYPE_EMUGL then "emulation"
      else if type = DISPLAY_TYPE_SW then "swiftshader" else "mesa")
    (hqemu : qemu = if type = DISPLAY_TYPE_EMUGL then "1" else "0")
    (hpost : post = if type = DISPLAY_TYPE_EMUGL then "true" else "false") :
    Renders (setDefaultProps p (typeProps egl gralloc qemu post)) type := by
  subst hegl hqemu hpost
  refine ⟨?_, ⟨gralloc, ?_, htype⟩, ?_, ?_, ?_⟩ <;>
    simp [setDefaultProps, typeProps]

/-- The node numbers do not touch how the container renders. -/
theorem Renders.nodes {nodes : Option NodeNumbers} (hp : Renders p type) :
    Renders (setDefaultProps p (nodeProps nodes)) type := by
  have hother : ∀ key, key ∉ ["ro.drm.primary.major", "ro.drm.primary.minor",
      "ro.drm.render.major", "ro.drm.render.minor"] →
        setDefaultProps p (nodeProps nodes) key = p key := fun key hkey => by
    refine setDefaultProps_other fun hmem => hkey ?_
    unfold nodeProps at hmem
    split at hmem
    · split at hmem
      · exact hmem
      · cases hmem
    · cases hmem
  refine ⟨?_, ?_, ?_, ?_, ?_⟩
  · rw [hother _ (by decide)]
    exact hp.egl
  · rw [hother _ (by decide)]
    exact hp.gralloc
  · rw [hother _ (by decide)]
    exact hp.qemu
  · rw [hother _ (by decide)]
    exact hp.gles
  · rw [hother _ (by decide)]
    exact hp.post

theorem drmGralloc_type (b : Build) (m : Machine) (s : Settings) :
    grallocType (drmGralloc b m s) = DISPLAY_TYPE_DRM := by
  unfold drmGralloc
  split
  · decide
  · split <;> decide

/-- The five properties of a type are set together, and it is read back from
them. -/
theorem renders_props (m : Machine) (s : Settings) (htype : type ≠ DISPLAY_TYPE_UNKNOWN) :
    Renders (setDefaultProps p (props b m s type)) type := by
  rw [props, setDefaultProps_append]
  cases type with
  | DISPLAY_TYPE_UNKNOWN => exact absurd rfl htype
  | DISPLAY_TYPE_DRM =>
    rw [renderProps, setDefaultProps_append]
    have hdrm : ∀ p : Props, Renders
        (setDefaultProps p (typeProps "mesa" (drmGralloc b m s) "0" "false")) DISPLAY_TYPE_DRM :=
      fun p => renders_typeProps (drmGralloc_type b m s) rfl rfl rfl
    split
    · exact (hdrm _).nodes
    · exact hdrm _
  | DISPLAY_TYPE_SW => exact renders_typeProps (by decide) rfl rfl rfl
  | DISPLAY_TYPE_EMUGL => exact renders_typeProps (by decide) rfl rfl rfl

theorem Renders.fromDBus (hp : Renders p type) : getDisplayTypeFromDBus (some p) = type := by
  obtain ⟨grallocModule, hgralloc, htype⟩ := hp.gralloc
  have hprop : getProp (some p) "ro.hardware.gralloc" = grallocModule := by
    rw [getProp, Option.bind_some, hgralloc, Option.getD_some]
  rw [getDisplayTypeFromDBus, hprop, htype]

theorem decideType_known (m : Machine) (s : Settings) (container : Option Props) :
    decideType m s container ≠ DISPLAY_TYPE_UNKNOWN := by
  unfold decideType
  split
  · split
    next hbus => exact hbus
    next =>
      split
      next hvalid =>
        intro hcontra
        rw [hcontra] at hvalid
        unfold isDisplayTypeValid getAccessableDisplayType at hvalid
        split at hvalid <;> simp at hvalid
      next => split <;> simp
  · simp

/-! ## Runs -/

/-- All containers but the unknown ones render as their buffers say, and the
next one as the manager says. -/
structure Sound (h : Host) : Prop where
  published : h.oldDisplayType = h.mDisplayType
  next : h.mDisplayType ≠ DISPLAY_TYPE_UNKNOWN → Renders h.defaults h.mDisplayType
  known : getDisplayTypeFromDBus (some h.defaults) ≠ DISPLAY_TYPE_UNKNOWN →
    Renders h.defaults (getDisplayTypeFromDBus (some h.defaults))
  running : ∀ p, h.container = some p → getDisplayTypeFromDBus (some p) ≠ DISPLAY_TYPE_UNKNOWN →
    Renders p (getDisplayTypeFromDBus (some p))
  agreed : Agreed h

/-- A decision beside a container that can be taken over agrees with it, and no
other one does. -/
theorem decideType_iff {m : Machine} {s : Settings}
    (hp : getDisplayTypeFromDBus (some p) ≠ DISPLAY_TYPE_UNKNOWN →
      Renders p (getDisplayTypeFromDBus (some p))) :
    Renders p (decideType m s (some p)) ↔
      getDisplayTypeFromDBus (some p) ≠ DISPLAY_TYPE_UNKNOWN ∧
        (m.usesDrm ∨ getDisplayTypeFromDBus (some p) = DISPLAY_TYPE_EMUGL) := by
  constructor
  · intro hrenders
    have hread := hrenders.fromDBus
    have hknown := decideType_known m s (some p)
    rw [← hread] at hknown
    refine ⟨hknown, ?_⟩
    by_cases husable : m.usesDrm
    · exact .inl husable
    · rw [decideType, if_neg husable] at hread
      exact .inr hread
  · rintro ⟨hknown, husable | hemugl⟩
    · rw [decideType, if_pos husable, if_pos hknown]
      exact hp hknown
    · have htype : decideType m s (some p) = DISPLAY_TYPE_EMUGL := by
        by_cases husable : m.usesDrm
        · rw [decideType, if_pos husable, if_pos hknown, hemugl]
        · rw [decideType, if_neg husable]
      rw [htype]
      exact hemugl ▸ hp hknown

/-- **Step lemma.** -/
theorem step_sound {a : Action} (hh : Sound h) (ha : step b h a = some h') :
    (TakesOver h a ∧ Sound h') ∨ (¬ TakesOver h a ∧ ¬ Agreed h') := by
  cases a with
  | getDisplayType =>
    obtain rfl := Option.some.inj ha
    by_cases hdecided : h.mDisplayType = DISPLAY_TYPE_UNKNOWN
    · have htype := decideType_known h.machine h.settings h.container
      have hnew : h.getDisplayType b =
          { h with
            mDisplayType := decideType h.machine h.settings h.container
            oldDisplayType := decideType h.machine h.settings h.container
            defaults := setDefaultProps h.defaults
              (props b h.machine h.settings (decideType h.machine h.settings h.container)) } := by
        rw [Host.getDisplayType, if_neg (not_not.mpr hdecided), Host.updateDisplayType,
          if_neg htype, if_pos]
        rw [hh.published, hdecided]
        exact htype
      have hdefaults := renders_props (b := b) (p := h.defaults) h.machine h.settings htype
      have hsound : Agreed (h.getDisplayType b) → Sound (h.getDisplayType b) := fun hagreed => by
        rw [hnew] at hagreed ⊢
        refine ⟨rfl, fun _ => hdefaults, fun _ => ?_, hh.running, hagreed⟩
        dsimp only
        rw [hdefaults.fromDBus]
        exact hdefaults
      have hiff : Agreed (h.getDisplayType b) ↔ TakesOver h .getDisplayType := by
        rw [hnew]
        cases hcontainer : h.container with
        | none => simp [Agreed, TakesOver, hcontainer]
        | some p =>
          have hp := decideType_iff (m := h.machine) (s := h.settings) (hh.running p hcontainer)
          rw [hcontainer] at htype
          simp only [Agreed, TakesOver, hcontainer, ← hp]
          constructor
          · exact fun hagreed _ _ => hagreed htype p rfl
          · intro htakes _ q hq
            obtain rfl := Option.some.inj hq
            exact htakes hdecided rfl
      by_cases htakes : TakesOver h .getDisplayType
      · exact .inl ⟨htakes, hsound (hiff.mpr htakes)⟩
      · exact .inr ⟨htakes, fun hagreed => htakes (hiff.mp hagreed)⟩
    · have hsame : h.getDisplayType b = h := by
        rw [Host.getDisplayType, if_pos hdecided, Host.updateDisplayType, if_neg hdecided, if_neg]
        exact not_not.mpr hh.published.symm
      refine .inl ⟨fun hcontra => absurd hcontra hdecided, ?_⟩
      rw [hsame]
      exact hh
  | settingsChanged s =>
    obtain rfl := Option.some.inj ha
    exact .inl ⟨trivial, hh.published, hh.next, hh.known, hh.running, hh.agreed⟩
  | containerStarted =>
    obtain rfl := Option.some.inj ha
    refine .inl ⟨trivial, hh.published, hh.next, hh.known, fun p hp => ?_, fun hknown p hp => ?_⟩
    · obtain rfl := Option.some.inj hp
      exact hh.known
    · obtain rfl := Option.some.inj hp
      exact hh.next hknown
  | containerStopped =>
    obtain rfl := Option.some.inj ha
    have hno : ∀ p, (none : Option Props) ≠ some p := fun p => (Option.some_ne_none p).symm
    exact .inl ⟨trivial, hh.published, hh.next, hh.known, fun p hp => absurd hp (hno p),
      fun _ p hp => absurd hp (hno p)⟩
  | managerStarted m =>
    obtain rfl := Option.some.inj ha
    exact .inl ⟨trivial, rfl, fun hcontra => absurd rfl hcontra, hh.known, hh.running,
      fun hcontra => absurd rfl hcontra⟩

/-- **The manager tells how the container renders.** Over any order of requests,
changed settings, and containers and managers that start and stop, each
container renders as the manager says that runs beside it, exactly if every
manager that decides beside a container has a type to read back from it, and
either may use DRM or the container does not. -/
theorem agreed_iff {m : Machine} {s : Settings} {actions : List Action}
    (hrun : run (step b) { machine := m, settings := s } actions = some h) :
    Guarded (step b) TakesOver { machine := m, settings := s } actions ↔
      ∀ before h, before <+: actions →
        run (step b) { machine := m, settings := s } before = some h → Agreed h := by
  refine Guarded.iff_of_step (I := Sound) (fun _ hh => hh.agreed) (fun _ _ _ => step_sound) ?_ hrun
  have hnone : getDisplayTypeFromDBus (some fun _ => none) = DISPLAY_TYPE_UNKNOWN := by decide
  exact ⟨rfl, fun hcontra => absurd rfl hcontra, fun hcontra => absurd hnone hcontra,
    fun p hp => absurd hp (Option.some_ne_none p).symm, fun hcontra => absurd rfl hcontra⟩

/-- A manager is restarted while the container runs that it has prepared. -/
def restarted (m : Machine) : List Action :=
  [.getDisplayType, .containerStarted, .managerStarted m, .settingsChanged { display_type := "sw" },
    .getDisplayType]

def intel : Machine where
  mIsDrmEnabled := true
  mCouldUsesDrmMode := true
  mCouldUseIntelGralloc := false
  gpuVendor := .INTEL_VGA
  nodes := some ⟨226, 0, 226, 128⟩
  supportsOpenGLES31AEP := true

theorem restarted_agreed : ∃ h, run (step ⟨true, false⟩) { machine := intel } (restarted intel) =
    some h ∧ h.mDisplayType = DISPLAY_TYPE_DRM ∧ Agreed h := by
  have hend : (run (step ⟨true, false⟩) { machine := intel } (restarted intel)).map
      Host.mDisplayType = some DISPLAY_TYPE_DRM := by decide +kernel
  obtain ⟨h, hrun, hh⟩ := Option.map_eq_some_iff.mp hend
  exact ⟨h, hrun, hh,
    (agreed_iff hrun).mp (by decide +kernel) (restarted intel) h (List.prefix_refl _) hrun⟩

end KmreManager.DisplayTypeManager
