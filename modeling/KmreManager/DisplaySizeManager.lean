import KmreManager.Lib.Runs

/-! # Display sizes and densities

`DisplaySizeManager` keeps the sizes and densities of the window and of the
screen in static variables. Asking for the screen's size also publishes it,
with the density known by then, in the container's properties
`ro.kmre.physical_display.{width,height,density}`. -/
namespace KmreManager.DisplaySizeManager

open Lib.Runs

def DEFAULT_WINDOW_WIDTH : Int := 720
def DEFAULT_WINDOW_HEIGHT : Int := 1280
def DEFAULT_PHYSICAL_WIDTH : Int := 1920
def DEFAULT_PHYSICAL_HEIGHT : Int := 1080
def DEFAULT_DENSITY_320 : Int := 320
def DEFAULT_DENSITY_360 : Int := 360

structure QSize where
  width : Int
  height : Int
deriving DecidableEq

/-- A `qreal` is a rational here; what is proved below does not depend on how
products and quotients are rounded. -/
def qRound (d : Rat) : Int := (d + 1 / 2).floor

namespace QSize

def mul (s : QSize) (c : Rat) : QSize := ⟨qRound (s.width * c), qRound (s.height * c)⟩

def div (s : QSize) (c : Rat) : QSize := ⟨qRound (s.width / c), qRound (s.height / c)⟩

end QSize

structure QScreen where
  size : QSize
  devicePixelRatio : Rat

/-- An installed schema of the desktop's settings. -/
structure QGSettings where
  keys : List String
  toDouble : String → Rat

/-- What the manager reads of the desktop. -/
structure Desktop where
  primaryScreen : Option QScreen
  ukui : Option QGSettings
  deepin : Option QGSettings

/-- The section "window" of `/usr/share/kmre/kmre-display.ini`, where a key may
be missing. -/
structure WindowDisplayConf where
  window_density : Option Int
  physical_density : Option Int

/-- One value each of `ro.kmre.physical_display.width`, `.height` and `.density`. -/
structure PhysicalDisplay where
  width : Int
  height : Int
  density : Int
deriving DecidableEq

/-- The static variables, the desktop, and what was published so far. -/
structure State where
  mVirtualDisplaySize : QSize := ⟨0, 0⟩
  mPhysicalDisplaySize : QSize := ⟨0, 0⟩
  mVirtualDensity : Int := 0
  mPhysicalDensity : Int := 0
  mQemuDensity : Int := 0
  oldPhysicalDisplaySize : QSize := ⟨0, 0⟩
  desktop : Desktop
  published : List PhysicalDisplay := []

/-- The factor that one schema gives in place of `factor`. -/
def schemaFactor (key attr : String) (factor : Rat) : Option QGSettings → Rat
  | none => factor
  | some settings =>
    let factor := if key ∈ settings.keys then settings.toDouble attr else factor
    if factor ≤ 0 then 1 else factor

def getScreenScalingFactor (desktop : Desktop) (screen : QScreen) : Rat :=
  let kylin := schemaFactor "scalingFactor" "scaling-factor" screen.devicePixelRatio desktop.ukui
  schemaFactor "scale-factor" "scale-factor" kylin desktop.deepin

def calculateWindowDisplaySize (width height : Int) : QSize :=
  let screenSize : QSize := ⟨width, height⟩
  if screenSize ∈ [⟨1920, 1080⟩, ⟨1680, 1050⟩, ⟨1600, 900⟩, ⟨1440, 900⟩, ⟨1600, 1024⟩] then
    ⟨720, 1280⟩
  else if width = 1280 ∧ height = 1024 then ⟨720, 900⟩
  else if screenSize ∈ [⟨1366, 768⟩, ⟨1280, 960⟩, ⟨1280, 800⟩, ⟨1280, 720⟩, ⟨1440, 810⟩,
      ⟨1368, 768⟩, ⟨1360, 768⟩, ⟨1400, 900⟩] then ⟨540, 960⟩
  else if screenSize ∈ [⟨1024, 768⟩, ⟨1400, 1050⟩, ⟨1152, 864⟩] then ⟨540, 720⟩
  else if width < 1024 ∨ height < 720 then ⟨540, 960⟩
  else ⟨720, 1280⟩

/-- The screen's size as `getPhysicalDisplaySize` computes it: in pixels, scaled
back, and turned to portrait orientation. -/
def portraitSize (desktop : Desktop) : QSize :=
  let size := match desktop.primaryScreen with
    | none => ⟨DEFAULT_PHYSICAL_WIDTH, DEFAULT_PHYSICAL_HEIGHT⟩
    | some screen =>
      (screen.size.mul screen.devicePixelRatio).div (getScreenScalingFactor desktop screen)
  if size.width > size.height then ⟨size.height, size.width⟩ else size

namespace State

def updatePhysicalDisplaySize (s : State) : State :=
  if s.mPhysicalDisplaySize.width > 0 ∧ s.mPhysicalDisplaySize.height > 0 ∧
      s.mPhysicalDisplaySize ≠ s.oldPhysicalDisplaySize then
    { s with
      oldPhysicalDisplaySize := s.mPhysicalDisplaySize
      published := s.published ++
        [⟨s.mPhysicalDisplaySize.width, s.mPhysicalDisplaySize.height, s.mPhysicalDensity⟩] }
  else s

def getPhysicalDisplaySize (s : State) : QSize × State :=
  let s := { s with mPhysicalDisplaySize := portraitSize s.desktop }.updatePhysicalDisplaySize
  (s.mPhysicalDisplaySize, s)

def getPreferedWindowDisplaySize (s : State) : QSize × State :=
  let (phySize, s) := s.getPhysicalDisplaySize
  if phySize.width > 0 ∧ phySize.height > 0 then
    -- a portrait size is the monitor's height by its width
    let winSize := calculateWindowDisplaySize phySize.height phySize.width
    if winSize.width ≥ 720 ∧ winSize.height ≥ 1280 then
      (winSize, { s with mQemuDensity := 320 })
    else (winSize, { s with mQemuDensity := 240 })
  else (⟨DEFAULT_WINDOW_WIDTH, DEFAULT_WINDOW_HEIGHT⟩, { s with mQemuDensity := 320 })

def getWindowDisplaySize (s : State) : QSize × State :=
  let (winSize, s) := s.getPreferedWindowDisplaySize
  (winSize, { s with mVirtualDisplaySize := winSize })

/-- The density in the file, 0 if there is no file. -/
def confDensity (key : WindowDisplayConf → Option Int) : Option WindowDisplayConf → Int
  | none => 0
  | some conf =>
    let density := (key conf).getD DEFAULT_DENSITY_320
    if density < DEFAULT_DENSITY_320 then DEFAULT_DENSITY_320 else density

def getWindowDensity (conf : Option WindowDisplayConf) (s : State) : Int × State :=
  if s.mVirtualDensity > 0 then (s.mVirtualDensity, s)
  else
    let density := confDensity WindowDisplayConf.window_density conf
    let density := if density > 0 then density else DEFAULT_DENSITY_320
    (density, { s with mVirtualDensity := density })

def getPhysicalDensity (conf : Option WindowDisplayConf) (s : State) : Int × State :=
  if s.mPhysicalDensity > 0 then (s.mPhysicalDensity, s)
  else
    let density := confDensity WindowDisplayConf.physical_density conf
    if density > 0 then (density, { s with mPhysicalDensity := density })
    else
      let (phySize, s) := s.getPhysicalDisplaySize
      let density := if phySize.height = 3840 ∨ phySize.height = 2560 then DEFAULT_DENSITY_360
        else DEFAULT_DENSITY_320
      (density, { s with mPhysicalDensity := density })

def getQemuDensity (s : State) : Int := s.mQemuDensity

end State

/-- A public operation, or a change of the screen or of its settings. -/
inductive Op
  | getWindowDisplaySize
  | getPhysicalDisplaySize
  | getWindowDensity
  | getPhysicalDensity
  | getQemuDensity
  | desktopChanged (desktop : Desktop)

def step (conf : Option WindowDisplayConf) (s : State) : Op → Option State
  | .getWindowDisplaySize => some s.getWindowDisplaySize.2
  | .getPhysicalDisplaySize => some s.getPhysicalDisplaySize.2
  | .getWindowDensity => some (s.getWindowDensity conf).2
  | .getPhysicalDensity => some (s.getPhysicalDensity conf).2
  | .getQemuDensity => some s
  | .desktopChanged desktop => some { s with desktop := desktop }

/-- `KmreManager::initDisplayInformation`, run at start-up. -/
def initDisplayInformation : List Op := [.getWindowDisplaySize, .getPhysicalDisplaySize]

variable {conf : Option WindowDisplayConf} {s s' : State} {op : Op}

/-! ## What the operations publish -/

/-- The screen has a size that was not published last. -/
def State.NewSize (s : State) : Prop :=
  (portraitSize s.desktop).width > 0 ∧ (portraitSize s.desktop).height > 0 ∧
    portraitSize s.desktop ≠ s.oldPhysicalDisplaySize

instance (s : State) : Decidable s.NewSize :=
  inferInstanceAs (Decidable (_ ∧ _ ∧ _))

/-- The operation asks for the screen's size. -/
def AsksSize (conf : Option WindowDisplayConf) (s : State) : Op → Prop
  | .getWindowDisplaySize | .getPhysicalDisplaySize => True
  | .getPhysicalDensity => s.mPhysicalDensity ≤ 0 ∧ conf = none
  | _ => False

/-- The operation publishes the screen's size and density. -/
def Publishes (conf : Option WindowDisplayConf) (s : State) (op : Op) : Prop :=
  AsksSize conf s op ∧ s.NewSize

/-- What is published when the screen's size is asked for in state `s`. -/
def State.physicalDisplay (s : State) : PhysicalDisplay :=
  ⟨(portraitSize s.desktop).width, (portraitSize s.desktop).height, s.mPhysicalDensity⟩

namespace State

/-- **What asking for the size does.** A new size is published, with the density
as it stands. -/
theorem getPhysicalDisplaySize_snd (s : State) :
    s.getPhysicalDisplaySize.2 =
      if s.NewSize then
        { s with
          mPhysicalDisplaySize := portraitSize s.desktop
          oldPhysicalDisplaySize := portraitSize s.desktop
          published := s.published ++ [s.physicalDisplay] }
      else { s with mPhysicalDisplaySize := portraitSize s.desktop } := rfl

/-- The window's size is the screen's business; only variables that nothing
published depends on are set besides. -/
theorem getWindowDisplaySize_snd (s : State) : ∃ winSize qemuDensity,
    s.getWindowDisplaySize.2 =
      { s.getPhysicalDisplaySize.2 with
        mVirtualDisplaySize := winSize
        mQemuDensity := qemuDensity } := by
  unfold getWindowDisplaySize getPreferedWindowDisplaySize
  dsimp only
  split
  · split
    · exact ⟨_, _, rfl⟩
    · exact ⟨_, _, rfl⟩
  · exact ⟨_, _, rfl⟩

theorem getWindowDensity_snd (s : State) (conf : Option WindowDisplayConf) : ∃ density,
    (s.getWindowDensity conf).2 = { s with mVirtualDensity := density } := by
  unfold getWindowDensity
  split
  · exact ⟨_, rfl⟩
  · exact ⟨_, rfl⟩

end State

/-- A file that exists gives a density. -/
theorem confDensity_pos (key : WindowDisplayConf → Option Int) :
    0 < State.confDensity key conf ↔ conf ≠ none := by
  cases conf with
  | none => simp [State.confDensity]
  | some conf =>
    have hge : 320 ≤ State.confDensity key (some conf) := by
      unfold State.confDensity DEFAULT_DENSITY_320
      dsimp only
      split <;> omega
    exact iff_of_true (by omega) (by simp)

namespace State

/-- A cached density is returned, and nothing changes. -/
theorem getPhysicalDensity_cached (h : 0 < s.mPhysicalDensity) :
    s.getPhysicalDensity conf = (s.mPhysicalDensity, s) :=
  if_pos h

/-- Without a file the density is decided by the size, which is asked for
first. -/
theorem getPhysicalDensity_asks (h : s.mPhysicalDensity ≤ 0) (hconf : conf = none) :
    ∃ density, (s.getPhysicalDensity conf).2 =
      { s.getPhysicalDisplaySize.2 with mPhysicalDensity := density } := by
  subst hconf
  unfold getPhysicalDensity
  rw [if_neg (by omega)]
  exact ⟨_, rfl⟩

theorem getPhysicalDensity_conf (h : s.mPhysicalDensity ≤ 0) (hconf : conf ≠ none) :
    ∃ density, (s.getPhysicalDensity conf).2 = { s with mPhysicalDensity := density } := by
  have hpos := (confDensity_pos WindowDisplayConf.physical_density).mpr hconf
  unfold getPhysicalDensity
  rw [if_neg (by omega)]
  dsimp only
  rw [if_pos hpos]
  exact ⟨_, rfl⟩

end State

/-- The size and density that the container was told last are the current size
and the density that `getPhysicalDensity` gives. -/
def Coherent (conf : Option WindowDisplayConf) (s : State) : Prop :=
  ∃ p ∈ s.published.getLast?, s.mPhysicalDisplaySize = ⟨p.width, p.height⟩ ∧
    p.density = (s.getPhysicalDensity conf).1 ∧ 0 < p.density

/-- **An operation that asks for the size.** It publishes a new size; the cached
density is not touched if there is one. -/
theorem step_asks (hask : AsksSize conf s op) (h : step conf s op = some s') :
    s'.published = s.getPhysicalDisplaySize.2.published ∧
      s'.mPhysicalDisplaySize = portraitSize s.desktop ∧
      (0 < s.mPhysicalDensity → s'.mPhysicalDensity = s.mPhysicalDensity) := by
  have hsize : s.getPhysicalDisplaySize.2.mPhysicalDisplaySize = portraitSize s.desktop ∧
      s.getPhysicalDisplaySize.2.mPhysicalDensity = s.mPhysicalDensity := by
    rw [State.getPhysicalDisplaySize_snd]
    split <;> exact ⟨rfl, rfl⟩
  cases op with
  | getWindowDisplaySize =>
    obtain ⟨winSize, qemuDensity, heq⟩ := s.getWindowDisplaySize_snd
    obtain rfl := heq.symm.trans (Option.some.inj h)
    exact ⟨rfl, hsize.1, fun _ => hsize.2⟩
  | getPhysicalDisplaySize =>
    obtain rfl := Option.some.inj h
    exact ⟨rfl, hsize.1, fun _ => hsize.2⟩
  | getPhysicalDensity =>
    obtain ⟨hdensity, hconf⟩ := hask
    obtain ⟨density, heq⟩ := s.getPhysicalDensity_asks hdensity hconf
    obtain rfl := heq.symm.trans (Option.some.inj h)
    exact ⟨rfl, hsize.1, fun hpos => absurd hpos (by omega)⟩
  | getWindowDensity | getQemuDensity | desktopChanged => exact hask.elim

theorem step_not_asks (hask : ¬ AsksSize conf s op) (h : step conf s op = some s') :
    s'.published = s.published := by
  cases op with
  | getWindowDisplaySize | getPhysicalDisplaySize => exact absurd trivial hask
  | getWindowDensity =>
    obtain ⟨density, heq⟩ := s.getWindowDensity_snd conf
    obtain rfl := heq.symm.trans (Option.some.inj h)
    rfl
  | getPhysicalDensity =>
    by_cases hdensity : s.mPhysicalDensity ≤ 0
    · have hconf : conf ≠ none := fun hconf => hask ⟨hdensity, hconf⟩
      obtain ⟨density, heq⟩ := s.getPhysicalDensity_conf hdensity hconf
      obtain rfl := heq.symm.trans (Option.some.inj h)
      rfl
    · obtain rfl := Option.some.inj h
      rw [State.getPhysicalDensity_cached (by omega)]
  | getQemuDensity | desktopChanged =>
    obtain rfl := Option.some.inj h
    rfl

theorem step_publishes (hpub : Publishes conf s op) (h : step conf s op = some s') :
    s'.published = s.published ++ [s.physicalDisplay] := by
  rw [(step_asks hpub.1 h).1, State.getPhysicalDisplaySize_snd, if_pos hpub.2]

theorem step_silent (hpub : ¬ Publishes conf s op) (h : step conf s op = some s') :
    s'.published = s.published := by
  by_cases hask : AsksSize conf s op
  · have hsize : ¬ s.NewSize := fun hsize => hpub ⟨hask, hsize⟩
    rw [(step_asks hask h).1, State.getPhysicalDisplaySize_snd, if_neg hsize]
  · exact step_not_asks hask h

theorem published_ne_iff (h : step conf s op = some s') :
    s'.published ≠ s.published ↔ Publishes conf s op := by
  by_cases hpub : Publishes conf s op
  · simp [step_publishes hpub h, hpub]
  · simp [step_silent hpub h, hpub]

/-- What was published is coherent exactly when the density was known before. -/
theorem coherent_iff_of_publishes (hpub : Publishes conf s op) (h : step conf s op = some s') :
    Coherent conf s' ↔ 0 < s.mPhysicalDensity := by
  obtain ⟨-, hsize, hkept⟩ := step_asks hpub.1 h
  have hlast : s'.published.getLast? = some s.physicalDisplay := by
    rw [step_publishes hpub h, List.getLast?_concat]
  constructor
  · intro hcoh
    obtain ⟨p, hp, -, -, hpos⟩ := hcoh
    rw [hlast] at hp
    obtain rfl := Option.some.inj hp
    exact hpos
  · intro hpos
    have hdensity := hkept hpos
    refine ⟨s.physicalDisplay, hlast, hsize, ?_, hpos⟩
    rw [State.getPhysicalDensity_cached (hdensity ▸ hpos), hdensity]
    rfl

/-! ## Runs -/

/-- **What is published is coherent in a run exactly when nothing is published
before the density is known.** -/
theorem published_coherent_iff (conf : Option WindowDisplayConf) (desktop : Desktop)
    (ops : List Op) :
    (∀ before op s s', before ++ [op] <+: ops →
        run (step conf) { desktop } before = some s → step conf s op = some s' →
        s'.published ≠ s.published → Coherent conf s') ↔
      Guarded (step conf) (fun s op => Publishes conf s op → 0 < s.mPhysicalDensity)
        { desktop } ops := by
  rw [Guarded.iff_forall_step]
  constructor
  · intro hcoh before op s hpre hrun hpub
    have hall := hcoh before op s
    obtain ⟨s', hs'⟩ : ∃ s', step conf s op = some s' := by
      cases op <;> exact ⟨_, rfl⟩
    exact (coherent_iff_of_publishes hpub hs').mp
      (hall s' hpre hrun hs' ((published_ne_iff hs').mpr hpub))
  · intro hok before op s s' hpre hrun hs' hne
    have hpub := (published_ne_iff hs').mp hne
    exact (coherent_iff_of_publishes hpub hs').mpr (hok before op s hpre hrun hpub)

/-- The static initial state, on a full-HD screen without settings or file. -/
def fullHd : State where
  desktop := ⟨some ⟨⟨1920, 1080⟩, 1⟩, none, none⟩

/-- The first size that the manager asks for goes out with density 0. -/
theorem published_before_density : ¬ ∀ conf desktop ops before op s s',
    before ++ [op] <+: ops → run (step conf) { desktop } before = some s →
      step conf s op = some s' → s'.published ≠ s.published → Coherent conf s' := by
  intro hcoh
  have hpub : Publishes none fullHd .getWindowDisplaySize := ⟨trivial, by decide +kernel⟩
  have hcoherent : Coherent none fullHd.getWindowDisplaySize.2 :=
    hcoh none fullHd.desktop initDisplayInformation [] .getWindowDisplaySize fullHd _
      ⟨[.getPhysicalDisplaySize], rfl⟩ rfl rfl ((published_ne_iff rfl).mpr hpub)
  have hpos := (coherent_iff_of_publishes hpub rfl).mp hcoherent
  exact absurd hpos (by decide)

/-- **Start-up.** On every screen that has a size, the manager's start-up
publishes that size with density 0, and nothing else. -/
theorem initDisplayInformation_published {desktop : Desktop}
    (hsize : State.NewSize { desktop }) :
    (run (step conf) { desktop } initDisplayInformation).map State.published =
      some [⟨(portraitSize desktop).width, (portraitSize desktop).height, 0⟩] := by
  obtain ⟨winSize, qemuDensity, heq⟩ := State.getWindowDisplaySize_snd { desktop }
  rw [State.getPhysicalDisplaySize_snd, if_pos hsize] at heq
  have hpublished : (State.getWindowDisplaySize { desktop }).2.published =
      [⟨(portraitSize desktop).width, (portraitSize desktop).height, 0⟩] := by
    rw [heq]
    rfl
  have hold : ¬ Publishes conf (State.getWindowDisplaySize { desktop }).2
      .getPhysicalDisplaySize := by
    rw [heq]
    exact fun hpub => hpub.2.2.2 rfl
  exact congrArg some ((step_silent hold rfl).trans hpublished)

end KmreManager.DisplaySizeManager
