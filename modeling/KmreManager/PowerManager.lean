import Mathlib.Logic.Function.Basic
import KmreManager.Lib.Runs
import KmreManager.Lib.WriteBehind

/-! # The battery of the container

power/powermanager.cpp, and the properties that go through
communication/controlmanager.cpp to communication/backendworker.cpp. The manager
asks for a property to be set only when what it reads of the battery changes.
The request waits for the thread of the backend worker, and nobody hears of a
failure there. -/
namespace KmreManager.PowerManager

open Lib Lib.Runs

/-- The doubles that a percentage can be, and the texts that `QString::number`
gives them. -/
structure Doubles (δ : Type) where
  zero : δ
  hundred : δ
  number : δ → String
  number_ne : ∀ p, number p ≠ ""

/-- The properties of the container, by the `type` and the name that libkmre.so
is asked for them. -/
abbrev Props := WriteBehind (Int × String) String

structure Host (δ : Type) where
  mPowerState : Int := -1
  mBatteryPercent : δ
  /-- `onContainerEnvBooted` was called -/
  completed : Bool := false
  /-- the battery was read -/
  read : Bool := false
  props : Props

/-- What a call of `onUpdateBatteryState` is answered. -/
structure Answers (δ : Type) where
  boot_completed : String
  State : Option Int
  Percentage : Option δ
deriving DecidableEq

inductive Action (δ : Type)
  | onUpdateBatteryState (a : Answers δ)
  | onContainerEnvBooted (status : Bool) (a : Answers δ)
  | setSystemProp (type : Int) (propName propValue : String)
  | worker (ret : Bool)
deriving DecidableEq

def battery_charging : Int × String := (1, "battery_charging")

def battery_percent : Int × String := (1, "battery_percent")

def charging (mPowerState : Int) : String := if mPowerState = 2 then "0" else "1"

/-- What `BackendWorker::setSystemProp` passes on. -/
def accepts (w : (Int × String) × String) : Bool := w.1.2 ≠ "" && w.2 ≠ ""

variable {δ : Type} [DecidableEq δ]

/-- A reading that is not the last one is asked to be set. -/
def changed {α : Type} [DecidableEq α] (key : Int × String) (text : α → String) (old new : α)
    (props : Props) : Props :=
  if old ≠ new then props.enqueue key (text new) else props

def Answers.state (a : Answers δ) : Int := a.State.getD (-2)

def Answers.percent (d : Doubles δ) (a : Answers δ) : δ := a.Percentage.getD d.hundred

def Host.onUpdateBatteryState (d : Doubles δ) (h : Host δ) (a : Answers δ) : Host δ :=
  if a.boot_completed = "1" then
    { h with
      mPowerState := a.state
      mBatteryPercent := a.percent d
      read := true
      props := changed battery_percent d.number h.mBatteryPercent (a.percent d)
        (changed battery_charging charging h.mPowerState a.state h.props) }
  else h

def step (d : Doubles δ) (h : Host δ) : Action δ → Option (Host δ)
  | .onUpdateBatteryState a => some (h.onUpdateBatteryState d a)
  | .onContainerEnvBooted status a =>
    if h.completed ∨ ¬ status then some { h with completed := true }
    else some ({ h with completed := true }.onUpdateBatteryState d a)
  | .setSystemProp type propName propValue =>
    some { h with props := h.props.enqueue (type, propName) propValue }
  | .worker ret =>
    if h.props.waiting = [] then none
    else some { h with props := h.props.write accepts ret }

/-- Once the worker is through, the container has what the manager last read. -/
def Shown (d : Doubles δ) (h : Host δ) : Prop :=
  h.read → h.props.settled accepts battery_charging = some (charging h.mPowerState) ∧
    h.props.settled accepts battery_percent = some (d.number h.mBatteryPercent)

/-- The first reading is not taken for an old one. -/
def NewOrShown (d : Doubles δ) (h : Host δ) (a : Answers δ) : Prop :=
  a.boot_completed = "1" → ¬ h.read →
    (a.state = -1 → h.props.settled accepts battery_charging = some "1") ∧
      (a.percent d = d.zero → h.props.settled accepts battery_percent = some (d.number d.zero))

/-- What the manager counts on. -/
def Kept (d : Doubles δ) (h : Host δ) : Action δ → Prop
  | .onUpdateBatteryState a => NewOrShown d h a
  | .onContainerEnvBooted status a => ¬ h.completed → status → NewOrShown d h a
  | .setSystemProp type propName propValue =>
    h.read → accepts ((type, propName), propValue) →
      ((type, propName) = battery_charging → propValue = charging h.mPowerState) ∧
        ((type, propName) = battery_percent → propValue = d.number h.mBatteryPercent)
  | .worker ret => h.read → ret = false →
      h.props.Idle accepts battery_charging ∧ h.props.Idle accepts battery_percent

instance (d : Doubles δ) (h : Host δ) (a : Answers δ) : Decidable (NewOrShown d h a) :=
  inferInstanceAs (Decidable (_ = _ → _ → (_ = _ → _ = _) ∧ (_ = _ → _ = _)))

instance (d : Doubles δ) : ∀ (h : Host δ) (a : Action δ), Decidable (Kept d h a)
  | h, .onUpdateBatteryState a => inferInstanceAs (Decidable (NewOrShown d h a))
  | h, .onContainerEnvBooted _ a => inferInstanceAs (Decidable (_ → _ → NewOrShown d h a))
  | _, .setSystemProp _ _ _ =>
    inferInstanceAs (Decidable (_ → _ → (_ = _ → _ = _) ∧ (_ = _ → _ = _)))
  | h, .worker _ => inferInstanceAs (Decidable (_ → _ →
      h.props.Idle accepts battery_charging ∧ h.props.Idle accepts battery_percent))

variable {d : Doubles δ} {h h' : Host δ} {a : Answers δ} {props : Props} {key k : Int × String}

/-! ## A reading -/

section Changed

variable {α : Type} [DecidableEq α] {text : α → String} {old new : α}

theorem changed_self (haccepts : accepts (key, text new)) :
    (changed key text old new props).settled accepts key = some (text new) ↔
      (old = new → props.settled accepts key = some (text new)) := by
  unfold changed
  by_cases hnew : old = new
  · rw [if_neg (not_not.mpr hnew)]
    exact ⟨fun hshown _ => hshown, fun hshown => hshown hnew⟩
  · rw [if_pos hnew, WriteBehind.settled_enqueue haccepts]
    exact iff_of_true (Function.update_self _ _ _) fun hcontra => absurd hcontra hnew

theorem changed_other (haccepts : accepts (key, text new)) (hk : k ≠ key) :
    (changed key text old new props).settled accepts k = props.settled accepts k := by
  unfold changed
  split
  · rw [WriteBehind.settled_enqueue haccepts, Function.update_of_ne hk]
  · rfl

end Changed

theorem accepts_charging (state : Int) : accepts (battery_charging, charging state) := by
  unfold charging
  split <;> decide

omit [DecidableEq δ] in
theorem accepts_percent (p : δ) : accepts (battery_percent, d.number p) := by
  simp [accepts, battery_percent, d.number_ne p]

/-- A reading is shown if what it leaves unsaid is shown already. -/
theorem onUpdateBatteryState_shown (hboot : a.boot_completed = "1") :
    Shown d (h.onUpdateBatteryState d a) ↔
      (h.mPowerState = a.state →
        h.props.settled accepts battery_charging = some (charging a.state)) ∧
      (h.mBatteryPercent = a.percent d →
        h.props.settled accepts battery_percent = some (d.number (a.percent d))) := by
  have hkeys : battery_charging ≠ battery_percent := by decide
  have hpercent := accepts_percent (d := d) (a.percent d)
  rw [Host.onUpdateBatteryState, if_pos hboot, Shown, forall_prop_of_true rfl]
  refine and_congr ?_ ?_
  · rw [changed_other hpercent hkeys]
    exact changed_self (accepts_charging a.state)
  · rw [changed_self hpercent, changed_other (accepts_charging a.state) hkeys.symm]

/-! ## Runs -/

structure Sound (d : Doubles δ) (h : Host δ) : Prop where
  fresh : ¬ h.read → h.mPowerState = -1 ∧ h.mBatteryPercent = d.zero
  shown : Shown d h

theorem Sound.onUpdateBatteryState (hh : Sound d h) (a : Answers δ) :
    (NewOrShown d h a ∧ Sound d (h.onUpdateBatteryState d a)) ∨
      (¬ NewOrShown d h a ∧ ¬ Shown d (h.onUpdateBatteryState d a)) := by
  by_cases hboot : a.boot_completed = "1"
  · have hiff : Shown d (h.onUpdateBatteryState d a) ↔ NewOrShown d h a := by
      rw [onUpdateBatteryState_shown hboot, NewOrShown, forall_prop_of_true hboot]
      by_cases hread : h.read = true
      · obtain ⟨hcharging, hpercent⟩ := hh.shown hread
        refine iff_of_true ⟨fun hsame => ?_, fun hsame => ?_⟩ fun hcontra => absurd hread hcontra
        · rw [hcharging, hsame]
        · rw [hpercent, hsame]
      · obtain ⟨hstate, hzero⟩ := hh.fresh hread
        rw [forall_prop_of_true hread, hstate, hzero]
        refine and_congr ?_ ?_
        · refine ⟨fun hshown hsame => ?_, fun hshown hsame => ?_⟩
          · rw [hshown hsame.symm, hsame]
            rfl
          · rw [hshown hsame.symm, ← hsame]
            rfl
        · refine ⟨fun hshown hsame => ?_, fun hshown hsame => ?_⟩
          · rw [hshown hsame.symm, hsame]
          · rw [hshown hsame.symm, hsame]
    have hread : (h.onUpdateBatteryState d a).read = true := by
      rw [Host.onUpdateBatteryState, if_pos hboot]
    by_cases hnew : NewOrShown d h a
    · exact .inl ⟨hnew, fun hcontra => absurd hread hcontra, hiff.mpr hnew⟩
    · exact .inr ⟨hnew, fun hcontra => hnew (hiff.mp hcontra)⟩
  · refine .inl ⟨fun hcontra => absurd hcontra hboot, ?_⟩
    rwa [Host.onUpdateBatteryState, if_neg hboot]

/-- **Step lemma.** -/
theorem step_sound {a : Action δ} (hh : Sound d h) (ha : step d h a = some h') :
    (Kept d h a ∧ Sound d h') ∨ (¬ Kept d h a ∧ ¬ Shown d h') := by
  cases a with
  | onUpdateBatteryState a =>
    obtain rfl := Option.some.inj ha
    exact hh.onUpdateBatteryState a
  | onContainerEnvBooted status a =>
    rw [step] at ha
    split at ha
    next hskipped =>
      obtain rfl := Option.some.inj ha
      refine .inl ⟨fun hcompleted hstatus => ?_, hh.fresh, hh.shown⟩
      exact absurd hskipped (not_or.mpr ⟨hcompleted, not_not.mpr hstatus⟩)
    next hfirst =>
      obtain rfl := Option.some.inj ha
      obtain ⟨hcompleted, hstatus⟩ := not_or.mp hfirst
      have hbooted : Sound d { h with completed := true } := ⟨hh.fresh, hh.shown⟩
      have hkept : Kept d h (.onContainerEnvBooted status a) ↔
          NewOrShown d { h with completed := true } a :=
        ⟨fun hkept => hkept hcompleted (not_not.mp hstatus), fun hnew _ _ => hnew⟩
      rw [hkept]
      exact hbooted.onUpdateBatteryState a
  | setSystemProp type propName propValue =>
    obtain rfl := Option.some.inj ha
    by_cases haccepts : accepts ((type, propName), propValue)
    · have hiff : Shown d { h with props := h.props.enqueue (type, propName) propValue } ↔
          Kept d h (.setSystemProp type propName propValue) := by
        unfold Shown Kept
        refine forall_congr' fun hread => ?_
        obtain ⟨hcharging, hpercent⟩ := hh.shown hread
        rw [forall_prop_of_true haccepts, WriteBehind.settled_enqueue haccepts]
        refine and_congr ?_ ?_
        · by_cases hkey : (type, propName) = battery_charging
          · rw [hkey, Function.update_self, forall_prop_of_true rfl, Option.some_inj]
          · rw [Function.update_of_ne (Ne.symm hkey)]
            exact iff_of_true hcharging fun hcontra => absurd hcontra hkey
        · by_cases hkey : (type, propName) = battery_percent
          · rw [hkey, Function.update_self, forall_prop_of_true rfl, Option.some_inj]
          · rw [Function.update_of_ne (Ne.symm hkey)]
            exact iff_of_true hpercent fun hcontra => absurd hcontra hkey
      by_cases hkept : Kept d h (.setSystemProp type propName propValue)
      · exact .inl ⟨hkept, hh.fresh, hiff.mpr hkept⟩
      · exact .inr ⟨hkept, fun hcontra => hkept (hiff.mp hcontra)⟩
    · refine .inl ⟨fun _ hcontra => absurd hcontra haccepts, hh.fresh, ?_⟩
      unfold Shown
      rw [WriteBehind.settled_enqueue_dropped haccepts]
      exact hh.shown
  | worker ret =>
    obtain ⟨-, hnew⟩ := Option.ite_none_left_eq_some.mp ha
    obtain rfl := Option.some.inj hnew
    cases ret with
    | true =>
      refine .inl ⟨fun _ hcontra => absurd hcontra (by decide), hh.fresh, ?_⟩
      unfold Shown
      rw [WriteBehind.settled_write_made]
      exact hh.shown
    | false =>
      have hiff : Shown d { h with props := h.props.write accepts false } ↔
          Kept d h (.worker false) := by
        unfold Shown Kept
        refine forall_congr' fun hread => ?_
        obtain ⟨hcharging, hpercent⟩ := hh.shown hread
        rw [forall_prop_of_true rfl, ← WriteBehind.settled_write_failed,
          ← WriteBehind.settled_write_failed, hcharging, hpercent]
      by_cases hkept : Kept d h (.worker false)
      · exact .inl ⟨hkept, hh.fresh, hiff.mpr hkept⟩
      · exact .inr ⟨hkept, fun hcontra => hkept (hiff.mp hcontra)⟩

/-- A manager that starts, whatever the container has. -/
def started (d : Doubles δ) (held : Int × String → Option String) : Host δ :=
  { mBatteryPercent := d.zero, props := { held } }

/-- **The container shows the battery.** However the readings, the requests of
other programs and the worker take turns: what the manager last read is what the
container has once the worker is through, in every state, if and only if no
first reading is what the manager starts from, no other program sets the two
properties to something else, and no request fails that is not made up for by
one that waits. -/
theorem battery_shown_iff {held : Int × String → Option String} {actions : List (Action δ)}
    (hrun : run (step d) (started d held) actions = some h) :
    Guarded (step d) (Kept d) (started d held) actions ↔
      ∀ bs t, bs <+: actions → run (step d) (started d held) bs = some t → Shown d t := by
  have hstarted : Sound d (started d held) :=
    ⟨fun _ => ⟨rfl, rfl⟩, fun hcontra => absurd hcontra Bool.false_ne_true⟩
  exact Guarded.iff_of_step (fun _ hh => hh.shown) (fun _ _ _ hh => step_sound hh) hstarted hrun

/-! The container boots, and the request of the first percentage fails while the
second one waits. -/

def wholePercents : Doubles Nat where
  zero := 0
  hundred := 100
  number := Nat.repr
  number_ne _ := Nat.repr_ne_empty

def booted : List (Action Nat) :=
  [.onUpdateBatteryState ⟨"", none, none⟩, .onContainerEnvBooted true ⟨"1", some 2, some 80⟩,
    .onUpdateBatteryState ⟨"1", some 2, some 79⟩, .worker true, .worker false, .worker true]

theorem booted_shown : ∃ h, run (step wholePercents) (started wholePercents fun _ => none) booted =
    some h ∧ h.props.held battery_percent = some "79" ∧ Shown wholePercents h := by
  have hend : (run (step wholePercents) (started wholePercents fun _ => none) booted).map
      (fun h => h.props.held battery_percent) = some (some "79") := by decide +kernel
  obtain ⟨h, hrun, hh⟩ := Option.map_eq_some_iff.mp hend
  exact ⟨h, hrun, hh,
    (battery_shown_iff hrun).mp (by decide +kernel) booted h (List.prefix_refl _) hrun⟩

end KmreManager.PowerManager
