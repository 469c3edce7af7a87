import KmreManager.Lib.Runs
import KmreManager.DataSocket

/-! # The throttle in front of the sensor service

`DbusAdaptor::passAcceKey` hands a sample on when more than `inter` microseconds
have passed since its time stamp, and sets the stamp at every call, not only
when it hands a sample on. -/
namespace KmreManager.DataSocket

open Lib.Runs

/-- A `struct timespec` as `clock_gettime` fills it in. -/
structure Timespec where
  tv_sec : Int
  tv_nsec : Int
  nonneg : 0 ≤ tv_nsec
  lt : tv_nsec < 1000000000
deriving DecidableEq

namespace Timespec

/-- Nanoseconds since the clock's origin. -/
def nanos (t : Timespec) : Int := t.tv_sec * 1000000000 + t.tv_nsec

instance : LE Timespec := ⟨fun s t => s.nanos ≤ t.nanos⟩

theorem le_iff {s t : Timespec} : s ≤ t ↔ s.nanos ≤ t.nanos := Iff.rfl

instance : DecidableLE Timespec := fun s t => inferInstanceAs (Decidable (s.nanos ≤ t.nanos))

end Timespec

/-- The quotient is that of C, rounded towards zero. -/
def time_diff_us (now stamp : Timespec) : Int :=
  (now.tv_sec - stamp.tv_sec) * 1000000 + (now.tv_nsec - stamp.tv_nsec).tdiv 1000

/-- Division by 1000 as C has it, by the sign of the dividend. -/
theorem tdiv_thousand (x : Int) :
    (0 ≤ x ∧ x.tdiv 1000 = x / 1000) ∨ (x < 0 ∧ x.tdiv 1000 = -(-x / 1000)) := by
  obtain hx | hx := Int.lt_or_le x 0
  · refine .inr ⟨hx, ?_⟩
    rw [← Int.tdiv_eq_ediv_of_nonneg (by omega), Int.neg_tdiv, Int.neg_neg]
  · exact .inl ⟨hx, Int.tdiv_eq_ediv_of_nonneg hx⟩

/-- The difference does not grow when the stamp gets later, although parts of it
are rounded up and others down. -/
theorem time_diff_us_antitone {now s t : Timespec} (h : s ≤ t) :
    time_diff_us now t ≤ time_diff_us now s := by
  have hs := tdiv_thousand (now.tv_nsec - s.tv_nsec)
  have ht := tdiv_thousand (now.tv_nsec - t.tv_nsec)
  have hnow := now.nonneg
  have hnow' := now.lt
  have hs0 := s.nonneg
  have hs1 := s.lt
  have ht0 := t.nonneg
  have ht1 := t.lt
  rw [Timespec.le_iff, Timespec.nanos, Timespec.nanos] at h
  unfold time_diff_us
  omega

/-- `inter`, in microseconds. -/
def inter : Int := 100000

structure DbusAdaptor where
  stamp : Timespec
  flag : Bool := true

/-- The sample that stands for an empty one: two readings by turns. -/
def DbusAdaptor.sample (d : DbusAdaptor) (sensorData : QString) : QString × Bool :=
  if sensorData = [] then
    if d.flag then (literal "-8.:3.0:6.6", false) else (literal "2.9:-4.:2.6", true)
  else (sensorData, d.flag)

/-- The sample that the call hands to `SensordataGet::sendData`, if it does. -/
def DbusAdaptor.passAcceKey (d : DbusAdaptor) (sensorData : QString) (now : Timespec) :
    Option QString × DbusAdaptor :=
  let (sensorData, flag) := d.sample sensorData
  let duration := time_diff_us now d.stamp
  (if duration > inter then some sensorData else none, { stamp := now, flag })

/-- A call of `passAcceKey`, and what the clock shows then. -/
structure AcceKey where
  sensorData : QString
  now : Timespec

/-- A call this many milliseconds after the clock's origin. -/
def AcceKey.atMillis (ms : Nat) : AcceKey where
  sensorData := []
  now := ⟨ms / 1000, (ms % 1000) * 1000000, by omega, by omega⟩

/-- The adaptor since its construction, with the samples handed on and the times
of these calls. -/
structure Throttle where
  adaptor : DbusAdaptor
  constructed : Timespec
  forwarded : List (Timespec × QString) := []

namespace Throttle

/-- `DbusAdaptor::DbusAdaptor`. -/
def construct (now : Timespec) : Throttle where
  adaptor := { stamp := now }
  constructed := now

/-- The time of the last sample handed on, of the construction if there is none. -/
def lastForwarded (t : Throttle) : Timespec :=
  (t.forwarded.getLast?.map Prod.fst).getD t.constructed

def Forwards (t : Throttle) (call : AcceKey) : Prop :=
  (t.adaptor.passAcceKey call.sensorData call.now).1.isSome

def step (t : Throttle) (call : AcceKey) : Option Throttle :=
  let (sample, adaptor) := t.adaptor.passAcceKey call.sensorData call.now
  some { t with
    adaptor := adaptor
    forwarded := t.forwarded ++ sample.toList.map fun data => (call.now, data) }

variable {t t' : Throttle} {call : AcceKey} {calls : List AcceKey}

theorem forwards_iff (t : Throttle) (call : AcceKey) :
    t.Forwards call ↔ inter < time_diff_us call.now t.adaptor.stamp := by
  unfold Forwards DbusAdaptor.passAcceKey
  dsimp only
  split
  next h => exact iff_of_true rfl h
  next h => exact iff_of_false (by simp) h

/-- **What a call does.** The stamp is set whatever becomes of the sample. -/
theorem step_spec (t : Throttle) (call : AcceKey) :
    ∃ t', step t call = some t' ∧ t'.adaptor.stamp = call.now ∧
      ((t.Forwards call ∧ t'.lastForwarded = call.now) ∨
        (¬ t.Forwards call ∧ t'.forwarded = t.forwarded ∧
          t'.lastForwarded = t.lastForwarded)) := by
  have hstep : step t call = some
      { t with
        adaptor := (t.adaptor.passAcceKey call.sensorData call.now).2
        forwarded := t.forwarded ++
          (t.adaptor.passAcceKey call.sensorData call.now).1.toList.map
            fun data => (call.now, data) } := rfl
  refine ⟨_, hstep, rfl, ?_⟩
  unfold Forwards lastForwarded
  dsimp only
  generalize (t.adaptor.passAcceKey call.sensorData call.now).1 = sample
  cases sample with
  | none => exact .inr (by simp)
  | some data => exact .inl (by simp)

/-- The sample is handed on exactly if the interval has passed since the last one
that was. -/
def Throttled (t : Throttle) (call : AcceKey) : Prop :=
  t.Forwards call ↔ inter < time_diff_us call.now t.lastForwarded

/-- A burst is a sequence of calls each of which comes within the interval after
the one before. None lasts longer than the interval: `start` is when the present
one began, `last` the time of its last call. -/
def ShortBursts (last start : Timespec) : List Timespec → Prop
  | [] => True
  | now :: later =>
    if inter < time_diff_us now last then ShortBursts now now later
    else time_diff_us now start ≤ inter ∧ ShortBursts now start later

instance ShortBursts.decidable : ∀ last start times, Decidable (ShortBursts last start times)
  | _, _, [] => .isTrue trivial
  | last, start, now :: later =>
    letI := ShortBursts.decidable now now later
    letI := ShortBursts.decidable now start later
    inferInstanceAs (Decidable (if inter < time_diff_us now last then _ else _ ∧ _))

/-- The calls from a state on, where the stamp is the last call's time and the
last sample handed on is the one that began the burst. -/
theorem guarded_iff_shortBursts (hsorted : (t.adaptor.stamp :: calls.map (·.now)).Pairwise (· ≤ ·))
    (hlast : t.lastForwarded ≤ t.adaptor.stamp) :
    Guarded step Throttled t calls ↔
      ShortBursts t.adaptor.stamp t.lastForwarded (calls.map (·.now)) := by
  induction calls generalizing t with
  | nil => exact Iff.rfl
  | cons call calls ih =>
    obtain ⟨hfirst, hrest⟩ := List.pairwise_cons.mp hsorted
    have hnow : t.adaptor.stamp ≤ call.now := hfirst _ List.mem_cons_self
    obtain ⟨t', hstep, hstamp, hforwarded⟩ := step_spec t call
    have hrec : t'.lastForwarded ≤ t'.adaptor.stamp →
        (Guarded step Throttled t' calls ↔
          ShortBursts call.now t'.lastForwarded (calls.map (·.now))) := by
      intro hlast'
      rw [List.map_cons] at hrest
      rw [← hstamp] at hrest ⊢
      exact ih hrest hlast'
    rw [Guarded, hstep, List.map_cons, ShortBursts]
    dsimp only
    obtain ⟨hforwards, hlast'⟩ | ⟨hdrops, -, hlast'⟩ := hforwarded
    · -- a sample handed on is due, as the last one is no later than the last call
      have hdue := (forwards_iff t call).mp hforwards
      have hthrottled : t.Throttled call :=
        iff_of_true hforwards (Int.lt_of_lt_of_le hdue (time_diff_us_antitone hlast))
      rw [if_pos hdue, hrec (by rw [hlast', hstamp]; exact Int.le_refl _), hlast']
      exact and_iff_right hthrottled
    · have hlate := mt (forwards_iff t call).mpr hdrops
      have hthrottled : t.Throttled call ↔ time_diff_us call.now t.lastForwarded ≤ inter := by
        rw [Throttled, iff_false_left hdrops, Int.not_lt]
      have hle : t.lastForwarded ≤ call.now := Int.le_trans hlast hnow
      rw [if_neg hlate, hrec (by rw [hlast', hstamp]; exact hle), hlast', hthrottled]

/-- **The throttle.** For all calls in the clock's order, each hands its sample
on exactly if the interval has passed since the last one handed on, if and only
if no burst of calls lasts longer than the interval. -/
theorem throttle_iff {constructed : Timespec}
    (hsorted : (constructed :: calls.map (·.now)).Pairwise (· ≤ ·)) :
    (∀ before call t, before ++ [call] <+: calls →
        run step (construct constructed) before = some t → t.Throttled call) ↔
      ShortBursts constructed constructed (calls.map (·.now)) := by
  rw [← Guarded.iff_forall_step]
  exact guarded_iff_shortBursts (t := construct constructed) hsorted (Int.le_refl _)

/-- Calls with a pause after the first two. -/
def pausing : List AcceKey :=
  [.atMillis 60, .atMillis 90, .atMillis 200, .atMillis 290]

/-- The sample after the pause is handed on. -/
theorem throttle_iff_pause :
    (run step (construct (AcceKey.atMillis 0).now) pausing).isSome ∧
      ∀ before call t, before ++ [call] <+: pausing →
        run step (construct (AcceKey.atMillis 0).now) before = some t → t.Throttled call :=
  ⟨by decide +kernel, (throttle_iff (by decide +kernel)).mpr (by decide +kernel)⟩

/-- The second of two calls 60 ms apart comes 120 ms after the construction, and
its sample is dropped like that of the first. -/
theorem dropped_when_due : ¬ ∀ constructed calls,
    (constructed :: calls.map (·.now)).Pairwise (· ≤ ·) → ∀ before call t,
      before ++ [call] <+: calls → run step (construct constructed) before = some t →
        t.Throttled call := by
  intro hall
  have hsorted : ((AcceKey.atMillis 0).now ::
      [AcceKey.atMillis 60, .atMillis 120].map (·.now)).Pairwise (· ≤ ·) := by
    decide +kernel
  have hthrottled := Guarded.iff_forall_step.mpr (hall _ _ hsorted)
  have hshort := (guarded_iff_shortBursts hsorted (Int.le_refl _)).mp hthrottled
  exact absurd hshort (by decide +kernel)

/-- **Starvation.** A caller that never pauses for longer than the interval gets
no sample through at all. -/
theorem starved {constructed : Timespec}
    (hgaps : (constructed :: calls.map (·.now)).IsChain fun s t => time_diff_us t s ≤ inter)
    (h : run step (construct constructed) calls = some t) : t.forwarded = [] := by
  suffices hall : ∀ u, (u.adaptor.stamp :: calls.map (·.now)).IsChain
      (fun s t => time_diff_us t s ≤ inter) → u.forwarded = [] →
      run step u calls = some t → t.forwarded = [] from hall _ hgaps rfl h
  clear hgaps h
  induction calls with
  | nil =>
    intro u _ hu hrun
    exact Option.some.inj hrun ▸ hu
  | cons call calls ih =>
    intro u hchain hu hrun
    obtain ⟨hgap, hrest⟩ := List.isChain_cons_cons.mp hchain
    obtain ⟨u', hstep, hrun⟩ := run_cons_some.mp hrun
    obtain ⟨v, hv, hstamp, hforwarded⟩ := step_spec u call
    obtain rfl := Option.some.inj (hv.symm.trans hstep)
    obtain ⟨hforwards, -⟩ | ⟨-, hkept, -⟩ := hforwarded
    · exact absurd ((forwards_iff u call).mp hforwards) (Int.not_lt.mpr hgap)
    · exact ih v (hstamp.symm ▸ hrest) (hkept.trans hu) hrun

end Throttle
end KmreManager.DataSocket
