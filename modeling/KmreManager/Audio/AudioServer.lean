import KmreManager.LockFile
import KmreManager.UnixStream.Listeners

/-! # The playback socket of the audio service

audio/main.cpp, audioserver.cpp and playbackworker.cpp. Of all processes of the
audio service, the one that has the lock makes a playback worker, and another
one in its place when the computer wakes up. A worker listens when its thread
runs `initData`, and gives its socket up in its destructor. -/
namespace KmreManager.Audio.AudioServer

open Lib Lib.Runs

/-- A process, and the number of a worker in it. -/
abbrev Worker (π : Type) := π × Nat

structure Host (π : Type) where
  processes : LockFile.Host π := {}
  sockets : UnixStream.Host (Worker π)
  /-- `m_playWorker` of a process -/
  m_playWorker : π → Option Nat := fun _ => none

inductive Action (π : Type)
  | process (a : LockFile.Action π)
  | onInit (p : π)
  /-- `initData`, with the result of `createPlayback` -/
  | initData (p : π) (creates : Bool) (w : UnixStream.Answers)
  /-- `onSleep(false)`, from the `delete` on -/
  | onSleep (p : π)
deriving DecidableEq

variable {π : Type} [DecidableEq π]

/-- The system closes the sockets of a process that ends. -/
def Host.ended (h : Host π) (p : π) : Host π :=
  match h.m_playWorker p with
  | some k =>
    { h with
      sockets := h.sockets.close (p, k)
      m_playWorker := Function.update h.m_playWorker p none }
  | none => h

def step (path : QString) (h : Host π) : Action π → Option (Host π)
  | .process a =>
    (LockFile.step .audio h.processes a).map fun processes =>
      match a with
      | .exit p => { h with processes := processes }.ended p
      | _ => { h with processes := processes }
  | .onInit p =>
    if h.processes.phase p = .running ∧ h.m_playWorker p = none then
      some { h with m_playWorker := Function.update h.m_playWorker p (some 0) }
    else none
  | .initData p creates w =>
    (h.m_playWorker p).bind fun k =>
      if h.processes.phase p = .running ∧ (h.sockets.streams (p, k)).bound_socket_path = [] then
        some (if creates then { h with sockets := h.sockets.listen (p, k) path w } else h)
      else none
  | .onSleep p =>
    (h.m_playWorker p).bind fun k =>
      if h.processes.phase p = .running then
        some { h with
          sockets := h.sockets.destroyed (p, k)
          m_playWorker := Function.update h.m_playWorker p (some (k + 1)) }
      else none

/-- The lock file stays where it is, and a process that has given its lock back
has ended before another one listens or stops listening. -/
def Orderly (h : Host π) : Action π → Prop
  | .process a => LockFile.Kept h.processes a
  | .onInit _ => True
  | .initData _ _ _ | .onSleep _ =>
    ∀ q, h.processes.phase q = .leaving false → h.m_playWorker q = none

instance [Fintype π] : ∀ (h : Host π) (a : Action π), Decidable (Orderly h a)
  | h, .process a => inferInstanceAs (Decidable (LockFile.Kept h.processes a))
  | _, .onInit _ => .isTrue trivial
  | _, .initData _ _ _ | _, .onSleep _ => inferInstanceAs (Decidable (∀ _, _ = _ → _ = none))

structure Sound (path : QString) (h : Host π) : Prop where
  processes : LockFile.Sound h.processes
  sockets : UnixStream.Sound path h.sockets
  current : ∀ p k, (h.sockets.streams (p, k)).bound_socket_path ≠ [] → h.m_playWorker p = some k
  alive : ∀ p, h.m_playWorker p ≠ none →
    h.processes.phase p = .running ∨ h.processes.phase p = .leaving false

variable {h h' : Host π} {path : QString} {p q : π} {k l : Nat}

omit [DecidableEq π] in
/-- In an orderly run only the worker of the process with the lock listens. -/
theorem Sound.others (hh : Sound path h) (hp : h.processes.phase p = .running)
    (hk : h.m_playWorker p = some k)
    (horderly : ∀ q, h.processes.phase q = .leaving false → h.m_playWorker q = none)
    (hne : (q, l) ≠ (p, k)) : (h.sockets.streams (q, l)).m_sock = none := by
  by_contra hsock
  obtain ⟨s, hs⟩ := Option.ne_none_iff_exists'.mp hsock
  have hbound : (h.sockets.streams (q, l)).bound_socket_path ≠ [] := by
    rw [hh.sockets.bound _ s hs]
    exact (hh.sockets.usable _ s hs).1
  have hl := hh.current q l hbound
  have halive := hh.alive q (by rw [hl]; exact Option.some_ne_none l)
  rcases halive with hq | hq
  · obtain rfl := hh.processes.unique hp hq
    rw [hk] at hl
    exact hne (by rw [Option.some.inj hl])
  · rw [horderly q hq] at hl
    cases hl

omit [DecidableEq π] in
theorem Sound.unbound (hh : Sound path h) (hnone : h.m_playWorker p = none) :
    (h.sockets.streams (p, k)).bound_socket_path = [] := by
  by_contra hbound
  rw [hh.current p k hbound] at hnone
  cases hnone

/-- A process that ends takes its sockets along, and leaves their names. -/
theorem Sound.ended (hh : Sound path h) {processes : LockFile.Host π}
    (hprocesses : LockFile.Sound processes)
    (halive : ∀ q, q ≠ p → h.processes.phase q = .running ∨ h.processes.phase q = .leaving false →
      processes.phase q = .running ∨ processes.phase q = .leaving false) :
    Sound path ({ h with processes := processes }.ended p) := by
  unfold Host.ended
  split
  next k hk =>
    have hsockets : UnixStream.Sound path (h.sockets.close (p, k)) :=
      hh.sockets.close fun j s _ hj => hh.sockets.reached j s hj
    refine ⟨hprocesses, hsockets, fun q l hbound => ?_, fun q hq => ?_⟩
    · by_cases hql : (q, l) = (p, k)
      · have hself :
            Function.update h.sockets.streams (p, k) ({} : UnixStream.Stream) (p, k) = {} :=
          Function.update_self _ _ _
        rw [hql] at hbound
        exact absurd (congrArg UnixStream.Stream.bound_socket_path hself) hbound
      · have hsame : (h.sockets.close (p, k)).streams (q, l) = h.sockets.streams (q, l) :=
          Function.update_of_ne hql _ _
        have hl : h.m_playWorker q = some l := hh.current q l (by rwa [← hsame])
        have hqp : q ≠ p := fun hqp => hql (by
          rw [hqp] at hl
          rw [hqp, Option.some.inj (hl.symm.trans hk)])
        exact (Function.update_of_ne hqp _ _).trans hl
    · by_cases hqp : q = p
      · rw [hqp] at hq
        exact absurd (Function.update_self _ _ _) hq
      · have hsame : Function.update h.m_playWorker p none q = h.m_playWorker q :=
          Function.update_of_ne hqp _ _
        exact halive q hqp (hh.alive q fun hcontra => hq (hsame.trans hcontra))
  next hnone =>
    refine ⟨hprocesses, hh.sockets, hh.current, fun q hq => ?_⟩
    have hqp : q ≠ p := fun hqp => hq (hqp ▸ hnone)
    exact halive q hqp (hh.alive q hq)

/-- **Step lemma.** -/
theorem step_sound {a : Action π} (hh : Sound path h) (horderly : Orderly h a)
    (ha : step path h a = some h') : Sound path h' := by
  cases a with
  | process a =>
    obtain ⟨processes, hstep, hnew⟩ := Option.map_eq_some_iff.mp ha
    have hprocesses := LockFile.step_sound hh.processes horderly hstep
    have hkept : (∀ p, a ≠ .exit p) → Sound path { h with processes := processes } := fun hexit =>
      ⟨hprocesses, hh.sockets, hh.current,
        fun q hq => LockFile.step_stays hstep (hexit q) (hh.alive q hq)⟩
    subst hnew
    cases a with
    | exit p =>
      refine hh.ended hprocesses fun q hqp hq => ?_
      exact LockFile.step_stays hstep (fun hcontra => hqp (by cases hcontra; rfl)) hq
    | start p opens => exact hkept (fun _ => by simp)
    | flock p failure => exact hkept (fun _ => by simp)
    | fork p => exact hkept (fun _ => by simp)
    | exec p => exact hkept (fun _ => by simp)
    | unlock p => exact hkept (fun _ => by simp)
    | remove => exact hkept (fun _ => by simp)
  | onInit p =>
    obtain ⟨⟨hp, hnone⟩, hnew⟩ := Option.ite_none_right_eq_some.mp ha
    obtain rfl := Option.some.inj hnew
    refine ⟨hh.processes, hh.sockets, fun q l hbound => ?_, fun q hq => ?_⟩
    · have hqp : q ≠ p := fun hqp => by
        rw [hqp] at hbound
        exact hbound (hh.unbound hnone)
      exact (Function.update_of_ne hqp _ _).trans (hh.current q l hbound)
    · by_cases hqp : q = p
      · exact .inl (hqp ▸ hp)
      · have hsame : Function.update h.m_playWorker p (some 0) q = h.m_playWorker q :=
          Function.update_of_ne hqp _ _
        exact hh.alive q fun hcontra => hq (hsame.trans hcontra)
  | initData p creates w =>
    obtain ⟨k, hk, hinit⟩ := Option.bind_eq_some_iff.mp ha
    obtain ⟨⟨hp, hunbound⟩, hnew⟩ := Option.ite_none_right_eq_some.mp hinit
    obtain rfl := Option.some.inj hnew
    cases creates with
    | false => exact hh
    | true =>
      have hidle : ∀ j, (h.sockets.streams j).m_sock = none := fun j => by
        by_cases hj : j = (p, k)
        · by_contra hsock
          obtain ⟨s, hs⟩ := Option.ne_none_iff_exists'.mp hsock
          rw [hj] at hs
          have hbound := hh.sockets.bound _ s hs
          rw [hunbound] at hbound
          exact (hh.sockets.usable _ s hs).1 hbound.symm
        · exact hh.others hp hk horderly hj
      refine ⟨hh.processes, hh.sockets.listen hidle, fun q l hbound => ?_, hh.alive⟩
      by_cases hql : (q, l) = (p, k)
      · obtain ⟨rfl, rfl⟩ := Prod.mk.inj hql
        exact hk
      · refine hh.current q l ?_
        have hsame : (h.sockets.listen (p, k) path w).streams (q, l) =
            h.sockets.streams (q, l) := by
          unfold UnixStream.Host.listen
          split
          next => rfl
          next => exact Function.update_of_ne hql _ _
        rwa [← hsame]
  | onSleep p =>
    obtain ⟨k, hk, hsleep⟩ := Option.bind_eq_some_iff.mp ha
    obtain ⟨hp, hnew⟩ := Option.ite_none_right_eq_some.mp hsleep
    obtain rfl := Option.some.inj hnew
    have halone : UnixStream.Alone h.sockets (.destroyed (p, k)) :=
      fun _ j hj => hh.others hp hk horderly hj
    have hsockets : UnixStream.Sound path (h.sockets.destroyed (p, k)) := by
      have hstep : UnixStream.step path h.sockets (.destroyed (p, k)) =
        some (h.sockets.destroyed (p, k)) := rfl
      obtain ⟨-, hsound⟩ | ⟨hnot, -⟩ := UnixStream.step_sound hh.sockets hstep
      · exact hsound
      · exact absurd halone hnot
    have hstreams : (h.sockets.destroyed (p, k)).streams =
        Function.update h.sockets.streams (p, k) {} := by
      unfold UnixStream.Host.destroyed
      dsimp only
      split <;> rfl
    refine ⟨hh.processes, hsockets, fun q l hbound => ?_, fun q hq => ?_⟩
    · rw [hstreams] at hbound
      by_cases hql : (q, l) = (p, k)
      · rw [hql, Function.update_self] at hbound
        exact absurd rfl hbound
      · rw [Function.update_of_ne hql] at hbound
        have hl := hh.current q l hbound
        have hqp : q ≠ p := fun hqp => hql (by
          rw [hqp] at hl
          rw [hqp, Option.some.inj (hl.symm.trans hk)])
        exact (Function.update_of_ne hqp _ _).trans hl
    · by_cases hqp : q = p
      · exact .inl (hqp ▸ hp)
      · have hsame : Function.update h.m_playWorker p (some (k + 1)) q = h.m_playWorker q :=
          Function.update_of_ne hqp _ _
        exact hh.alive q fun hcontra => hq (hsame.trans hcontra)

def started (files : SocketFiles) : Host π := { sockets := UnixStream.started files }

/-- **The playback socket is never lost.** Over any number of processes of the
audio service that start, end and are killed, and any number of times that the
computer wakes up, every worker that listens is reached by the path of the
socket, and no socket is left open without one. -/
theorem playback_served {files : SocketFiles} {actions : List (Action π)}
    (hrun : run (step path) (started files) actions = some h)
    (horderly : Guarded (step path) Orderly (started files) actions) :
    UnixStream.Served path h.sockets ∧
      ∀ i s, (h.sockets.streams i).m_sock = some s → h.m_playWorker i.1 = some i.2 := by
  have hsound : Sound path h := by
    refine run_guarded (I := Sound path) (fun _ _ _ hh hok => step_sound hh hok) ?_ horderly hrun
    refine ⟨LockFile.started_sound, ?_, fun p k hbound => absurd rfl hbound,
      fun p hp => absurd rfl hp⟩
    exact UnixStream.Sound.of_idle (fun _ => rfl) rfl fun _ => .inl rfl
  refine ⟨hsound.sockets.toServed, fun i s hi => hsound.current i.1 i.2 ?_⟩
  rw [hsound.sockets.bound i s hi]
  exact (hsound.sockets.usable i s hi).1

/-- The service is killed in its sleep, and its successor wakes up again. -/
def wakeUps : List (Action (Bool)) :=
  [.process (.start false true), .process (.flock false none), .onInit false,
    .initData false true ⟨true, true⟩, .onSleep false, .initData false true ⟨true, true⟩,
    .process (.exit false), .process (.start true true),
    .process (.flock true none), .onInit true, .initData true true ⟨true, true⟩, .onSleep true,
    .initData true true ⟨true, true⟩]

def kmre_audio_playback : QString := "/run/kmre_audio_playback".toList

theorem wakeUps_served : ∃ h, run (step kmre_audio_playback) (started UnixStream.bare) wakeUps =
    some h ∧ UnixStream.Served kmre_audio_playback h.sockets ∧
      ∃ s, (h.sockets.streams (true, 1)).m_sock = some s := by
  have hend : (run (step kmre_audio_playback) (started UnixStream.bare) wakeUps).map
      (fun h => (h.sockets.streams (true, 1)).m_sock) = some (some 3) := by decide +kernel
  obtain ⟨h, hrun, hh⟩ := Option.map_eq_some_iff.mp hend
  exact ⟨h, hrun, (playback_served hrun (by decide +kernel)).1, 3, hh⟩

end KmreManager.Audio.AudioServer
