import Mathlib.Data.Fintype.Basic
import KmreManager.Lib.Runs
import KmreManager.Lib.FileLocks

/-! # One process of each service

Each service opens its lock file before anything else and goes on with the lock
only: audio/main.cpp, gps/main.cpp, sensors/main.cpp (`do_lock_file`),
filewatcher/lock-file.cpp (`test_lockfile`) and manager/common/utils.cpp
(`tryLockFile`). Here are the processes of one service, as many as are started,
and the children they fork, which have the open file until they call `exec`. -/
namespace KmreManager.LockFile

open Lib Lib.Runs

inductive Service
  | audio
  | gps
  | sensors
  | filewatcher
  | manager
deriving DecidableEq

inductive Errno
  | EBADF
  | EINTR
  | EINVAL
  | ENOLCK
  | EWOULDBLOCK
deriving DecidableEq

/-- `flock` is called again after so many calls, the last of which has failed. -/
def Service.again : Service → Nat → Errno → Bool
  | .manager, calls, errno => calls = 1 && errno = .EWOULDBLOCK
  | .filewatcher, _, _ => false
  | .audio, calls, errno | .gps, calls, errno | .sensors, calls, errno =>
    calls < 5 && !(errno = .EBADF || errno = .EINVAL || errno = .EWOULDBLOCK)

/-- Whoever does not get the lock closes the file; `tryLockFile` leaves that to
the end of the process. -/
def Service.keepsOpen : Service → Bool
  | .manager => true
  | .audio | .gps | .sensors | .filewatcher => false

inductive Phase
  | absent
  | locking (calls : Nat)
  | running
  | leaving (isOpen : Bool)
deriving DecidableEq

/-- The processes, their open lock files, and the file that has the name. -/
structure Host (π : Type) where
  locks : FileLocks π Nat := .empty
  name : Option Nat := none
  next : Nat := 0
  phase : π → Phase := fun _ => .absent
  children : π → Nat := fun _ => 0

inductive Action (π : Type)
  /-- `open` with `O_CREAT`, which may fail -/
  | start (p : π) (opens : Bool)
  /-- `flock`, and what fails it but a lock -/
  | flock (p : π) (failure : Option Errno)
  | fork (p : π)
  | exec (p : π)
  /-- `unlock_fd`, `releaseLockFile` -/
  | unlock (p : π)
  | exit (p : π)
  /-- someone removes the lock file -/
  | remove
deriving DecidableEq

namespace Host

variable {π : Type} [DecidableEq π] (h : Host π) (p : π)

def enter (phase : Phase) : Host π := { h with phase := Function.update h.phase p phase }

def start (opens : Bool) : Host π :=
  if opens then
    let file := h.name.getD h.next
    { h with locks := h.locks.openFile p file, name := some file, next := h.next + 1 }.enter p
      (.locking 0)
  else h.enter p (.leaving false)

/-- A description that neither the process nor a child of it has open is closed. -/
def drop : Host π :=
  if (h.phase p = .absent ∨ h.phase p = .leaving false) ∧ h.children p = 0 then
    { h with locks := h.locks.close p }
  else h

/-- The lock is refused. -/
def refused (service : Service) (calls : Nat) (errno : Errno) : Host π :=
  if service.again (calls + 1) errno then h.enter p (.locking (calls + 1))
  else (h.enter p (.leaving service.keepsOpen)).drop p

def flock (service : Service) (calls : Nat) : Option Errno → Host π
  | some errno => h.refused p service calls errno
  | none =>
    if h.locks.Free p then { h with locks := h.locks.lock p }.enter p .running
    else h.refused p service calls .EWOULDBLOCK

end Host

variable {π : Type} [DecidableEq π]

def step (service : Service) (h : Host π) : Action π → Option (Host π)
  | .start p opens =>
    if h.phase p = .absent ∧ h.children p = 0 then some (h.start p opens) else none
  | .flock p failure =>
    match h.phase p with
    | .locking calls => some (h.flock p service calls failure)
    | _ => none
  | .fork p =>
    if h.phase p = .running then
      some { h with children := Function.update h.children p (h.children p + 1) }
    else none
  | .exec p =>
    if h.children p = 0 then none
    else some ({ h with children := Function.update h.children p (h.children p - 1) }.drop p)
  | .unlock p =>
    if h.phase p = .running then
      some (({ h with locks := h.locks.unlock p }.enter p (.leaving false)).drop p)
    else none
  | .exit p => if h.phase p = .absent then none else some ((h.enter p .absent).drop p)
  | .remove => some { h with name := none }

/-- The lock file is not removed while a process or a child of one has it open. -/
def Kept (h : Host π) : Action π → Prop
  | .remove => ∀ p, h.locks.file p = none
  | _ => True

instance [Fintype π] : ∀ (h : Host π) (a : Action π), Decidable (Kept h a)
  | _, .remove => inferInstanceAs (Decidable (∀ _, _ = none))
  | _, .start _ _ | _, .flock _ _ | _, .fork _ | _, .exec _ | _, .unlock _ | _, .exit _ =>
    .isTrue trivial

structure Sound (h : Host π) : Prop where
  named : ∀ p i, h.locks.file p = some i → h.name = some i
  running : ∀ p, h.phase p = .running → h.locks.Held p
  held : ∀ p, h.locks.Held p → h.phase p = .running ∨ (h.phase p = .absent ∧ 0 < h.children p)
  locking : ∀ p calls, h.phase p = .locking calls → h.locks.file p ≠ none

variable {h h' : Host π} {p q : π} {service : Service} {phase : Phase}

/-! ## What a step does to one process and not to the others -/

theorem enter_self : (h.enter p phase).phase p = phase := Function.update_self _ _ _

theorem enter_other (hq : q ≠ p) : (h.enter p phase).phase q = h.phase q :=
  Function.update_of_ne hq _ _

/-- A process whose lock, if it had one, is gone. -/
theorem Sound.leave (hh : Sound h) {locks : FileLocks π Nat}
    (hfile : locks.file = h.locks.file ∨ locks.file = Function.update h.locks.file p none)
    (hheld : ∀ q, locks.Held q ↔ q ≠ p ∧ h.locks.Held q)
    (hphase : phase ≠ .running) (hcalls : ∀ calls, phase ≠ .locking calls) :
    Sound ({ h with locks := locks }.enter p phase) where
  named q i hq := by
    obtain hfile | hfile := hfile
    · rw [Host.enter, hfile] at hq
      exact hh.named q i hq
    · by_cases hqp : q = p
      · rw [Host.enter, hfile, hqp, Function.update_self] at hq
        cases hq
      · rw [Host.enter, hfile, Function.update_of_ne hqp] at hq
        exact hh.named q i hq
  running q hq := by
    by_cases hqp : q = p
    · rw [hqp, enter_self] at hq
      exact absurd hq hphase
    · rw [enter_other hqp] at hq
      exact (hheld q).mpr ⟨hqp, hh.running q hq⟩
  held q hq := by
    obtain ⟨hqp, hq⟩ := (hheld q).mp hq
    rw [enter_other hqp]
    exact hh.held q hq
  locking q calls hq := by
    by_cases hqp : q = p
    · rw [hqp, enter_self] at hq
      exact absurd hq (hcalls calls)
    · rw [enter_other hqp] at hq
      have hopen := hh.locking q calls hq
      obtain hfile | hfile := hfile
      · rwa [Host.enter, hfile]
      · rwa [Host.enter, hfile, Function.update_of_ne hqp]

/-- One description may be left that nobody has open any more. -/
structure Dropping (p : π) (h : Host π) : Prop where
  named : ∀ q i, h.locks.file q = some i → h.name = some i
  running : ∀ q, h.phase q = .running → h.locks.Held q
  held : ∀ q, h.locks.Held q →
    h.phase q = .running ∨ (h.phase q = .absent ∧ (0 < h.children q ∨ q = p))
  locking : ∀ q calls, h.phase q = .locking calls → h.locks.file q ≠ none

omit [DecidableEq π] in
theorem Sound.dropping (hh : Sound h) : Dropping p h :=
  ⟨hh.named, hh.running, fun q hq => (hh.held q hq).imp_right fun hq => ⟨hq.1, .inl hq.2⟩,
    hh.locking⟩

theorem Dropping.drop (hh : Dropping p h) : Sound (h.drop p) := by
  unfold Host.drop
  split
  next hgone =>
    have hother : ∀ q phase, h.phase q = phase → phase ≠ .absent → phase ≠ .leaving false →
        q ≠ p := fun q phase hq habsent hleaving hqp => by
      rw [hqp] at hq
      rcases hgone.1 with hgone | hgone
      · exact habsent (hq.symm.trans hgone)
      · exact hleaving (hq.symm.trans hgone)
    refine ⟨fun q i hq => ?_, fun q hq => ?_, fun q hq => ?_, fun q calls hq => ?_⟩
    · by_cases hqp : q = p
      · rw [hqp, FileLocks.close_file_self] at hq
        cases hq
      · rw [FileLocks.close_file_ne hqp] at hq
        exact hh.named q i hq
    · exact FileLocks.close_held.mpr ⟨hother q _ hq (by simp) (by simp), hh.running q hq⟩
    · obtain ⟨hqp, hq⟩ := FileLocks.close_held.mp hq
      exact (hh.held q hq).imp_right fun hq => ⟨hq.1, hq.2.resolve_right hqp⟩
    · rw [FileLocks.close_file_ne (hother q _ hq (by simp) (by simp))]
      exact hh.locking q calls hq
  next hkept =>
    refine ⟨hh.named, hh.running, fun q hq => ?_, hh.locking⟩
    refine (hh.held q hq).imp_right fun hq => ⟨hq.1, ?_⟩
    rcases hq.2 with hchildren | rfl
    · exact hchildren
    · exact Nat.pos_of_ne_zero fun hzero => hkept ⟨.inl hq.1, hzero⟩

theorem Sound.refused {calls : Nat} {errno : Errno} (hh : Sound h)
    (hp : h.phase p = .locking calls) : Sound (h.refused p service calls errno) := by
  have hnot : ¬ h.locks.Held p := fun hheld => by
    rcases hh.held p hheld with hp' | ⟨hp', -⟩ <;> rw [hp] at hp' <;> cases hp'
  have hheld : ∀ q, h.locks.Held q ↔ q ≠ p ∧ h.locks.Held q := fun q =>
    ⟨fun hq => ⟨fun hqp => hnot (hqp ▸ hq), hq⟩, fun hq => hq.2⟩
  unfold Host.refused
  split
  next =>
    refine ⟨hh.named, fun q hq => ?_, fun q hq => ?_, fun q calls' hq => ?_⟩
    · by_cases hqp : q = p
      · rw [hqp, enter_self] at hq
        cases hq
      · rw [enter_other hqp] at hq
        exact hh.running q hq
    · rw [enter_other ((hheld q).mp hq).1]
      exact hh.held q hq
    · by_cases hqp : q = p
      · rw [hqp]
        exact hh.locking p calls hp
      · rw [enter_other hqp] at hq
        exact hh.locking q calls' hq
  next => exact (hh.leave (.inl rfl) hheld (by simp) (by simp)).dropping.drop

/-- The lock is had by nobody else, with the file that all have open. -/
theorem Sound.free (hh : Sound h) {calls : Nat} (hp : h.phase p = .locking calls) :
    h.locks.Free p ↔ ∀ q, ¬ h.locks.Held q := by
  obtain ⟨i, hi⟩ := Option.ne_none_iff_exists'.mp (hh.locking p calls hp)
  rw [FileLocks.free_iff hi]
  constructor
  · intro hfree q hq
    by_cases hqp : q = p
    · rw [hqp] at hq
      rcases hh.held p hq with hp' | ⟨hp', -⟩ <;> rw [hp] at hp' <;> cases hp'
    · obtain ⟨j, hj⟩ := Option.ne_none_iff_exists'.mp hq.file_ne
      have hij : some i = some j := (hh.named p i hi).symm.trans (hh.named q j hj)
      exact hfree q hqp (hj.trans hij.symm) hq
  · exact fun hnone q _ _ => hnone q

theorem Sound.start {opens : Bool} (hh : Sound h) (hp : h.phase p = .absent)
    (hchildren : h.children p = 0) : Sound (h.start p opens) := by
  have hnot : ¬ h.locks.Held p := fun hheld => by
    rcases hh.held p hheld with hp' | ⟨-, hp'⟩
    · rw [hp] at hp'
      cases hp'
    · exact absurd hchildren (Nat.ne_of_gt hp')
  unfold Host.start
  split
  next =>
    refine ⟨fun q i hq => ?_, fun q hq => ?_, fun q hq => ?_, fun q calls hq => ?_⟩
    · by_cases hqp : q = p
      · rw [Host.enter, hqp, FileLocks.openFile_file_self] at hq
        exact hq
      · rw [Host.enter, FileLocks.openFile_file_ne hqp] at hq
        have hname := hh.named q i hq
        exact congrArg some (by rw [hname, Option.getD_some])
    · by_cases hqp : q = p
      · rw [hqp, enter_self] at hq
        cases hq
      · rw [enter_other hqp] at hq
        exact FileLocks.openFile_held.mpr ⟨hqp, hh.running q hq⟩
    · obtain ⟨hqp, hq⟩ := FileLocks.openFile_held.mp hq
      rw [enter_other hqp]
      exact hh.held q hq
    · by_cases hqp : q = p
      · rw [Host.enter, hqp, FileLocks.openFile_file_self]
        exact Option.some_ne_none _
      · rw [enter_other hqp] at hq
        rw [Host.enter, FileLocks.openFile_file_ne hqp]
        exact hh.locking q calls hq
  next =>
    refine hh.leave (.inl rfl) (fun q => ?_) (by simp) (by simp)
    exact ⟨fun hq => ⟨fun hqp => hnot (hqp ▸ hq), hq⟩, fun hq => hq.2⟩

theorem Sound.flock {calls : Nat} {failure : Option Errno} (hh : Sound h)
    (hp : h.phase p = .locking calls) : Sound (h.flock p service calls failure) := by
  cases failure with
  | some errno => exact hh.refused hp
  | none =>
    rw [Host.flock]
    split
    next hfree =>
      refine ⟨fun q i hq => ?_, fun q hq => ?_, fun q hq => ?_, fun q calls' hq => ?_⟩
      · rw [Host.enter, FileLocks.lock_file] at hq
        exact hh.named q i hq
      · refine (FileLocks.lock_held hfree).mpr ?_
        by_cases hqp : q = p
        · exact .inl hqp
        · rw [enter_other hqp] at hq
          exact .inr (hh.running q hq)
      · by_cases hqp : q = p
        · rw [hqp, enter_self]
          exact .inl rfl
        · rw [enter_other hqp]
          exact hh.held q (((FileLocks.lock_held hfree).mp hq).resolve_left hqp)
      · by_cases hqp : q = p
        · rw [hqp, enter_self] at hq
          cases hq
        · rw [enter_other hqp] at hq
          rw [Host.enter, FileLocks.lock_file]
          exact hh.locking q calls' hq
    next => exact hh.refused hp

/-- **Step lemma.** -/
theorem step_sound {a : Action π} (hh : Sound h) (hkept : Kept h a)
    (ha : step service h a = some h') : Sound h' := by
  cases a with
  | start p opens =>
    obtain ⟨hp, hstart⟩ := Option.ite_none_right_eq_some.mp ha
    obtain rfl := Option.some.inj hstart
    exact hh.start hp.1 hp.2
  | flock p failure =>
    rw [step] at ha
    split at ha
    next calls hp =>
      obtain rfl := Option.some.inj ha
      exact hh.flock hp
    next => cases ha
  | fork p =>
    obtain ⟨hp, hfork⟩ := Option.ite_none_right_eq_some.mp ha
    obtain rfl := Option.some.inj hfork
    refine ⟨hh.named, hh.running, fun q hq => ?_, hh.locking⟩
    by_cases hqp : q = p
    · exact .inl (hqp ▸ hp)
    · refine (hh.held q hq).imp_right fun hq => ⟨hq.1, ?_⟩
      have hsame : Function.update h.children p (h.children p + 1) q = h.children q :=
        Function.update_of_ne hqp _ _
      exact Nat.lt_of_lt_of_eq hq.2 hsame.symm
  | exec p =>
    obtain ⟨-, hexec⟩ := Option.ite_none_left_eq_some.mp ha
    obtain rfl := Option.some.inj hexec
    refine Dropping.drop ⟨hh.named, hh.running, fun q hq => ?_, hh.locking⟩
    refine (hh.held q hq).imp_right fun hq => ⟨hq.1, ?_⟩
    by_cases hqp : q = p
    · exact .inr hqp
    · have hsame : Function.update h.children p (h.children p - 1) q = h.children q :=
        Function.update_of_ne hqp _ _
      exact .inl (Nat.lt_of_lt_of_eq hq.2 hsame.symm)
  | unlock p =>
    obtain ⟨hp, hunlock⟩ := Option.ite_none_right_eq_some.mp ha
    obtain rfl := Option.some.inj hunlock
    refine Dropping.drop (Sound.dropping ?_)
    exact hh.leave (.inl rfl) (fun q => FileLocks.unlock_held) (by simp) (by simp)
  | exit p =>
    obtain ⟨hp, hexit⟩ := Option.ite_none_left_eq_some.mp ha
    obtain rfl := Option.some.inj hexit
    refine Dropping.drop ⟨hh.named, fun q hq => ?_, fun q hq => ?_, fun q calls hq => ?_⟩
    · by_cases hqp : q = p
      · rw [hqp, enter_self] at hq
        cases hq
      · rw [enter_other hqp] at hq
        exact hh.running q hq
    · by_cases hqp : q = p
      · rw [hqp, enter_self]
        exact .inr ⟨rfl, .inr rfl⟩
      · rw [enter_other hqp]
        exact (hh.held q hq).imp_right fun hq => ⟨hq.1, .inl hq.2⟩
    · by_cases hqp : q = p
      · rw [hqp, enter_self] at hq
        cases hq
      · rw [enter_other hqp] at hq
        exact hh.locking q calls hq
  | remove =>
    obtain rfl := Option.some.inj ha
    refine ⟨fun q i hq => ?_, hh.running, hh.held, hh.locking⟩
    rw [hkept q] at hq
    cases hq

omit [DecidableEq π] in
theorem Sound.unique (hh : Sound h) (hp : h.phase p = .running) (hq : h.phase q = .running) :
    p = q := by
  have hheldp := hh.running p hp
  have hheldq := hh.running q hq
  obtain ⟨i, hi⟩ := Option.ne_none_iff_exists'.mp hheldp.file_ne
  obtain ⟨j, hj⟩ := Option.ne_none_iff_exists'.mp hheldq.file_ne
  have hij : some i = some j := (hh.named p i hi).symm.trans (hh.named q j hj)
  exact hheldp.unique hheldq (hi.trans (hij.trans hj.symm))

omit [DecidableEq π] in
theorem started_sound : Sound ({} : Host π) := by
  have hnone : ∀ q, ¬ ({} : Host π).locks.Held q := fun q hq => absurd rfl hq.file_ne
  exact ⟨fun q i hq => absurd hq (Option.some_ne_none i).symm, fun q hq => Phase.noConfusion hq,
    fun q hq => absurd hq (hnone q), fun q calls hq => Phase.noConfusion hq⟩

/-- Only its own end takes a process away that is past the lock. -/
theorem step_stays {a : Action π} (ha : step service h a = some h') (hexit : a ≠ .exit p)
    (hp : h.phase p = .running ∨ h.phase p = .leaving false) :
    h'.phase p = .running ∨ h'.phase p = .leaving false := by
  have hdrop : ∀ (h : Host π) (q : π), (h.drop q).phase = h.phase := fun h q => by
    unfold Host.drop
    split <;> rfl
  have hother : ∀ q, h.phase q ≠ .running → h.phase q ≠ .leaving false → p ≠ q :=
    fun q hrunning hleaving hpq => by
      rw [hpq] at hp
      exact hp.elim hrunning hleaving
  cases a with
  | start q opens =>
    obtain ⟨hq, hstart⟩ := Option.ite_none_right_eq_some.mp ha
    obtain rfl := Option.some.inj hstart
    have hpq := hother q (by simp [hq.1]) (by simp [hq.1])
    unfold Host.start
    split
    · rwa [enter_other hpq]
    · rwa [enter_other hpq]
  | flock q failure =>
    rw [step] at ha
    split at ha
    next calls hq =>
      obtain rfl := Option.some.inj ha
      have hpq := hother q (by simp [hq]) (by simp [hq])
      have hrefused : ∀ errno, (h.refused q service calls errno).phase p = h.phase p :=
        fun errno => by
          unfold Host.refused
          split
          · rw [enter_other hpq]
          · rw [hdrop, enter_other hpq]
      cases failure with
      | some errno => rwa [Host.flock, hrefused]
      | none =>
        rw [Host.flock]
        split
        · rwa [enter_other hpq]
        · rwa [hrefused]
    next => cases ha
  | fork q =>
    obtain ⟨-, hfork⟩ := Option.ite_none_right_eq_some.mp ha
    obtain rfl := Option.some.inj hfork
    exact hp
  | exec q =>
    obtain ⟨-, hexec⟩ := Option.ite_none_left_eq_some.mp ha
    obtain rfl := Option.some.inj hexec
    rwa [hdrop]
  | unlock q =>
    obtain ⟨-, hunlock⟩ := Option.ite_none_right_eq_some.mp ha
    obtain rfl := Option.some.inj hunlock
    rw [hdrop]
    by_cases hpq : p = q
    · rw [hpq, enter_self]
      exact .inr rfl
    · rwa [enter_other hpq]
  | exit q =>
    obtain ⟨-, hend⟩ := Option.ite_none_left_eq_some.mp ha
    obtain rfl := Option.some.inj hend
    have hpq : p ≠ q := fun hpq => hexit (hpq ▸ rfl)
    rwa [hdrop, enter_other hpq]
  | remove =>
    obtain rfl := Option.some.inj ha
    exact hp

/-- **One process at a time.** However the processes of a service start, end,
are killed and fork in between, at most one is past its lock, as long as the
lock file is not removed under them. The lock is never lost: a process gets it
at the first call that is not interrupted if none is past it and no child of a
killed one still has the file open. -/
theorem one_running {actions : List (Action π)} (hrun : run (step service) {} actions = some h)
    (hkept : Guarded (step service) Kept {} actions) :
    (∀ p q, h.phase p = .running → h.phase q = .running → p = q) ∧
      ∀ p calls, h.phase p = .locking calls →
        (∀ q, h.phase q ≠ .running ∧ (h.phase q = .absent → h.children q = 0)) →
          ∀ h', step service h (.flock p none) = some h' → h'.phase p = .running := by
  have hsound : Sound h :=
    run_guarded (I := Sound) (fun _ _ _ hh hok => step_sound hh hok) started_sound hkept hrun
  refine ⟨fun p q hp hq => hsound.unique hp hq, fun p calls hp hnone h' hstep => ?_⟩
  have hfree : h.locks.Free p := by
    refine (hsound.free hp).mpr fun q hq => ?_
    rcases hsound.held q hq with hrunning | ⟨habsent, hchildren⟩
    · exact (hnone q).1 hrunning
    · exact absurd ((hnone q).2 habsent) (Nat.ne_of_gt hchildren)
  rw [step, hp] at hstep
  obtain rfl := Option.some.inj hstep
  rw [Host.flock, if_pos hfree]
  exact enter_self

/-- The first manager is killed while a child of it has not called `exec` yet, and
the second one calls `flock` twice. -/
def secondManager : List (Action Bool) :=
  [.start false true, .start true true, .flock false none, .fork false, .exit false,
    .flock true none, .exec false]

theorem secondManager_running : ∃ h, run (step .manager) {} secondManager = some h ∧
    ∀ h', step .manager h (.flock true none) = some h' → h'.phase true = .running := by
  have hend : (run (step .manager) {} secondManager).map (fun h =>
      (h.phase true, h.phase false, h.children false, h.children true)) =
        some (.locking 1, .absent, 0, 0) := by decide
  obtain ⟨h, hrun, hh⟩ := Option.map_eq_some_iff.mp hend
  obtain ⟨hlocking, habsent, hfirst, hsecond⟩ : h.phase true = .locking 1 ∧
      h.phase false = .absent ∧ h.children false = 0 ∧ h.children true = 0 := by simpa using hh
  refine ⟨h, hrun, (one_running hrun (by decide)).2 true 1 hlocking ?_⟩
  intro q
  cases q with
  | false => exact ⟨by simp [habsent], fun _ => hfirst⟩
  | true => exact ⟨by simp [hlocking], fun _ => hsecond⟩

end KmreManager.LockFile
