import KmreManager.Lib.Runs
import KmreManager.Audio.PlaybackWorker

/-! # Shutting the playback down

`exitPlayback` runs on another thread than `start`. Here the two are processes
that take one step at a time: a read or write of a member they share, an
`accept`, a `recv`, a `shutdown`. `exitPlayback` looks at `m_stream` before it
shuts the listening socket down, and sets `mExit` last. -/
namespace KmreManager.Audio.PlaybackShutdown

open Lib.Runs

/-- Where `start` stands, named by what it does next. -/
inductive Worker
  | accepting
  /-- `accept` has returned, `m_stream` is not written yet -/
  | assigning (stream : Option Nat)
  /-- `if (!m_stream)` -/
  | testing
  /-- `if (mExit)` after a failed `accept` -/
  | refused
  /-- about to enter, or in, `readFully(&type)` -/
  | readingType
  /-- `if (mExit)` after a failed `readFully(&type)` -/
  | unread
  /-- the type is read -/
  | dispatching
  /-- about to enter, or in, `readFully` of a buffer -/
  | reading
  /-- a buffer is read -/
  | playing
  /-- `if (mExit)` after the inner loop -/
  | ended
  | stopping
  | deleting
  | clearing
  | left
deriving DecidableEq

/-- Where `exitPlayback` stands. -/
inductive Exit
  | notCalled
  /-- `if (m_stream)` -/
  | testing
  /-- `m_stream->`, read once more -/
  | calling
  | stopping (stream : Nat)
  | stoppingListener
  | settingExit
  | returned
  /-- `forceStop` was called through a null pointer -/
  | crashed
deriving DecidableEq

structure State where
  m_stream : Option Nat := none
  mExit : Bool := false
  accepted : Nat := 0
  /-- the streams that were shut down -/
  down : List Nat := []
  listenerDown : Bool := false
  worker : Worker := .accepting
  exit : Exit := .notCalled
deriving DecidableEq

/-- One `recv` of `readFully`. -/
inductive Recv
  | more
  | full
  | failed
deriving DecidableEq

/-- What becomes of a client whose type was read. -/
inductive Client
  | plays
  | deviceFails
  | otherType
deriving DecidableEq

inductive Action
  /-- A listening socket that was shut down may still return a connection that
  was pending. -/
  | accept (returns : Bool)
  | assign
  | test
  | readExit
  | recv (result : Recv)
  | dispatch (client : Client)
  | play (breaks : Bool)
  | forceStop
  | delete
  | clear
  /-- the next step of `exitPlayback` -/
  | exitPlayback
deriving DecidableEq

/-- A step of `start`. Nobody else writes `m_stream`, so what it finds there is
what it wrote last. -/
def workerStep (s : State) : Worker → Action → Option State
  | .accepting, .accept true =>
    some { s with worker := .assigning (some s.accepted), accepted := s.accepted + 1 }
  | .accepting, .accept false => some { s with worker := .assigning none }
  | .assigning stream, .assign => some { s with m_stream := stream, worker := .testing }
  | .testing, .test =>
    some { s with worker := if s.m_stream.isSome then .readingType else .refused }
  | .refused, .readExit => some { s with worker := if s.mExit then .left else .accepting }
  | .readingType, .recv .more => some s
  | .readingType, .recv .full => some { s with worker := .dispatching }
  | .readingType, .recv .failed => some { s with worker := .unread }
  | .unread, .readExit => some { s with worker := if s.mExit then .left else .stopping }
  | .dispatching, .dispatch .plays => some { s with worker := .reading }
  -- `continue` without releasing the stream
  | .dispatching, .dispatch .deviceFails => some { s with worker := .accepting }
  | .dispatching, .dispatch .otherType => some { s with worker := .stopping }
  | .reading, .recv .more => some s
  | .reading, .recv .full => some { s with worker := .playing }
  | .reading, .recv .failed => some { s with worker := .ended }
  | .playing, .play breaks => some { s with worker := if breaks then .ended else .reading }
  | .ended, .readExit => some { s with worker := if s.mExit then .left else .stopping }
  | .stopping, .forceStop =>
    match s.m_stream with
    | some k => some { s with down := k :: s.down, worker := .deleting }
    | none => some { s with worker := .accepting }
  | .deleting, .delete => some { s with worker := .clearing }
  | .clearing, .clear => some { s with m_stream := none, worker := .accepting }
  | _, _ => none

def exitStep (s : State) : Exit → Option State
  | .notCalled => some { s with exit := .testing }
  | .testing =>
    some { s with exit := if s.m_stream.isSome then .calling else .stoppingListener }
  | .calling =>
    match s.m_stream with
    | some k => some { s with exit := .stopping k }
    | none => some { s with exit := .crashed }
  | .stopping k => some { s with down := k :: s.down, exit := .stoppingListener }
  | .stoppingListener => some { s with listenerDown := true, exit := .settingExit }
  | .settingExit => some { s with mExit := true, exit := .returned }
  | .returned | .crashed => none

def step (s : State) (a : Action) : Option State :=
  if s.exit = .crashed then none
  else if a = .exitPlayback then exitStep s s.exit
  else workerStep s s.worker a

/-- `exitPlayback` has returned, and the worker is in `readFully` on a stream
that was not shut down. -/
def Stuck (s : State) : Prop :=
  s.exit = .returned ∧ (s.worker = .readingType ∨ s.worker = .reading) ∧
    ∃ k ∈ s.m_stream, k ∉ s.down

/-! ## What the steps do -/

variable {s s' : State} {a : Action}

/-- The worker goes on with the stream it has: it may shut it down or lose it. -/
def GoesOn (s s' : State) : Prop :=
  ∃ down m_stream worker, s' = { s with down, m_stream, worker } ∧
    (∀ j, worker ≠ .assigning (some j)) ∧
    (down = s.down ∨ ∃ k, s.m_stream = some k ∧ down = k :: s.down) ∧
    (m_stream = s.m_stream ∨ m_stream = none)

theorem GoesOn.of_worker {worker : Worker} (hworker : ∀ j, worker ≠ .assigning (some j))
    (h : some { s with worker } = some s') : GoesOn s s' :=
  ⟨_, _, _, (Option.some.inj h).symm, hworker, .inl rfl, .inl rfl⟩

/-- **A step of `start`.** `accept` returns a stream, its result is assigned, or
the worker goes on. -/
theorem workerStep_cases {w : Worker} (hworker : s.worker = w) (h : workerStep s w a = some s') :
    (a = .accept true ∧ s' =
        { s with worker := .assigning (some s.accepted), accepted := s.accepted + 1 }) ∨
      (∃ stream, a = .assign ∧ w = .assigning stream ∧
        s' = { s with m_stream := stream, worker := .testing }) ∨
      (a ≠ .accept true ∧ GoesOn s s') := by
  cases w with
  | accepting =>
    cases a with
    | accept returns =>
      cases returns with
      | true => exact .inl ⟨rfl, (Option.some.inj h).symm⟩
      | false => exact .inr (.inr ⟨by simp, .of_worker (by simp) h⟩)
    | _ => cases h
  | assigning stream =>
    cases a with
    | assign => exact .inr (.inl ⟨stream, rfl, rfl, (Option.some.inj h).symm⟩)
    | _ => cases h
  | testing =>
    cases a with
    | test => exact .inr (.inr ⟨by simp, .of_worker (by split <;> simp) h⟩)
    | _ => cases h
  | refused | unread | ended =>
    cases a with
    | readExit => exact .inr (.inr ⟨by simp, .of_worker (by split <;> simp) h⟩)
    | _ => cases h
  | playing =>
    cases a with
    | play breaks => exact .inr (.inr ⟨by simp, .of_worker (by split <;> simp) h⟩)
    | _ => cases h
  | readingType | reading =>
    cases a with
    | recv result =>
      cases result with
      | more =>
        have hkept : some { s with worker := s.worker } = some s' := h
        exact .inr (.inr ⟨by simp, .of_worker (by simp [hworker]) hkept⟩)
      | full | failed => exact .inr (.inr ⟨by simp, .of_worker (by simp) h⟩)
    | _ => cases h
  | dispatching =>
    cases a with
    | dispatch client =>
      cases client with
      | plays | deviceFails | otherType => exact .inr (.inr ⟨by simp, .of_worker (by simp) h⟩)
    | _ => cases h
  | stopping =>
    cases a with
    | forceStop =>
      cases hstream : s.m_stream with
      | none =>
        simp only [workerStep, hstream] at h
        exact .inr (.inr ⟨by simp, .of_worker (by simp) (hstream ▸ h)⟩)
      | some k =>
        simp only [workerStep, hstream] at h
        exact .inr (.inr ⟨by simp, _, _, _, (Option.some.inj h).symm, by simp,
          .inr ⟨k, hstream, rfl⟩, .inl hstream.symm⟩)
    | _ => cases h
  | deleting =>
    cases a with
    | delete => exact .inr (.inr ⟨by simp, .of_worker (by simp) h⟩)
    | _ => cases h
  | clearing =>
    cases a with
    | clear =>
      exact .inr (.inr ⟨by simp, _, _, _, (Option.some.inj h).symm, by simp, .inl rfl, .inr rfl⟩)
    | _ => cases h
  | left =>
    cases a <;> cases h

/-- `exitPlayback` has read `m_stream` for the last time. -/
def Exit.HasRead : Exit → Prop
  | .stopping _ | .stoppingListener | .settingExit | .returned => True
  | _ => False

instance : DecidablePred Exit.HasRead
  | .stopping _ | .stoppingListener | .settingExit | .returned => .isTrue trivial
  | .notCalled | .testing | .calling | .crashed => .isFalse id

/-- The next step of `exitPlayback` reads `m_stream` for the last time. -/
def State.ReadsNext (s : State) : Prop :=
  (s.exit = .testing ∧ s.m_stream = none) ∨ (s.exit = .calling ∧ s.m_stream ≠ none)

/-- The stream that `accept` returned and `m_stream` does not hold yet. -/
def Worker.inFlight : Worker → Option Nat
  | .assigning stream => stream
  | _ => none

theorem Worker.inFlight_eq_none {w : Worker} :
    w.inFlight = none ↔ ∀ k, w ≠ .assigning (some k) := by
  cases w with
  | assigning stream => simp [inFlight, Option.eq_none_iff_forall_ne_some]
  | _ => simp [inFlight]

/-- No stream is on its way into `m_stream` when `exitPlayback` reads it for the
last time, and `accept` returns none afterwards. -/
def SeesStream (s : State) : Action → Prop
  | .accept returns => returns = true → ¬ s.exit.HasRead
  | .exitPlayback => s.ReadsNext → s.worker.inFlight = none
  | _ => True

instance (s : State) : Decidable s.ReadsNext := inferInstanceAs (Decidable (_ ∨ _))

instance (s : State) : ∀ a, Decidable (SeesStream s a)
  | .accept returns => inferInstanceAs (Decidable (returns = true → ¬ s.exit.HasRead))
  | .exitPlayback => inferInstanceAs (Decidable (s.ReadsNext → s.worker.inFlight = none))
  | .assign | .test | .readExit | .recv _ | .dispatch _ | .play _ | .forceStop | .delete | .clear =>
    .isTrue trivial

theorem step_eq_some : step s a = some s' ↔ s.exit ≠ .crashed ∧
    ((a = .exitPlayback ∧ exitStep s s.exit = some s') ∨
      (a ≠ .exitPlayback ∧ workerStep s s.worker a = some s')) := by
  unfold step
  split <;> grind

/-! ## When the handshake works -/

/-- After the last read the worker holds no stream that `exitPlayback` will not
have shut down when it returns. -/
def Handled (s : State) : Prop :=
  s.exit.HasRead → (∀ j, s.worker ≠ .assigning (some j)) ∧
    ∀ k ∈ s.m_stream, k ∈ s.down ∨ s.exit = .stopping k

theorem Handled.init : Handled {} := fun hread => hread.elim

theorem Handled.not_stuck (hs : Handled s) : ¬ Stuck s := by
  rintro ⟨hexit, -, k, hk, hdown⟩
  have hread : s.exit.HasRead := by rw [hexit]; trivial
  obtain hmem | hstopping := (hs hread).2 k hk
  · exact hdown hmem
  · simp [hexit] at hstopping

theorem Handled.exitStep (hs : Handled s) (hok : SeesStream s .exitPlayback)
    (h : exitStep s s.exit = some s') : Handled s' := by
  intro hread
  cases hexit : s.exit with
  | notCalled =>
    simp only [PlaybackShutdown.exitStep, hexit, Option.some.injEq] at h
    subst h
    exact hread.elim
  | testing =>
    simp only [PlaybackShutdown.exitStep, hexit, Option.some.injEq] at h
    subst h
    cases hstream : s.m_stream with
    | none => exact ⟨Worker.inFlight_eq_none.mp (hok (.inl ⟨hexit, hstream⟩)), by simp⟩
    | some k => simp [hstream, Exit.HasRead] at hread
  | calling =>
    cases hstream : s.m_stream with
    | none =>
      simp only [PlaybackShutdown.exitStep, hexit, hstream, Option.some.injEq] at h
      subst h
      exact hread.elim
    | some k =>
      simp only [PlaybackShutdown.exitStep, hexit, hstream, Option.some.injEq] at h
      subst h
      have hnone := hok (.inr ⟨hexit, by simp [hstream]⟩)
      exact ⟨Worker.inFlight_eq_none.mp hnone, by simp⟩
  | stopping k =>
    obtain ⟨hworker, hdown⟩ := hs (by rw [hexit]; trivial)
    simp only [PlaybackShutdown.exitStep, hexit, Option.some.injEq] at h
    subst h
    refine ⟨hworker, fun j hj => .inl ?_⟩
    obtain hmem | hstopping := hdown j hj
    · exact List.mem_cons_of_mem _ hmem
    · obtain rfl : k = j := by simpa [hexit] using hstopping
      exact List.mem_cons_self
  | stoppingListener | settingExit =>
    have hall := hs (by rw [hexit]; trivial)
    simp only [PlaybackShutdown.exitStep, hexit, Option.some.injEq] at h
    subst h
    simpa [hexit] using hall
  | returned | crashed => simp [PlaybackShutdown.exitStep, hexit] at h

theorem Handled.workerStep (hs : Handled s) (hok : SeesStream s a)
    (h : workerStep s s.worker a = some s') : Handled s' := by
  intro hread
  obtain ⟨rfl, rfl⟩ | ⟨stream, -, hworker, rfl⟩ |
    ⟨-, down, stream, worker, rfl, hflight, hdown, hstream⟩ := workerStep_cases rfl h
  · exact absurd hread (hok rfl)
  · refine ⟨by simp, fun k hk => ?_⟩
    obtain rfl : stream = some k := hk
    exact absurd hworker ((hs hread).1 k)
  · refine ⟨hflight, fun k hk => ?_⟩
    obtain rfl | rfl := hstream
    · refine ((hs hread).2 k hk).imp (fun hmem => ?_) id
      obtain rfl | ⟨j, -, rfl⟩ := hdown
      · exact hmem
      · exact List.mem_cons_of_mem _ hmem
    · simp at hk

theorem Handled.step (hs : Handled s) (hok : SeesStream s a) (h : step s a = some s') :
    Handled s' := by
  obtain ⟨-, ⟨rfl, hexit⟩ | ⟨-, hworker⟩⟩ := step_eq_some.mp h
  · exact hs.exitStep hok hexit
  · exact hs.workerStep hok hworker

/-! ## When it does not -/

/-- Streams are numbered as they are accepted, and the one on its way into
`m_stream` is not shut down by anybody. -/
structure Numbered (s : State) : Prop where
  down : ∀ k ∈ s.down, k < s.accepted
  stream : ∀ k, s.m_stream = some k → k < s.accepted
  inFlight : ∀ j, s.worker = .assigning (some j) →
    j < s.accepted ∧ j ∉ s.down ∧ s.m_stream ≠ some j
  stopping : ∀ k, s.exit = .stopping k → k < s.accepted ∧ s.worker ≠ .assigning (some k)

theorem Numbered.init : Numbered {} :=
  ⟨by simp, by simp, by simp, by simp⟩

theorem Numbered.workerStep (hs : Numbered s) (h : workerStep s s.worker a = some s') :
    Numbered s' := by
  obtain ⟨hdown, hstream, hflight, hstopping⟩ := hs
  obtain ⟨rfl, rfl⟩ | ⟨stream, -, hworker, rfl⟩ |
    ⟨-, down, stream, worker, rfl, hkept, hdown', hstream'⟩ := workerStep_cases rfl h
  · constructor <;> grind
  · constructor <;> grind
  · constructor <;> grind

theorem Numbered.step (hs : Numbered s) (h : step s a = some s') : Numbered s' := by
  obtain ⟨-, ⟨rfl, hexit⟩ | ⟨-, hworker⟩⟩ := step_eq_some.mp h
  · clear h
    obtain ⟨hdown, hstream, hflight, hstopping⟩ := hs
    unfold exitStep at hexit
    split at hexit <;> constructor <;> grind
  · exact hs.workerStep hworker

/-- The defect can still occur. -/
def CanStick (s : State) : Prop := ∃ as t, run step s as = some t ∧ Stuck t

theorem canStick_of_step (h : step s a = some s') (hs : CanStick s') : CanStick s := by
  obtain ⟨as, t, hrun, ht⟩ := hs
  exact ⟨a :: as, t, run_cons_some.mpr ⟨s', h, hrun⟩, ht⟩

section InFlight

variable {j : Nat} (hworker : s.worker = .assigning (some j)) (hdown : j ∉ s.down)
include hworker hdown

/-- The stream in flight is assigned, and the worker goes on to read from it. -/
theorem canStick_of_returned (hexit : s.exit = .returned) : CanStick s := by
  have hassign : step s .assign = some { s with m_stream := some j, worker := .testing } := by
    simp [step, workerStep, hexit, hworker]
  have htest : step { s with m_stream := some j, worker := .testing } .test =
      some { s with m_stream := some j, worker := .readingType } := by
    simp [step, workerStep, hexit]
  exact ⟨[.assign, .test], _, run_cons_some.mpr ⟨_, hassign, run_cons_some.mpr ⟨_, htest, rfl⟩⟩,
    hexit, .inl rfl, j, rfl, hdown⟩

theorem canStick_of_settingExit (hexit : s.exit = .settingExit) : CanStick s := by
  have hstep : step s .exitPlayback = some { s with mExit := true, exit := .returned } := by
    simp [step, exitStep, hexit]
  refine canStick_of_step hstep ?_
  exact canStick_of_returned hworker hdown rfl

theorem canStick_of_stoppingListener (hexit : s.exit = .stoppingListener) : CanStick s := by
  have hstep : step s .exitPlayback =
      some { s with listenerDown := true, exit := .settingExit } := by
    simp [step, exitStep, hexit]
  refine canStick_of_step hstep ?_
  exact canStick_of_settingExit hworker hdown rfl

/-- What is left of `exitPlayback` does not shut down a stream in flight after
its last read. -/
theorem canStick_of_inFlight (hread : s.exit.HasRead) (hstopping : s.exit ≠ .stopping j) :
    CanStick s := by
  cases hexit : s.exit with
  | notCalled | testing | calling | crashed => simp [hexit, Exit.HasRead] at hread
  | returned => exact canStick_of_returned hworker hdown hexit
  | settingExit => exact canStick_of_settingExit hworker hdown hexit
  | stoppingListener => exact canStick_of_stoppingListener hworker hdown hexit
  | stopping k =>
    have hstep : step s .exitPlayback =
        some { s with down := k :: s.down, exit := .stoppingListener } := by
      simp [step, exitStep, hexit]
    have hne : j ≠ k := fun heq => hstopping (by rw [hexit, heq])
    refine canStick_of_step hstep ?_
    exact canStick_of_stoppingListener hworker (by simp [hne, hdown]) rfl

end InFlight

/-- A step that does not see the stream leaves a state from which the worker can
get stuck. -/
theorem Numbered.canStick (hs : Numbered s) (hok : ¬ SeesStream s a)
    (h : PlaybackShutdown.step s a = some s') : CanStick s' := by
  have hs' := hs.step h
  cases a with
  | accept returns =>
    obtain ⟨rfl, hread⟩ : returns = true ∧ s.exit.HasRead := by
      simpa [SeesStream] using hok
    obtain ⟨-, ⟨hcontra, -⟩ | ⟨-, hworker⟩⟩ := step_eq_some.mp h
    · cases hcontra
    · obtain ⟨-, rfl⟩ | ⟨-, hcontra, -⟩ | ⟨hcontra, -⟩ := workerStep_cases rfl hworker
      · exact canStick_of_inFlight rfl (hs'.inFlight _ rfl).2.1 hread
          fun hstopping => (hs'.stopping _ hstopping).2 rfl
      · cases hcontra
      · exact absurd rfl hcontra
  | exitPlayback =>
    obtain ⟨hnext, j, hflight⟩ : s.ReadsNext ∧ ∃ j, s.worker = .assigning (some j) := by
      simpa [SeesStream, Worker.inFlight_eq_none] using hok
    obtain ⟨-, ⟨-, hexit⟩ | ⟨hcontra, -⟩⟩ := step_eq_some.mp h
    · obtain ⟨-, hdown, hne⟩ := hs.inFlight j hflight
      obtain ⟨htesting, hnone⟩ | ⟨hcalling, hsome⟩ := hnext
      · simp only [exitStep, htesting, hnone, Option.isSome_none, Bool.false_eq_true, if_false,
          Option.some.injEq] at hexit
        subst hexit
        exact canStick_of_stoppingListener hflight hdown rfl
      · obtain ⟨k, hk⟩ := Option.ne_none_iff_exists'.mp hsome
        simp only [exitStep, hcalling, hk, Option.some.injEq] at hexit
        subst hexit
        have hother : Exit.stopping k ≠ .stopping j := by
          rw [hk] at hne
          simpa using hne
        exact canStick_of_inFlight hflight hdown trivial hother
    · exact absurd rfl hcontra
  | _ => exact absurd trivial hok

/-! ## Runs -/

/-- **The handshake.** As long as no stream is on its way into `m_stream` when
`exitPlayback` reads it for the last time, and `accept` returns none afterwards,
the worker is never left reading from a stream that is not shut down; after any
other step it may be. -/
theorem shutdown_handshake (as : List Action) (s : State) (h : run step {} as = some s) :
    (Guarded step SeesStream {} as → ¬ Stuck s) ∧
      ∀ a s', step s a = some s' → ¬ SeesStream s a → CanStick s' := by
  constructor
  · intro hg
    exact (run_guarded (I := Handled) (fun _ _ _ hs hok hstep => hs.step hok hstep) .init hg
      h).not_stuck
  · intro a s' hstep hok
    have hs : Numbered s :=
      run_invariant (I := Numbered) (fun _ _ _ hs hstep => hs.step hstep) .init h
    exact hs.canStick hok hstep

/-- The stream is shut down while its client plays. -/
def playing : List Action :=
  [.accept true, .assign, .test, .recv .full, .dispatch .plays, .exitPlayback, .exitPlayback,
    .exitPlayback, .exitPlayback, .exitPlayback, .exitPlayback]

theorem shutdown_handshake_playing : ∃ s, run step {} playing = some s ∧ ¬ Stuck s := by
  have hdone : (run step {} playing).isSome := by decide
  obtain ⟨s, hrun⟩ := Option.isSome_iff_exists.mp hdone
  exact ⟨s, hrun, (shutdown_handshake _ s hrun).1 (by decide)⟩

/-- `exitPlayback` runs as a whole between the return of `accept` and the
assignment of the stream. -/
theorem stuck_in_flight : ¬ ∀ as s, run step {} as = some s → ¬ Stuck s := by
  intro hall
  refine hall [.accept true, .exitPlayback, .exitPlayback, .exitPlayback, .exitPlayback, .assign,
    .test] _ rfl ⟨rfl, .inl rfl, 0, rfl, ?_⟩
  exact List.not_mem_nil

end KmreManager.Audio.PlaybackShutdown
