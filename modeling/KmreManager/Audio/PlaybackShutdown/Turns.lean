import KmreManager.Audio.PlaybackShutdown

/-! # The turns of the playback loops, step by step

`PlaybackWorker` takes a turn of one of its loops at once. Each turn is a
sequence of the worker's steps in `PlaybackShutdown`, as far as the members
that `exitPlayback` shares are concerned. -/
namespace KmreManager.Audio.PlaybackShutdown

open Lib.Runs

variable {s s' : State} {a : Action}

/-- The worker takes steps from one state to the other. -/
def Serves (s s' : State) : Prop :=
  ∃ as, .exitPlayback ∉ as ∧ run step s as = some s'

theorem Serves.refl (s : State) : Serves s s := ⟨[], List.not_mem_nil, rfl⟩

theorem Serves.trans {t : State} (h : Serves s t) (h' : Serves t s') : Serves s s' := by
  obtain ⟨as, has, hrun⟩ := h
  obtain ⟨bs, hbs, hrun'⟩ := h'
  refine ⟨as ++ bs, ?_, run_append_some.mpr ⟨t, hrun, hrun'⟩⟩
  simp [has, hbs]

theorem Serves.of_step {w : Worker} (hexit : s.exit ≠ .crashed) (hw : s.worker = w)
    (ha : a ≠ .exitPlayback) (h : workerStep s w a = some s') : Serves s s' := by
  refine ⟨[a], by simpa using Ne.symm ha, run_cons_some.mpr ⟨s', ?_, rfl⟩⟩
  exact step_eq_some.mpr ⟨hexit, .inr ⟨ha, hw ▸ h⟩⟩

/-- Where the worker stands between two turns. -/
def position : PlaybackWorker.Control → Option Worker
  | .accepting => some .accepting
  | .streaming => some .reading
  | .left => some .left
  | .idle | .destroyed => none

/-- The members of the two models agree. -/
structure Agrees (p : PlaybackWorker.State) (s : State) : Prop where
  m_stream : s.m_stream = p.mStream
  mExit : s.mExit = p.mExit
  accepted : s.accepted = p.accepted
  worker : position p.control = some s.worker

/-- The steps that make up a turn lead to a state that agrees with `p`. -/
def Reaches (s : State) (p : PlaybackWorker.State) : Prop :=
  ∃ s', Serves s s' ∧ Agrees p s'

theorem Reaches.of_step {w : Worker} {p : PlaybackWorker.State} (hexit : s.exit ≠ .crashed)
    (hw : s.worker = w) (ha : a ≠ .exitPlayback) (h : workerStep s w a = some s')
    (hrest : Reaches s' p) : Reaches s p := by
  obtain ⟨t, hserves, hagrees⟩ := hrest
  exact ⟨t, (Serves.of_step hexit hw ha h).trans hserves, hagrees⟩

section Turns

variable {p : PlaybackWorker.State}

/-- `forceStop`, `delete`, and the member set to null. -/
theorem reaches_release (hexit : s.exit ≠ .crashed) (hworker : s.worker = .stopping)
    (hstream : p.mStream = none) (hmExit : s.mExit = p.mExit) (haccepted : s.accepted = p.accepted)
    (hcontrol : p.control = .accepting) : Reaches s p := by
  cases hk : s.m_stream with
  | none =>
    have hstep : workerStep s .stopping .forceStop = some { s with worker := .accepting } := by
      simp [workerStep, hk]
    refine .of_step hexit hworker (by simp) hstep ⟨_, .refl _, ?_⟩
    exact ⟨hk.trans hstream.symm, hmExit, haccepted, by rw [hcontrol]; rfl⟩
  | some k =>
    have hstep : workerStep s .stopping .forceStop =
        some { s with down := k :: s.down, worker := .deleting } := by
      simp [workerStep, hk]
    refine .of_step hexit hworker (by simp) hstep ?_
    refine .of_step hexit rfl (a := .delete) (by simp) rfl ?_
    refine .of_step hexit rfl (a := .clear) (by simp) rfl ⟨_, .refl _, ?_⟩
    exact ⟨hstream.symm, hmExit, haccepted, by rw [hcontrol]; rfl⟩

theorem reaches_releaseStream (hexit : s.exit ≠ .crashed) (hworker : s.worker = .stopping)
    (hmExit : s.mExit = p.mExit) (haccepted : s.accepted = p.accepted)
    (hcontrol : p.control = .accepting) : Reaches s p.releaseStream := by
  refine reaches_release hexit hworker PlaybackWorker.releaseStream_mStream ?_ ?_ ?_
  · rw [hmExit, PlaybackWorker.releaseStream_mExit]
  · rw [haccepted, PlaybackWorker.releaseStream_accepted]
  · rw [PlaybackWorker.releaseStream_control, hcontrol]

/-- After the inner loop. -/
theorem reaches_endSession (hexit : s.exit ≠ .crashed) (hworker : s.worker = .ended)
    (hstream : s.m_stream = p.mStream) (hmExit : s.mExit = p.mExit)
    (haccepted : s.accepted = p.accepted) : Reaches s p.endSession := by
  unfold PlaybackWorker.State.endSession
  refine .of_step hexit hworker (a := .readExit) (by simp) rfl ?_
  cases hp : p.mExit with
  | true =>
    refine ⟨_, .refl _, hstream, hmExit.trans hp, haccepted, ?_⟩
    simp [hmExit, hp, position]
  | false =>
    obtain ⟨hstop, hstopExit, hstopAccepted, -⟩ := PlaybackWorker.stop_frame p.releaseStream
    refine reaches_release hexit (by simp [hmExit, hp]) ?_ ?_ ?_ rfl
    · exact hstop.trans PlaybackWorker.releaseStream_mStream
    · rw [PlaybackWorker.releaseStream_mExit] at hstopExit
      exact hmExit.trans hstopExit.symm
    · rw [PlaybackWorker.releaseStream_accepted] at hstopAccepted
      exact haccepted.trans hstopAccepted.symm

/-- A turn of the outer loop up to the inner one. -/
theorem reaches_connect {alsa : Alsa} (hexit : s.exit ≠ .crashed) (hs : Agrees p s)
    (hp : p.control = .accepting) (c : PlaybackWorker.Connection) :
    Reaches s (p.connect alsa c) := by
  have hworker : s.worker = .accepting := by
    have := hs.worker
    rw [hp] at this
    exact (Option.some.inj this).symm
  obtain ⟨hstream, hmExit, haccepted, -⟩ := hs
  -- the stream is accepted and assigned
  have haccept {q : PlaybackWorker.State} (hrest : Reaches { s with
      m_stream := some s.accepted, accepted := s.accepted + 1, worker := .readingType } q) :
      Reaches s q := by
    refine .of_step hexit hworker (a := .accept true) (by simp) rfl ?_
    refine .of_step hexit rfl (a := .assign) (by simp) rfl ?_
    exact .of_step hexit rfl (a := .test) (by simp) rfl hrest
  obtain ⟨-, heq⟩ | ⟨-, -, hleft, heq⟩ | ⟨-, hplays, hstays, heq⟩ | ⟨-, q, hcreate, heq⟩ |
    ⟨-, q, hcreate, heq⟩ := PlaybackWorker.connect_cases alsa p c
  · rw [heq]
    refine .of_step hexit hworker (a := .accept false) (by simp) rfl ?_
    refine .of_step hexit rfl (a := .assign) (by simp) rfl ?_
    refine .of_step hexit rfl (a := .test) (by simp) rfl ?_
    refine .of_step hexit rfl (a := .readExit) (by simp) rfl ⟨_, .refl _, ?_⟩
    refine ⟨rfl, hmExit, haccepted, ?_⟩
    cases he : p.mExit with
    | true => simp [hmExit, he, position]
    | false => simp [hmExit, he, hp, position]
  · rw [heq]
    refine haccept (.of_step hexit rfl (a := .recv .failed) (by simp) rfl ?_)
    refine .of_step hexit rfl (a := .readExit) (by simp) rfl ⟨_, .refl _, ?_⟩
    exact ⟨congrArg some haccepted, hmExit, congrArg (· + 1) haccepted,
      by simp [hmExit, hleft, position]⟩
  · rw [heq]
    cases hr : c.typeRead with
    | false =>
      refine haccept (.of_step hexit rfl (a := .recv .failed) (by simp) rfl ?_)
      refine .of_step hexit rfl (a := .readExit) (by simp) rfl ?_
      exact reaches_releaseStream (p := p.accept) hexit (by simp [hmExit, hstays hr]) hmExit
        (congrArg (· + 1) haccepted) hp
    | true =>
      refine haccept (.of_step hexit rfl (a := .recv .full) (by simp) rfl ?_)
      refine .of_step hexit rfl (a := .dispatch .otherType) (by simp) rfl ?_
      exact reaches_releaseStream (p := p.accept) hexit rfl hmExit (congrArg (· + 1) haccepted) hp
  · obtain ⟨hcreated, hmExit', haccepted', -, -⟩ :=
      PlaybackWorker.State.createPlayback_frame alsa p.accept c.device
    rw [hcreate] at hcreated hmExit' haccepted'
    rw [heq]
    refine haccept (.of_step hexit rfl (a := .recv .full) (by simp) rfl ?_)
    refine .of_step hexit rfl (a := .dispatch .plays) (by simp) rfl ⟨_, .refl _, ?_⟩
    exact ⟨(congrArg some haccepted).trans hcreated.symm, hmExit.trans hmExit'.symm,
      (congrArg (· + 1) haccepted).trans haccepted'.symm, rfl⟩
  · obtain ⟨hcreated, hmExit', haccepted', -, hcontrol⟩ :=
      PlaybackWorker.State.createPlayback_frame alsa p.accept c.device
    rw [hcreate] at hcreated hmExit' haccepted' hcontrol
    rw [heq]
    refine haccept (.of_step hexit rfl (a := .recv .full) (by simp) rfl ?_)
    refine .of_step hexit rfl (a := .dispatch .deviceFails) (by simp) rfl ⟨_, .refl _, ?_⟩
    refine ⟨(congrArg some haccepted).trans hcreated.symm, hmExit.trans hmExit'.symm,
      (congrArg (· + 1) haccepted).trans haccepted'.symm, ?_⟩
    rw [show q.control = .accepting from hcontrol.trans hp]
    rfl

/-- A turn of the inner loop. -/
theorem reaches_iterate (hexit : s.exit ≠ .crashed) (hs : Agrees p s)
    (hp : p.control = .streaming) (h : PlaybackWorker.PlaybackHandle)
    (i : PlaybackWorker.Iteration) : Reaches s (p.iterate h i) := by
  have hworker : s.worker = .reading := by
    have := hs.worker
    rw [hp] at this
    exact (Option.some.inj this).symm
  obtain ⟨hstream, hmExit, haccepted, hposition⟩ := hs
  cases hr : i.read with
  | false =>
    have hends : p.iterate h i = p.endSession := by simp [PlaybackWorker.State.iterate, hr]
    rw [hends]
    refine .of_step hexit hworker (a := .recv .failed) (by simp) rfl ?_
    exact reaches_endSession hexit rfl hstream hmExit haccepted
  | true =>
    obtain ⟨calls, -, heq⟩ := p.iterate_eq h i
    rw [heq]
    refine .of_step hexit hworker (a := .recv .full) (by simp) rfl ?_
    refine .of_step hexit rfl (a := .play (decide i.Breaks)) (by simp) rfl ?_
    by_cases hbreaks : i.Breaks
    · rw [if_pos hbreaks]
      exact reaches_endSession hexit (by simp [hbreaks]) hstream hmExit haccepted
    · rw [if_neg hbreaks]
      have hkept : position (p.pcm calls).control = some .reading :=
        hposition.trans (congrArg some hworker)
      exact ⟨_, .refl _, hstream, hmExit, haccepted, by simpa [hbreaks] using hkept⟩

/-- **The turns.** Whatever a turn of the loops does to the members that
`exitPlayback` shares, a sequence of the worker's steps does. -/
theorem reaches_turn {alsa : Alsa} {p' : PlaybackWorker.State} {turn : PlaybackWorker.Action}
    (hexit : s.exit ≠ .crashed) (hs : Agrees p s)
    (hturn : (∃ c, turn = .connect c) ∨ ∃ i, turn = .iterate i)
    (h : PlaybackWorker.step alsa p turn = some p') : Reaches s p' := by
  obtain ⟨c, rfl⟩ | ⟨i, rfl⟩ := hturn
  · obtain ⟨hp, heq⟩ := Option.ite_none_right_eq_some.mp h
    exact Option.some.inj heq ▸ reaches_connect hexit hs hp c
  · obtain ⟨hp, heq⟩ := Option.ite_none_right_eq_some.mp h
    obtain ⟨handle, -, rfl⟩ := Option.map_eq_some_iff.mp heq
    exact reaches_iterate hexit hs hp handle i

end Turns

end KmreManager.Audio.PlaybackShutdown
