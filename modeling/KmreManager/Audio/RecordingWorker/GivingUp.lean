import KmreManager.Audio.RecordingWorker.Step

/-! # Giving up on a silent microphone

A session is given up when `count++ == READ_TRY_TIMES` holds at a read without
frames. `count` is a variable of `start`, set to 0 when a session has delivered
frames, not when it begins. `Session` counts the reads without frames of the
present session itself. -/
namespace KmreManager.Audio.RecordingWorker

open Lib.Runs

/-- The read yields no frames, and the loop goes on to look at `count`. -/
def Iteration.Empty (i : Iteration) : Prop :=
  i.nframe = -EAGAIN ∨ (i.nframe = -EPIPE ∧ 0 ≤ i.prepare ∧ 0 ≤ i.start) ∨ i.nframe = 0

instance (i : Iteration) : Decidable i.Empty := inferInstanceAs (Decidable (_ ∨ _ ∨ _))

/-- The worker, and how many reads without frames its session has made since it
began or last read some. -/
structure Session where
  worker : State := {}
  empties : Nat := 0

namespace Session

/-- The number of such reads after an action. -/
def emptiesAfter (t : Session) : Action → Nat
  | .iterate i => if i.Empty then t.empties + 1 else if 0 < i.nframe then 0 else t.empties
  | .initData _ | .connect _ | .destruct => 0

def step (alsa : Alsa) (t : Session) (a : Action) : Option Session :=
  (RecordingWorker.step alsa t.worker a).map fun worker => ⟨worker, t.emptiesAfter a⟩

/-- A read without frames ends the session exactly if `READ_TRY_TIMES` others
came before it in a row. -/
def GivesUp (alsa : Alsa) (t : Session) : Action → Prop
  | .iterate i => i.Empty → ∀ t', t.step alsa (.iterate i) = some t' →
    (t'.worker.control = .accepting ↔ t.empties = READ_TRY_TIMES.toInt)
  | _ => True

/-- A read without frames is made with nothing left in `count` by earlier
sessions, or with neither number at the limit. -/
def OwnCount (t : Session) : Action → Prop
  | .iterate i => i.Empty → t.worker.count.toInt = t.empties ∨
    (t.worker.count ≠ READ_TRY_TIMES ∧ (t.empties : Int) ≠ READ_TRY_TIMES.toInt)
  | _ => True

instance (t : Session) : ∀ a, Decidable (t.OwnCount a)
  | .iterate i => inferInstanceAs (Decidable (i.Empty → _ ∨ _ ∧ _))
  | .initData _ | .connect _ | .destruct => .isTrue trivial

end Session

/-! ## What a turn does to the counter -/

section Turn

variable {alsa : Alsa} {s : State} {h : RecordHandle} {i : Iteration}

theorem retry_control (hs : s.control = .streaming) :
    s.retry.control = .accepting ↔ s.count = READ_TRY_TIMES := by
  unfold State.retry
  dsimp only
  split
  next hcount => exact iff_of_true rfl hcount
  next hcount => exact iff_of_false (by simp [hs]) hcount

/-- A read without frames comes to the test of `count`. -/
theorem iterate_empty (alsa : Alsa) (s : State) (h : RecordHandle) (hi : i.Empty) :
    ∃ u : State, s.iterate alsa h i = u.retry ∧ u.count = s.count ∧ u.control = s.control := by
  unfold State.iterate
  dsimp only
  obtain hagain | ⟨hpipe, hprepare, hstart⟩ | hzero := hi
  · exact ⟨_, if_pos hagain, rfl, rfl⟩
  · rw [if_neg (by rw [hpipe]; decide), if_pos hpipe, if_neg (Int.not_lt.mpr hprepare),
      if_neg (Int.not_lt.mpr hstart)]
    exact ⟨_, rfl, rfl, rfl⟩
  · rw [if_neg (by rw [hzero]; decide), if_neg (by rw [hzero]; decide), if_pos hzero]
    exact ⟨_, rfl, rfl, rfl⟩

end Turn

/-! ## Runs -/

namespace Session

variable {alsa : Alsa} {t t' : Session} {a : Action} {actions : List Action}

/-- A turn of the inner loop, beside the turn of the worker. -/
theorem step_iterate {i : Iteration} (h : t.step alsa (.iterate i) = some t') :
    ∃ handle, t.worker.control = .streaming ∧ t.worker.mRecoder = some handle ∧
      t' = ⟨t.worker.iterate alsa handle i, t.emptiesAfter (.iterate i)⟩ := by
  obtain ⟨s, hs, rfl⟩ := Option.map_eq_some_iff.mp h
  obtain ⟨hstreaming, hmap⟩ := Option.ite_none_right_eq_some.mp hs
  obtain ⟨handle, hhandle, rfl⟩ := Option.map_eq_some_iff.mp hmap
  exact ⟨handle, hstreaming, hhandle, rfl⟩

/-- **Step lemma.** -/
theorem givesUp_iff (h : (t.step alsa a).isSome) :
    t.GivesUp alsa a ↔ t.OwnCount a := by
  cases a with
  | initData | connect | destruct => exact Iff.rfl
  | iterate i =>
    obtain ⟨t', ht'⟩ := Option.isSome_iff_exists.mp h
    refine forall_congr' fun hempty => ?_
    have hcontrol : t'.worker.control = .accepting ↔ t.worker.count = READ_TRY_TIMES := by
      obtain ⟨handle, hstreaming, -, rfl⟩ := step_iterate ht'
      obtain ⟨u, heq, hcount, hu⟩ :=
        iterate_empty alsa t.worker handle hempty
      rw [heq, retry_control (hu.trans hstreaming), hcount]
    have hall : (∀ u, t.step alsa (.iterate i) = some u →
        (u.worker.control = .accepting ↔ t.empties = READ_TRY_TIMES.toInt)) ↔
          (t.worker.count = READ_TRY_TIMES ↔ t.empties = READ_TRY_TIMES.toInt) := by
      rw [← hcontrol]
      refine ⟨fun hu => hu t' ht', fun hiff u hu => ?_⟩
      obtain rfl := Option.some.inj (ht'.symm.trans hu)
      exact hiff
    rw [hall, ← Int32.toInt_inj]
    constructor
    · intro hsame
      by_cases hlimit : t.worker.count.toInt = READ_TRY_TIMES.toInt
      · exact .inl (hlimit.trans (hsame.mp hlimit).symm)
      · exact .inr ⟨mt Int32.toInt_inj.mpr hlimit, mt hsame.mpr hlimit⟩
    · rintro (hown | ⟨hcount, hempties⟩)
      · rw [hown]
      · exact iff_of_false (mt Int32.toInt_inj.mp hcount) hempties

/-- **Giving up.** In a run every session is given up at its read number
`READ_TRY_TIMES + 1` in a row without frames, and at no earlier one, if and only
if no such read is decided by what earlier sessions left in `count`. -/
theorem gives_up_iff (hrun : run (Session.step alsa) {} actions = some t) :
    (∀ before a u, before ++ [a] <+: actions → run (Session.step alsa) {} before = some u →
        u.GivesUp alsa a) ↔
      Guarded (Session.step alsa) OwnCount {} actions := by
  rw [← Guarded.iff_forall_step]
  exact Guarded.congr (fun _ => True) _ (fun _ _ _ hstep => givesUp_iff hstep)
    (fun _ _ _ _ _ _ _ => trivial) trivial (.of_run hrun)

/-- A read that finds nothing. -/
def silent : Iteration := ⟨0, 0, 0, 0, 0, 0⟩

/-- One more read without frames, where an int has room for it. -/
theorem count_succ {count : Int32} (hfits : count.toInt + 1 < 2 ^ 31) :
    (count + 1).toInt = count.toInt + 1 := by
  have hlow := Int32.le_toInt count
  rw [Int32.toInt_add, Int32.toInt_one, Int.bmod_eq_of_le (by omega) (by omega)]

/-- A microphone that stays silent, as long as `count` does not meet the limit
and stays an int. -/
theorem run_silent (alsa : Alsa) (n : Nat) (hstreaming : t.worker.control = .streaming)
    (hrecoder : t.worker.mRecoder.isSome) (hfits : t.worker.count.toInt + n < 2 ^ 31)
    (hfar : ∀ k : Nat, k < n → t.worker.count.toInt + k ≠ READ_TRY_TIMES.toInt) :
    ∃ t', run (Session.step alsa) t (List.replicate n (.iterate silent)) = some t' ∧
      t'.worker.control = .streaming ∧ t'.worker.mRecoder.isSome ∧
      t'.worker.count.toInt = t.worker.count.toInt + n ∧ t'.empties = t.empties + n := by
  induction n generalizing t with
  | zero => exact ⟨t, rfl, hstreaming, hrecoder, (Int.add_zero _).symm, rfl⟩
  | succ n ih =>
    obtain ⟨h, hh⟩ := Option.isSome_iff_exists.mp hrecoder
    let u : Session := ⟨{ t.worker with
      count := t.worker.count + 1
      pcmCalls := t.worker.pcmCalls ++ [.sndPcmReadi h.pcm h.periodSize]
      accesses := t.worker.accesses ++
        [⟨.readi, h.frameBytes alsa h.periodSize, t.worker.mReadBuffer⟩] }, t.empties + 1⟩
    have hcount : t.worker.count ≠ READ_TRY_TIMES := fun heq =>
      hfar 0 (Nat.succ_pos n) (by rw [heq]; rfl)
    have hturn : t.worker.iterate alsa h silent = u.worker := by
      simp [State.iterate, silent, EAGAIN, EPIPE, State.retry, State.pcm, State.touch, hcount, u]
    have hstep : t.step alsa (.iterate silent) = some u := by
      unfold Session.step RecordingWorker.step
      simp only [hstreaming, hh, if_true, Option.map_some, hturn]
      rfl
    have hnext : u.worker.count.toInt = t.worker.count.toInt + 1 := count_succ (by omega)
    obtain ⟨t', hrun, hstreaming', hrecoder', hcount', hempties'⟩ :=
      ih (t := u) hstreaming hrecoder (by rw [hnext]; omega) fun k hk => by
        have hfar' := hfar (k + 1) (Nat.succ_lt_succ hk)
        rw [hnext]
        omega
    refine ⟨t', run_cons_some.mpr ⟨u, hstep, hrun⟩, hstreaming', hrecoder', ?_, ?_⟩
    · rw [hcount', hnext]
      omega
    · rw [hempties']
      simp only [u]
      omega

/-- **A session that does not end.** Once a session has been given up, `count` is
beyond the limit, and the next one waits for a silent microphone as long as an
int can count the reads. -/
theorem silent_endless (hstreaming : t.worker.control = .streaming)
    (hrecoder : t.worker.mRecoder.isSome) (hcount : READ_TRY_TIMES.toInt < t.worker.count.toInt)
    {n : Nat} (hfits : t.worker.count.toInt + n < 2 ^ 31) :
    ∃ t', run (Session.step alsa) t (List.replicate n (.iterate silent)) = some t' ∧
      t'.worker.control = .streaming := by
  obtain ⟨t', hrun, hstreaming', -⟩ := run_silent alsa n hstreaming hrecoder hfits
    fun k _ => by omega
  exact ⟨t', hrun, hstreaming'⟩

end Session

/-! ## Devices and runs -/

/-- A client of RecordingWorker, and a microphone that works. -/
def recordClient : Connection :=
  ⟨true, true, RECORDING, true, 48000, microphone 7, true, true, 0⟩

/-- A session that reads nothing once, then a period, and ends when its client
goes. -/
def oneEmptyRead : List Action :=
  [.initData true, .connect recordClient, .iterate Session.silent,
    .iterate ⟨1920, 0, 0, 0, 1920, 0⟩, .iterate ⟨1920, 0, 0, 0, 1920, -1⟩]

theorem gives_up_iff_one_empty_read : ∃ t, run (Session.step alsaLib) {} oneEmptyRead = some t ∧
    ∀ before a u, before ++ [a] <+: oneEmptyRead →
      run (Session.step alsaLib) {} before = some u → u.GivesUp alsaLib a := by
  have hdone : (run (Session.step alsaLib) {} oneEmptyRead).isSome := by decide +kernel
  obtain ⟨t, hrun⟩ := Option.isSome_iff_exists.mp hdone
  exact ⟨t, hrun, (Session.gives_up_iff hrun).mpr (by decide +kernel)⟩

/-- A session that reads nothing once and then fails, and the beginning of the
next one. -/
def failedRead : List Action :=
  [.initData true, .connect recordClient, .iterate Session.silent,
    .iterate ⟨-5, 0, 0, 0, 0, 0⟩, .connect recordClient]

/-- The session after that is given up one read too early. -/
theorem gives_up_early : ¬ ∀ alsa actions before a u, before ++ [a] <+: actions →
    run (Session.step alsa) {} before = some u → u.GivesUp alsa a := by
  intro hall
  have hdone : (run (Session.step alsaLib) {} failedRead).map (fun t =>
      (t.worker.control, t.worker.mRecoder.isSome, t.worker.count.toInt, t.empties)) =
        some (.streaming, true, 1, 0) := by decide +kernel
  obtain ⟨t, hrun, hend⟩ := Option.map_eq_some_iff.mp hdone
  simp only [Prod.mk.injEq] at hend
  obtain ⟨hstreaming, hrecoder, hcount, hempties⟩ := hend
  obtain ⟨u, hsilent, hstreaming', hrecoder', hcount', hempties'⟩ :=
    Session.run_silent alsaLib 499 hstreaming hrecoder (by omega) fun k hk => by
      have hlimit : READ_TRY_TIMES.toInt = 500 := by decide
      omega
  have hbefore : run (Session.step alsaLib) {}
      (failedRead ++ List.replicate 499 (.iterate Session.silent)) = some u :=
    run_append_some.mpr ⟨t, hrun, hsilent⟩
  have hgives := hall alsaLib _ _ (.iterate Session.silent) u List.prefix_rfl hbefore
  obtain ⟨h, hh⟩ := Option.isSome_iff_exists.mp hrecoder'
  have hown : ¬ u.OwnCount (.iterate Session.silent) := by
    intro hown
    have hlimit : READ_TRY_TIMES.toInt = 500 := by decide
    have hfar := hown (by decide)
    rw [ne_eq, ← Int32.toInt_inj] at hfar
    omega
  have hstep : (u.step alsaLib (.iterate Session.silent)).isSome := by
    simp [Session.step, RecordingWorker.step, hstreaming', hh]
  exact hown ((Session.givesUp_iff hstep).mp hgives)

end KmreManager.Audio.RecordingWorker
