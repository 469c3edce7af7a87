import KmreManager.Audio.PlaybackWorker.Chunks

/-! # What becomes of a failed `snd_pcm_writei`

An error other than an underrun or a suspend is meant to end the session. The
result is compared with 0 as an unsigned number, and the loop goes on. -/
namespace KmreManager.Audio.PlaybackWorker

open Lib.Runs

/-- `snd_pcm_writei` has failed, and not by an underrun or a suspend. -/
def DeviceError (n : Int) : Prop := n < 0 ∧ n ≠ -EPIPE ∧ n ≠ -ESTRPIPE

instance (n : Int) : Decidable (DeviceError n) := inferInstanceAs (Decidable (_ ∧ _ ∧ _))

/-- No call of `snd_pcm_writei` that the turn makes fails in this way. -/
def Turn.NoDeviceError (turn : Turn) : Prop := ∀ n ∈ turn.results, ¬ DeviceError n

instance (turn : Turn) : Decidable turn.NoDeviceError :=
  inferInstanceAs (Decidable (∀ n ∈ turn.results, ¬ DeviceError n))

/-- A turn in which a call returns a device error leaves the inner loop, and
after a write that is accepted the worker does nothing else. -/
def Stream.StopsOnError (alsa : Alsa) (t : Stream) : Event → Prop
  | .iterate turn => ∀ t', t.step alsa (.iterate turn) = some t' →
    ((∃ n ∈ turn.returned t.worker t'.worker, DeviceError n) → t'.worker.control ≠ .streaming) ∧
    (turn.read = true → 0 ≤ turn.writei → ∀ h ∈ t.worker.mPlayback,
      t'.worker = t.worker.pcm [.sndPcmWritei h.pcm (PLAYBACK_BUF_SIZE / h.sampleBytes)])
  | _ => True

section Turn

variable {s : State} {h : PlaybackHandle} {i : Iteration} {turn : Turn} {n : Int}

/-- An accepted number of frames is never taken for an error. -/
theorem branch_of_nonneg (hn : Sframes n) (hpos : 0 ≤ n) (frames : Nat) :
    branch n frames = .shortWrite ∨ branch n frames = .complete := by
  have hpipe := branch_eq_underrun hn frames
  have hstr := branch_eq_suspended hn frames
  cases hbranch : branch n frames with
  | underrun =>
    rw [hpipe.mp hbranch] at hpos
    exact absurd hpos (by decide)
  | suspended =>
    rw [hstr.mp hbranch] at hpos
    exact absurd hpos (by decide)
  | deviceError => exact absurd hbranch (branch_ne_deviceError n frames)
  | shortWrite => exact .inl rfl
  | complete => exact .inr rfl

/-- The worker goes on after a write that is accepted. -/
theorem iterate_of_nonneg (hread : turn.read = true) (hpos : 0 ≤ turn.writei) :
    s.iterate h turn.toIteration =
      s.pcm [.sndPcmWritei h.pcm (PLAYBACK_BUF_SIZE / h.sampleBytes)] := by
  rw [iterate_eq_follow hread]
  rcases branch_of_nonneg turn.sframes hpos (PLAYBACK_BUF_SIZE / h.sampleBytes) with
    hbranch | hbranch
  · rw [hbranch]
    rfl
  · rw [hbranch]
    rfl

/-- **A device error does not leave the loop**, whichever call it comes from. -/
theorem Turn.not_breaks_of_deviceError (herr : ¬ turn.NoDeviceError) : ¬ turn.Breaks := by
  simp only [Turn.NoDeviceError, not_forall, not_not] at herr
  obtain ⟨n, hn, -, hpipe, hstr⟩ := herr
  rw [Turn.breaks_iff]
  unfold Turn.results at hn
  cases hread : turn.read with
  | false => simp [hread] at hn
  | true =>
    simp only [hread, Bool.not_true, Bool.false_eq_true, if_false] at hn
    split at hn
    next hunder =>
      -- the error comes from the second call
      obtain ⟨hwritei, hprepare⟩ := hunder
      have hdiff : (-EPIPE : Int) ≠ -ESTRPIPE := by decide
      rintro (hcontra | ⟨-, hcontra⟩ | ⟨hcontra, -⟩)
      · cases hcontra
      · exact absurd hprepare (Int.not_le.mpr hcontra)
      · exact hdiff (hwritei.symm.trans hcontra)
    next =>
      obtain rfl := List.mem_singleton.mp hn
      rintro (hcontra | ⟨hcontra, -⟩ | ⟨hcontra, -⟩)
      · cases hcontra
      · exact hpipe hcontra
      · exact hstr hcontra

end Turn

/-! ## Runs -/

variable {alsa : Alsa} {t : Stream} {e : Event} {events : List Event}

/-- The turns of the run meet no device error. -/
def Event.NoDeviceError : Event → Prop
  | .iterate turn => turn.NoDeviceError
  | _ => True

instance : DecidablePred Event.NoDeviceError
  | .iterate turn => inferInstanceAs (Decidable turn.NoDeviceError)
  | .initData _ _ | .exitPlayback | .connect _ | .destruct => .isTrue trivial

/-- **Step lemma.** -/
theorem Stream.stopsOnError_iff (h : (t.step alsa e).isSome) :
    t.StopsOnError alsa e ↔ e.NoDeviceError := by
  cases e with
  | initData | exitPlayback | connect | destruct => exact Iff.rfl
  | iterate turn =>
    constructor
    · intro hstops
      by_contra herr
      obtain ⟨t', ht'⟩ := Option.isSome_iff_exists.mp h
      obtain ⟨hleaves, -⟩ := hstops t' ht'
      obtain ⟨handle, hstreaming, -, rfl⟩ := step_iterate ht'
      rw [returned_iterate] at hleaves
      have hsome : ∃ n ∈ turn.results, DeviceError n := by
        simpa [Event.NoDeviceError, Turn.NoDeviceError] using herr
      exact hleaves hsome
        ((iterate_control hstreaming).mpr (Turn.not_breaks_of_deviceError herr))
    · intro hnone t' ht'
      obtain ⟨handle, hstreaming, hhandle, rfl⟩ := step_iterate ht'
      refine ⟨?_, fun hread hpos h hh => ?_⟩
      · rw [returned_iterate]
        rintro ⟨n, hn, herr⟩
        exact absurd herr (hnone n hn)
      · obtain rfl := Option.some.inj (hhandle.symm.trans hh)
        exact iterate_of_nonneg hread hpos

/-- **Device errors.** In a run every device error ends the session, and no
accepted write is taken for an error, if and only if there is no device error. -/
theorem stops_on_error_iff (hrun : run (Stream.step alsa) {} events = some t) :
    (∀ before e u, before ++ [e] <+: events → run (Stream.step alsa) {} before = some u →
        u.StopsOnError alsa e) ↔
      ∀ e ∈ events, e.NoDeviceError := by
  rw [← Guarded.iff_forall_step, ← Guarded.iff_forall_mem hrun]
  exact Guarded.congr (fun _ => True) _ (fun _ _ _ hstep => Stream.stopsOnError_iff hstep)
    (fun _ _ _ _ _ _ _ => trivial) trivial (.of_run hrun)

theorem stops_on_error_iff_two_chunks : ∃ t, run (Stream.step alsaLib) {} twoChunks = some t ∧
    ∀ before e u, before ++ [e] <+: twoChunks → run (Stream.step alsaLib) {} before = some u →
      u.StopsOnError alsaLib e := by
  have hdone : (run (Stream.step alsaLib) {} twoChunks).isSome := by decide +kernel
  obtain ⟨t, hrun⟩ := Option.isSome_iff_exists.mp hdone
  exact ⟨t, hrun, (stops_on_error_iff hrun).mpr (by decide +kernel)⟩

/-- The device is gone (-EIO), and the loop reads on. -/
theorem plays_to_failed_device : ¬ ∀ alsa before e t u,
    run (Stream.step alsa) {} before = some t → t.step alsa e = some u → t.StopsOnError alsa e := by
  intro hall
  let failed : Event := .iterate (silence (-5) 0 0 (by decide))
  have hdone : (run (Stream.step alsaLib) {} started).isSome := by decide +kernel
  obtain ⟨t, hrun⟩ := Option.isSome_iff_exists.mp hdone
  have hdone' : (run (Stream.step alsaLib) {} (started ++ [failed])).isSome := by decide +kernel
  obtain ⟨u, hrun'⟩ := Option.isSome_iff_exists.mp hdone'
  obtain ⟨t', ht', hu⟩ := run_append_some.mp hrun'
  obtain rfl := Option.some.inj (hrun.symm.trans ht')
  obtain ⟨u', hstep, -⟩ := run_cons_some.mp hu
  have herr : ¬ failed.NoDeviceError := by decide
  exact herr ((Stream.stopsOnError_iff (by rw [hstep]; rfl)).mp (hall _ _ _ _ _ hrun hstep))

end KmreManager.Audio.PlaybackWorker
