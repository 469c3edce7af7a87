import KmreManager.Audio.RecordingWorker.Step

/-! # The buffers of the recording loop

The only format that survives the choice is S16_LE, so that a period of n
frames has 2n bytes, `mReadBuffer` as many, and `speexOutBuffer` twice as many.
Recorder, preprocessor and both buffers are of one session, since the recorder
is destroyed at the end of each. -/
namespace KmreManager.Audio.RecordingWorker

open Lib.Runs

variable {alsa : Alsa} {s s' t : State} {h : RecordHandle} {i : Iteration}

/-- ALSA returns at most the frames it is asked for, Speex writes at most the
frames it is given, and twice the bytes of a period fit in an int. -/
def Assumed (alsa : Alsa) (s : State) : Action → Prop
  | .connect c => c.Records → c.device.Works →
    (c.device.granted alsa none).periodBytes * 2 < 2 ^ 31
  | .iterate i => ∀ h ∈ s.mRecoder,
    i.nframe ≤ h.periodSize ∧ i.outFrame ≤ uint32 (s.speexOutBuffer / h.sampleBytes)
  | _ => True

instance (s : State) : ∀ a, Decidable (Assumed alsa s a)
  | .connect c => inferInstanceAs (Decidable (c.Records → c.device.Works → _ < _))
  | .iterate _ => inferInstanceAs (Decidable (∀ h ∈ s.mRecoder, _))
  | .initData _ | .destruct => .isTrue trivial

/-- The sizes of the session that records to `h`. -/
structure Sized (s : State) (h : RecordHandle) : Prop where
  channels : h.channels = 1
  format : h.sampleFormat = .S16_LE
  sampleBytes : h.sampleBytes = 2
  fits : 4 * h.periodSize < 2 ^ 31
  readBuffer : s.mReadBuffer = 2 * h.periodSize
  outBuffer : s.speexOutBuffer = 4 * h.periodSize
  preprocesser : ∀ p, s.mSpeexPreprocesser = some p → p.frameSize = h.periodSize

/-- A session starts with buffers of the sizes it needs. -/
theorem Sized.session {c : Connection} {pcm : Nat} (hpre : s.mSpeexPreprocesser = none)
    (hfits : (c.device.granted alsa none).periodBytes * 2 < 2 ^ 31) :
    Sized { (s.session alsa c pcm).setupSpeex (c.device.granted alsa (some pcm)) c with
      control := .streaming } (c.device.granted alsa (some pcm)) := by
  have honly := setupSpeex_speexOnly (s.session alsa c pcm) (c.device.granted alsa (some pcm)) c
  have hoffered := Offered.setup alsa s c pcm
  have hbytes := granted_periodBytes alsa c.device (some pcm)
  have hfits' : 4 * (c.device.granted alsa (some pcm)).periodSize < 2 ^ 31 := by
    have hnone : (c.device.granted alsa (some pcm)).periodBytes
        = (c.device.granted alsa none).periodBytes := rfl
    omega
  refine ⟨rfl, rfl, hoffered.sampleBytes, hfits', ?_, ?_, ?_⟩
  · have hsize : (s.session alsa c pcm).mReadBuffer
        = byteArray (c.device.granted alsa (some pcm)).periodBytes := by
      simp only [State.session, State.pcm]
    refine (honly.mReadBuffer.trans hsize).trans ?_
    rw [hbytes]
    exact byteArray_eq_self.mpr (by omega)
  · exact hoffered.outBuffer.trans (byteArray_eq_self.mpr hfits')
  · intro p hp
    exact (setupSpeex_mSpeexPreprocesser (s := s.session alsa c pcm) hpre hp).1

/-- A turn touches its buffers within their bounds. -/
theorem Sized.touches (hs : Sized s h) (hframes : i.nframe ≤ h.periodSize)
    (hout : i.outFrame ≤ uint32 (s.speexOutBuffer / h.sampleBytes)) {a : Access}
    (ha : Touches alsa s h i a) : a.bytes ≤ a.capacity := by
  obtain ⟨hch, hfmt, hbytes, hfits, hread, houtb, hpre⟩ := hs
  rw [houtb, hbytes] at hout
  have hmod : uint32 (4 * h.periodSize / 2) = 2 * h.periodSize := by
    unfold uint32
    omega
  rw [hmod] at hout
  cases ha with
  | readi =>
    show h.frameBytes alsa h.periodSize ≤ s.mReadBuffer
    rw [RecordHandle.frameBytes, hch, hfmt, alsa.physicalWidth_S16_LE, hread]
    omega
  | preprocessRun p hp =>
    show 2 * p.frameSize ≤ s.mReadBuffer
    rw [hpre p hp, hread]
  | resamplerInput hn =>
    show 2 * i.nframe.toNat ≤ s.mReadBuffer
    rw [hread]
    omega
  | resamplerOutput =>
    show 2 * uint32 (s.speexOutBuffer / h.sampleBytes) ≤ s.speexOutBuffer
    rw [houtb, hbytes, hmod]
    omega
  | writeResampled =>
    show sizeT (i.outFrame * h.sampleBytes) ≤ s.speexOutBuffer
    rw [hbytes, houtb, sizeT]
    omega
  | writeRead hn =>
    show sizeT (i.nframe.toNat * h.sampleBytes) ≤ s.mReadBuffer
    rw [hbytes, hread, sizeT]
    omega

structure InBounds (s : State) : Prop where
  phases : Phases s
  accesses : ∀ a ∈ s.accesses, a.bytes ≤ a.capacity
  sized : s.control = .streaming → ∀ h, s.mRecoder = some h → Sized s h

theorem InBounds.init : InBounds {} :=
  ⟨.init, by simp, fun hc => by cases hc⟩

/-- **What a step touches.** Only a turn of the inner loop touches buffers. -/
theorem step_touches (hs : Phases s) {a : Action} (hstep : step alsa s a = some s') :
    s'.accesses = s.accesses ∨ ∃ i h touched, a = .iterate i ∧ s.control = .streaming ∧
      s.mRecoder = some h ∧ (∀ x ∈ touched, Touches alsa s h i x) ∧
      s'.accesses = s.accesses ++ touched := by
  obtain ⟨listens, -, -, rfl⟩ | ⟨c, -, hacc, rfl⟩ | ⟨i, h, rfl, hstr, hh, hturn⟩ | ⟨-, rfl⟩ :=
    step_cases hstep
  · exact .inl rfl
  · obtain ⟨hrec, hpre⟩ := hs.accepting hacc
    obtain ⟨-, heq⟩ | ⟨-, -, rate, heq⟩ | ⟨-, -, pcm, heq⟩ | ⟨-, -, calls, buffer, rate, -, heq⟩ :=
      connect_cases alsa hrec hpre c
    · rw [heq]
      exact .inl rfl
    · rw [heq]
      exact .inl rfl
    · rw [heq]
      exact .inl (setupSpeex_speexOnly (s.session alsa c pcm) (c.device.granted alsa (some pcm))
        c).accesses
    · rw [heq]
      exact .inl rfl
  · obtain ⟨calls, touched, count, -, htouched, rfl | rfl⟩ := hturn
    · exact .inr ⟨i, h, touched, rfl, hstr, hh, htouched, rfl⟩
    · rw [endSession_eq]
      exact .inr ⟨i, h, touched, rfl, hstr, hh, htouched, rfl⟩
  · exact .inl ((destroyResampler_speexOnly s.stop).accesses.trans (stop_accesses s))

/-- The step lemma. -/
theorem InBounds.step (hs : InBounds s) {a : Action} (hassumed : Assumed alsa s a)
    (hstep : step alsa s a = some s') : InBounds s' := by
  have hsession : InSession Sized s' := by
    refine InSession.step (fun c pcm ha hrecords hworks hpre => ?_) (fun h _ _ _ hs => ?_)
      ⟨hs.phases, hs.sized⟩ hstep
    · subst ha
      exact .session hpre (hassumed hrecords hworks)
    · exact ⟨hs.channels, hs.format, hs.sampleBytes, hs.fits, hs.readBuffer, hs.outBuffer,
        hs.preprocesser⟩
  refine ⟨hsession.phases, ?_, hsession.session⟩
  obtain heq | ⟨i, h, touched, rfl, hstr, hh, htouched, heq⟩ := step_touches hs.phases hstep
  · rw [heq]
    exact hs.accesses
  · rw [heq]
    obtain ⟨hframes, hout⟩ := hassumed h hh
    exact List.forall_mem_append.mpr ⟨hs.accesses, fun a ha =>
      (hs.sized hstr h hh).touches hframes hout (htouched a ha)⟩

/-- In every run, whatever the clients ask for and whatever the device grants,
no call of the inner loop reaches beyond the buffer it works on. -/
theorem recording_buffers_in_bounds (alsa : Alsa) {actions : List Action}
    (hrun : run (RecordingWorker.step alsa) {} actions = some s)
    (hassumed : Guarded (RecordingWorker.step alsa) (Assumed alsa) {} actions) :
    ∀ a ∈ s.accesses, a.bytes ≤ a.capacity :=
  (run_guarded (fun _ _ _ hs ha hstep => InBounds.step hs ha hstep) InBounds.init hassumed
    hrun).accesses

theorem recordRun_in_bounds :
    ∃ s, run (RecordingWorker.step alsaLib) {} recordRun = some s ∧ s.accesses.length = 6 ∧
      ∀ a ∈ s.accesses, a.bytes ≤ a.capacity := by
  have hdone : (run (RecordingWorker.step alsaLib) {} recordRun).map (·.accesses.length)
      = some 6 := by decide +kernel
  obtain ⟨s, hrun, hlen⟩ := Option.map_eq_some_iff.mp hdone
  exact ⟨s, hrun, hlen, recording_buffers_in_bounds alsaLib hrun (by decide +kernel)⟩

end KmreManager.Audio.RecordingWorker
