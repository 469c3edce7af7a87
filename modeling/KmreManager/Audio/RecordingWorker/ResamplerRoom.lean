import KmreManager.Audio.RecordingWorker.Step
import KmreManager.Lib.RateConversion

/-! # The room of the resampler

`speexOutBuffer` has twice the bytes of a period, whatever the two rates are.
The resampler is a converter from the rate of the device to that of the client,
of which no more is known than that its calls conform. -/
namespace KmreManager.Audio.RecordingWorker

open Lib.Runs Lib.RateConversion

variable {alsa : Alsa} {s t : State} {h : RecordHandle} {actions : List Action}

/-- The turn that reads what the call is offered and is given what it gives. -/
def TurnOf (i : Iteration) (c : Lib.RateConversion.Call) : Prop :=
  i.nframe = c.offered ∧ i.result = 0 ∧ i.outFrame = c.given

/-- The room is that which a period needs, and whatever calls the resampler
makes of frames of the session, it takes all of them, and all it gives is sent:
a turn with such a call hands the resampler what was read and the room, and
`writeFully` what was given. -/
structure Delivers (s : State) (h : RecordHandle) : Prop where
  room : needed h.sampleRate s.mClientSampleRate h.periodSize ≤ s.room h
  calls : ∀ p calls, Aligned h.sampleRate s.mClientSampleRate p →
    ConformFrom h.sampleRate s.mClientSampleRate p calls →
    (∀ c ∈ calls, c.offered ≤ h.periodSize ∧ c.room = s.room h) →
    ∀ c ∈ calls, c.taken = c.offered ∧
      sizeT (c.given * h.sampleBytes) = c.given * h.sampleBytes ∧
      ∀ i, TurnOf i c → s.mSpeexResampler.isSome →
        (s.deliver h i).accesses = s.preprocess.accesses ++
          [⟨.resamplerInput, 2 * c.offered, s.mReadBuffer⟩,
            ⟨.resamplerOutput, 2 * c.room, s.speexOutBuffer⟩,
            ⟨.writeResampled, c.given * h.sampleBytes, s.speexOutBuffer⟩]

/-- The rate of the client is at most twice that of the device, and the size of
the buffer is not cut off. -/
def RoomFor (periodSize inRate outRate : Nat) : Prop :=
  periodSize % 2 ^ 30 < 2 ^ 29 ∧ periodSize * outRate ≤ 2 * (periodSize % 2 ^ 30) * inRate

instance (periodSize inRate outRate : Nat) : Decidable (RoomFor periodSize inRate outRate) :=
  inferInstanceAs (Decidable (_ ∧ _))

/-- For the periods that fit in a buffer. -/
theorem roomFor_iff {periodSize inRate outRate : Nat} (hpos : 0 < periodSize)
    (hfits : periodSize < 2 ^ 29) :
    RoomFor periodSize inRate outRate ↔ outRate ≤ 2 * inRate := by
  have hmod : periodSize % 2 ^ 30 = periodSize := Nat.mod_eq_of_lt (by omega)
  rw [RoomFor, hmod, and_iff_right hfits, Nat.mul_comm 2, Nat.mul_assoc]
  exact Nat.mul_le_mul_left_iff hpos

/-! ## The size of the buffer -/

/-- The size of the buffer is an int. -/
theorem byteArray_period {n : Nat} :
    byteArray (4 * n) = if n % 2 ^ 30 < 2 ^ 29 then 4 * (n % 2 ^ 30) else 0 := by
  unfold byteArray Int.bmod
  dsimp only
  split <;> split <;> omega

/-- The room is that of two periods, if their size fits in an int. -/
theorem Offered.room (hs : Offered s h) : s.room h =
    if h.periodSize % 2 ^ 30 < 2 ^ 29 then 2 * (h.periodSize % 2 ^ 30) else 0 := by
  rw [State.room, hs.outBuffer, hs.sampleBytes, byteArray_period, uint32]
  split <;> omega

theorem offered_of_run (hrun : run (step alsa) {} actions = some s) (hs : s.control = .streaming)
    (hh : s.mRecoder = some h) : Offered s h :=
  (run_invariant (I := InSession Offered)
    (fun s _ _ hs hstep => hs.step (fun c pcm _ _ _ _ => .setup alsa s c pcm)
      (fun _ _ _ _ hs => ⟨hs.sampleBytes, hs.periodSize, hs.outBuffer⟩) hstep)
    .init hrun).session hs h hh

/-! ## What a turn hands over -/

theorem preprocess_eq (s : State) :
    ∃ accesses, s.preprocess = { s with accesses := accesses } := by
  unfold State.preprocess
  split
  · exact ⟨_, rfl⟩
  · exact ⟨s.accesses, rfl⟩

theorem endSession_accesses (s : State) : s.endSession.accesses = s.accesses := by
  rw [endSession_eq]

theorem deliver_accesses {i : Iteration} (hs : s.mSpeexResampler.isSome) (hi : i.result = 0) :
    (s.deliver h i).accesses = s.preprocess.accesses ++
      [⟨.resamplerInput, 2 * i.nframe.toNat, s.mReadBuffer⟩,
        ⟨.resamplerOutput, 2 * s.room h, s.speexOutBuffer⟩,
        ⟨.writeResampled, sizeT (i.outFrame * h.sampleBytes), s.speexOutBuffer⟩] := by
  obtain ⟨r, hr⟩ := Option.isSome_iff_exists.mp hs
  obtain ⟨accesses, hpre⟩ := preprocess_eq s
  unfold State.deliver
  rw [hpre]
  simp only [hr, hi, if_true]
  split
  · rw [endSession_accesses]
    simp [State.touch, State.room]
  · simp [State.touch, State.room]

/-! ## When the room suffices -/

theorem Offered.needed_le (hs : Offered s h) (hperiod : 0 < h.periodSize)
    (hrate : 0 < h.sampleRate) {outRate : Nat} (hout : 0 < outRate) :
    needed h.sampleRate outRate h.periodSize ≤ s.room h ↔
      RoomFor h.periodSize h.sampleRate outRate := by
  rw [needed_le_iff hrate, hs.room, RoomFor]
  split
  next hsize => rw [and_iff_right hsize]
  next hsize =>
    have hpos := Nat.mul_pos hperiod hout
    exact iff_of_false (by omega) fun hcontra => hsize hcontra.1

/-- **The room of the resampler.** In every session, whatever period and rate
the device grants, the resampler has the room that it needs and takes every
frame if and only if the condition on period and rates holds. -/
theorem resampler_room_iff (hrun : run (step alsa) {} actions = some s)
    (hs : s.control = .streaming) (hh : s.mRecoder = some h) (hperiod : 0 < h.periodSize)
    (hrate : 0 < h.sampleRate) (hclient : s.mClientSampleRate ≠ 0) :
    Delivers s h ↔ RoomFor h.periodSize h.sampleRate s.mClientSampleRate := by
  have hoffered := offered_of_run hrun hs hh
  rw [← hoffered.needed_le hperiod hrate (Nat.pos_of_ne_zero hclient)]
  refine ⟨Delivers.room, fun hroom => ⟨hroom, fun p calls hp hcalls hall c hc => ?_⟩⟩
  obtain ⟨q, hq, hconforms⟩ := hcalls.exists_conforms hp c hc
  obtain ⟨hframes, hequal⟩ := hall c hc
  have hlt : s.room h < 2 ^ 32 := Nat.mod_lt _ (by decide)
  have hsent : sizeT (c.given * h.sampleBytes) = c.given * h.sampleBytes := by
    have hgiven := hconforms.given_le
    refine Nat.mod_eq_of_lt ?_
    rw [hoffered.sampleBytes]
    omega
  refine ⟨?_, hsent, fun i hi hresampler => ?_⟩
  · refine hconforms.takes_all hrate hq ?_
    rw [hequal]
    exact (needed_mono hrate hframes).trans hroom
  · obtain ⟨hread, hdone, hgiven⟩ := hi
    rw [deliver_accesses hresampler hdone, hread, hgiven, hsent, hequal, Int.toNat_natCast]

/-- Where it does not hold, a new resampler leaves out frames of the first full
period. -/
theorem frames_dropped (hoffered : Offered s h) (hperiod : 0 < h.periodSize)
    (hrate : 0 < h.sampleRate) (hclient : s.mClientSampleRate ≠ 0)
    (hsmall : ¬ RoomFor h.periodSize h.sampleRate s.mClientSampleRate) :
    (∃ c, Conforms h.sampleRate s.mClientSampleRate {} c ∧ c.offered = h.periodSize ∧
      c.room = s.room h) ∧
    ∀ c, Conforms h.sampleRate s.mClientSampleRate {} c → c.offered = h.periodSize →
      c.room = s.room h → c.taken < h.periodSize := by
  have hclient := Nat.pos_of_ne_zero hclient
  have hless := Nat.lt_of_not_le (mt (hoffered.needed_le hperiod hrate hclient).mp hsmall)
  refine ⟨⟨_, convert_conforms hrate hclient .init h.periodSize (s.room h), ?_, ?_⟩, ?_⟩
  · exact convert_offered ..
  · exact convert_room ..
  · intro c hc hframes hroom
    rw [← hframes, ← hroom] at hless
    exact hframes ▸ hc.drops hrate hless

/-! ## Devices and runs -/

/-- The run of a session that has begun. -/
def recording (periodSize inRate outRate : Nat) : List Action :=
  [.initData true,
    .connect ⟨true, true, RECORDING, true, outRate,
      { microphone 7 with rate := inRate, periodSize }, true, true, 0⟩]

/-- What the worker of a session holds: period, rate of the device and of the
client. -/
def State.negotiated (s : State) : Option (Nat × Nat × Nat) :=
  if s.control = .streaming then
    s.mRecoder.map fun h => (h.periodSize, h.sampleRate, s.mClientSampleRate)
  else none

theorem negotiated_eq_some {periodSize inRate outRate : Nat}
    (hs : s.negotiated = some (periodSize, inRate, outRate)) : s.control = .streaming ∧
      ∃ h, s.mRecoder = some h ∧ h.periodSize = periodSize ∧ h.sampleRate = inRate ∧
        s.mClientSampleRate = outRate := by
  obtain ⟨hstreaming, hmap⟩ := Option.ite_none_right_eq_some.mp hs
  obtain ⟨h, hh, heq⟩ := Option.map_eq_some_iff.mp hmap
  simp only [Prod.mk.injEq] at heq
  exact ⟨hstreaming, h, hh, heq⟩

/-- A device at 48000 Hz and a client at 16000 Hz. -/
theorem resampler_room_iff_third : ∃ s h, run (step alsaLib) {} (recording 1920 48000 16000) =
    some s ∧ s.mRecoder = some h ∧ Delivers s h := by
  have hdone : (run (step alsaLib) {} (recording 1920 48000 16000)).bind State.negotiated =
      some (1920, 48000, 16000) := by decide +kernel
  obtain ⟨s, hrun, hneg⟩ := Option.bind_eq_some_iff.mp hdone
  obtain ⟨hs, h, hh, hperiod, hrate, hclient⟩ := negotiated_eq_some hneg
  have hroom : RoomFor h.periodSize h.sampleRate s.mClientSampleRate := by
    rw [hperiod, hrate, hclient]
    decide
  exact ⟨s, h, hrun, hh, (resampler_room_iff hrun hs hh (by omega) (by omega) (by omega)).mpr hroom⟩

/-- A device that has 16000 Hz at most has room for 3840 of the 5760 frames that a
client at 48000 Hz is due. -/
theorem resampler_room_too_small : ¬ ∀ alsa actions s h, run (step alsa) {} actions = some s →
    s.control = .streaming → s.mRecoder = some h → 0 < h.periodSize → 0 < h.sampleRate →
    s.mClientSampleRate ≠ 0 → s.mClientSampleRate ≠ h.sampleRate → Delivers s h := by
  intro hall
  have hdone : (run (step alsaLib) {} (recording 1920 16000 48000)).bind State.negotiated =
      some (1920, 16000, 48000) := by decide +kernel
  obtain ⟨s, hrun, hneg⟩ := Option.bind_eq_some_iff.mp hdone
  obtain ⟨hs, h, hh, hperiod, hrate, hclient⟩ := negotiated_eq_some hneg
  have hdelivers := hall alsaLib _ s h hrun hs hh (by omega) (by omega) (by omega) (by omega)
  have hroom := ((offered_of_run hrun hs hh).needed_le (by omega) (by omega) (by omega)).mp
    hdelivers.room
  rw [hperiod, hrate, hclient] at hroom
  exact absurd hroom (by decide)

end KmreManager.Audio.RecordingWorker
