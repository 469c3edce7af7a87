import KmreManager.Audio.RecordingWorker

/-! # What one step of RecordingWorker does

`openRecorder` either opens the device with the sizes it grants or cleans up a
handle that is not open. A connection, a turn of the inner loop and the end of
a session each have one lemma that says all they change; the lemmas about whole
runs go through these. -/
namespace KmreManager.Audio.RecordingWorker

open Lib.Runs Lib.Ownership

/-! ## What the initialisation leaves -/

section Init

variable {alsa : Alsa} {d : Device} {s : State}

/-- A format other than S8 is found: the client's, or S16_LE when tried again. -/
def Device.FindsFormat (d : Device) : Prop :=
  0 ≤ d.testClientFormat ∨ d.testFormat .S16_LE = 0

/-- Every call of the negotiation succeeds. -/
def Device.Negotiates (d : Device) : Prop :=
  0 ≤ d.hwParamsAny ∧ 0 ≤ d.setAccess ∧ d.FindsFormat ∧ 0 ≤ d.setFormat ∧ 0 ≤ d.setChannels ∧
    0 ≤ d.setRateNear ∧ 0 ≤ d.setPeriodSizeNear ∧ 0 ≤ d.setBufferSizeNear ∧ 0 ≤ d.hwParams

/-- Every ALSA call of `initRecoder` succeeds. -/
def Device.Works (d : Device) : Prop :=
  0 ≤ d.hwParamsMalloc ∧ d.sndPcmOpen.isSome ∧ d.Negotiates ∧ 0 ≤ d.sndPcmStart

instance (d : Device) : Decidable d.Works := by
  unfold Device.Works Device.Negotiates Device.FindsFormat
  infer_instance

/-- The record after a negotiation that succeeds, on the handle `pcm`. -/
def Device.granted (alsa : Alsa) (d : Device) (pcm : Handle) : RecordHandle :=
  let sampleBytes := sizeT (alsa.physicalWidth .S16_LE / 8 * defaultNumChannels)
  { pcm, sampleBytes
    channels := defaultNumChannels
    sampleRate := uint32 d.rate
    sampleFormat := .S16_LE
    bitsPerSample := alsa.physicalWidth .S16_LE
    periodBytes := sizeT (uint32 d.periodSize * sampleBytes)
    periodSize := uint32 d.periodSize
    bufferSize := uint32 d.bufferSize }

theorem granted_periodBytes (alsa : Alsa) (d : Device) (pcm : Handle) :
    (d.granted alsa pcm).periodBytes = 2 * (d.granted alsa pcm).periodSize := by
  have hlt : uint32 d.periodSize < 2 ^ 32 := Nat.mod_lt _ (by decide)
  simp only [Device.granted, alsa.physicalWidth_S16_LE, defaultNumChannels, sizeT]
  omega

/-- The buffer has the size asked for unless that is none of an int. -/
theorem byteArray_eq_self {n : Nat} : byteArray n = n ↔ n < 2 ^ 31 := by
  unfold byteArray
  constructor
  · intro h
    have hlt : Int.bmod n (2 ^ 32) < 2 ^ 31 := Int.bmod_lt (by decide)
    omega
  · intro hn
    rw [Int.bmod_eq_of_le (by omega) (by omega)]
    exact Int.toNat_natCast n

/-- S8 has the code 0, which stands for no format at all: the one format that
survives the choice is S16_LE. -/
theorem Device.chooseFormat_eq_some {h h' : RecordHandle} (hfresh : h.sampleFormat = .S8) :
    d.chooseFormat h = some h' ↔ d.FindsFormat ∧ { h with sampleFormat := .S16_LE } = h' := by
  unfold Device.chooseFormat Device.FindsFormat
  by_cases hclient : d.testClientFormat < 0
  · by_cases h16 : d.testFormat .S16_LE = 0
    · simp [hclient, sampleFormats, h16, Format.code]
    · by_cases h8 : d.testFormat .S8 = 0
      · simp [hclient, sampleFormats, h16, h8, Format.code]
      · simp [hclient, sampleFormats, h16, h8, Format.code, hfresh]
  · simp [hclient, clientSampleFormat, Int.not_lt.mp hclient]

/-- The record of `initRecoder` when `snd_pcm_open` has succeeded. -/
def opened (pcm : Nat) : RecordHandle :=
  { pcm := some pcm, periodSize := RECORDING_BUF_SIZE, bufferSize := RECORDING_BUF_SIZE * 8 }

theorem Device.negotiate_eq_some {pcm : Nat} {h : RecordHandle} :
    d.negotiate alsa (opened pcm) = some h ↔ d.Negotiates ∧ d.granted alsa (some pcm) = h := by
  have hchoose : ∀ h', d.chooseFormat (opened pcm) = some h' ↔
      d.FindsFormat ∧ { opened pcm with sampleFormat := .S16_LE } = h' :=
    fun _ => d.chooseFormat_eq_some rfl
  simp [Device.negotiate, Device.Negotiates, guard, Option.bind_eq_some_iff, hchoose, and_assoc]
  intros
  rfl

theorem Device.negotiate_eq_none {pcm : Nat} (hd : ¬ d.Negotiates) :
    d.negotiate alsa (opened pcm) = none := by
  cases hn : d.negotiate alsa (opened pcm) with
  | none => rfl
  | some h => exact absurd (negotiate_eq_some.mp hn).1 hd

/-- A device that works is opened and started with the sizes it grants. -/
theorem State.initRecoder_of_works (alsa : Alsa) (s : State) (hd : d.Works) :
    ∃ pcm, s.initRecoder alsa d {} = (true,
      { s with mRecoder := some (d.granted alsa (some pcm))
               mReadBuffer := byteArray (d.granted alsa (some pcm)).periodBytes
        }.pcm [.sndPcmOpen none (some pcm), .sndPcmStart (some pcm)]) := by
  obtain ⟨hmalloc, hopen, hneg, hstart⟩ := hd
  obtain ⟨pcm, hpcm⟩ := Option.isSome_iff_exists.mp hopen
  refine ⟨pcm, ?_⟩
  have hgranted : d.negotiate alsa (opened pcm) = some (d.granted alsa (some pcm)) :=
    Device.negotiate_eq_some.mpr ⟨hneg, rfl⟩
  rw [opened] at hgranted
  simp only [State.initRecoder, hpcm, hgranted, Int.not_lt.mpr hmalloc, Int.not_lt.mpr hstart,
    if_false]
  simp [State.pcm, Device.granted]

/-- A device that works is opened and started, and the buffers have its sizes. -/
theorem State.openRecorder_of_works (hs : s.mRecoder = none) (hd : d.Works) :
    ∃ pcm, s.openRecorder alsa d = (true,
      { s with mRecoder := some (d.granted alsa (some pcm))
               mReadBuffer := byteArray (d.granted alsa (some pcm)).periodBytes
               speexOutBuffer := byteArray (sizeT ((d.granted alsa (some pcm)).periodBytes * 2))
        }.pcm [.sndPcmOpen none (some pcm), .sndPcmStart (some pcm)]) := by
  obtain ⟨pcm, hinit⟩ := s.initRecoder_of_works alsa hd
  refine ⟨pcm, ?_⟩
  simp only [State.openRecorder, hs, hinit]
  simp [State.pcm]

/-- A device that fails leaves a record whose handle the caller closes although
it is not open. -/
theorem State.initRecoder_of_fails (alsa : Alsa) (s : State) (hd : ¬ d.Works) :
    ∃ h calls buffer, s.initRecoder alsa d {} = (false,
        { s with mRecoder := some h, mReadBuffer := buffer }.pcm calls) ∧
      run check ∅ (effects (calls ++ [.sndPcmClose h.pcm, .deleteRecord h.pcm])) = none := by
  by_cases hmalloc : d.hwParamsMalloc < 0
  · refine ⟨{ periodSize := RECORDING_BUF_SIZE, bufferSize := RECORDING_BUF_SIZE * 8 },
      [], s.mReadBuffer, ?_, ?_⟩
    · simp only [State.initRecoder, hmalloc, if_true]
      simp [State.pcm]
    · rfl
  cases hopen : d.sndPcmOpen with
  | none =>
    refine ⟨{ periodSize := RECORDING_BUF_SIZE, bufferSize := RECORDING_BUF_SIZE * 8 },
      [.sndPcmOpen none none], s.mReadBuffer, ?_, ?_⟩
    · simp only [State.initRecoder, hmalloc, hopen, if_false]
    · rfl
  | some pcm =>
    by_cases hneg : d.Negotiates
    · have hstart : d.sndPcmStart < 0 := by
        by_contra hstart
        exact hd ⟨Int.not_lt.mp hmalloc, by simp [hopen], hneg, Int.not_lt.mp hstart⟩
      have hgranted : d.negotiate alsa (opened pcm) = some (d.granted alsa (some pcm)) :=
        Device.negotiate_eq_some.mpr ⟨hneg, rfl⟩
      rw [opened] at hgranted
      refine ⟨d.granted alsa (some pcm),
        [.sndPcmOpen none (some pcm), .sndPcmStart (some pcm), .sndPcmClose (some pcm)],
        byteArray (d.granted alsa (some pcm)).periodBytes, ?_, ?_⟩
      · simp only [State.initRecoder, hmalloc, hopen, hgranted, hstart, if_true, if_false]
        simp [State.pcm, Device.granted]
      · simp [effects, PcmCall.effect, run, check, Device.granted]
    · have hnone : d.negotiate alsa (opened pcm) = none := Device.negotiate_eq_none hneg
      rw [opened] at hnone
      refine ⟨opened pcm, [.sndPcmOpen none (some pcm), .sndPcmClose (some pcm)],
        s.mReadBuffer, ?_, ?_⟩
      · simp only [State.initRecoder, hmalloc, hopen, hnone, if_false]
        simp [State.pcm, opened]
      · simp [effects, PcmCall.effect, run, check, opened]

/-- A device that fails is cleaned up by calls on a handle that is not open. -/
theorem State.openRecorder_of_fails (hs : s.mRecoder = none) (hd : ¬ d.Works) :
    ∃ calls buffer, run check ∅ (effects calls) = none ∧ s.openRecorder alsa d = (false,
      ({ s with mReadBuffer := buffer }.pcm calls).destroyPreprocesser) := by
  obtain ⟨h, calls, buffer, hinit, hcheck⟩ := s.initRecoder_of_fails alsa hd
  refine ⟨calls ++ [.sndPcmClose h.pcm, .deleteRecord h.pcm], buffer, hcheck, ?_⟩
  simp only [State.openRecorder, hs, hinit]
  simp [State.destroyRecorder, State.closeRecorder, State.pcm]

end Init

/-! ## What the other steps leave alone -/

section Frame

variable {alsa : Alsa} {s t u : State}

/-- Only the Speex objects differ. -/
def SpeexOnly (s t : State) : Prop :=
  t = { s with mSpeexResampler := t.mSpeexResampler
               mSpeexPreprocesser := t.mSpeexPreprocesser
               created := t.created
               speexCalls := t.speexCalls }

theorem SpeexOnly.refl (s : State) : SpeexOnly s s := rfl

theorem SpeexOnly.trans (hst : SpeexOnly s t) (htu : SpeexOnly t u) : SpeexOnly s u := by
  unfold SpeexOnly at *
  rw [htu, hst]

section SpeexOnly

variable (hst : SpeexOnly s t)
include hst

theorem SpeexOnly.mRecoder : t.mRecoder = s.mRecoder := by
  rw [show t = _ from hst]

theorem SpeexOnly.mStream : t.mStream = s.mStream := by
  rw [show t = _ from hst]

theorem SpeexOnly.accepted : t.accepted = s.accepted := by
  rw [show t = _ from hst]

theorem SpeexOnly.streamCalls : t.streamCalls = s.streamCalls := by
  rw [show t = _ from hst]

theorem SpeexOnly.mReadBuffer : t.mReadBuffer = s.mReadBuffer := by
  rw [show t = _ from hst]

theorem SpeexOnly.speexOutBuffer : t.speexOutBuffer = s.speexOutBuffer := by
  rw [show t = _ from hst]

theorem SpeexOnly.mClientSampleRate : t.mClientSampleRate = s.mClientSampleRate := by
  rw [show t = _ from hst]

theorem SpeexOnly.accesses : t.accesses = s.accesses := by
  rw [show t = _ from hst]

theorem SpeexOnly.pcmCalls : t.pcmCalls = s.pcmCalls := by
  rw [show t = _ from hst]

end SpeexOnly

theorem destroyResampler_speexOnly (s : State) : SpeexOnly s s.destroyResampler := by
  unfold State.destroyResampler
  split <;> rfl

theorem destroyPreprocesser_speexOnly (s : State) : SpeexOnly s s.destroyPreprocesser := by
  unfold State.destroyPreprocesser
  split <;> rfl

theorem createPreprocesser_speexOnly (s : State) (h : RecordHandle) (c : Connection) :
    SpeexOnly s (s.createPreprocesser h c) := by
  unfold State.createPreprocesser
  split <;> rfl

theorem checkResampler_speexOnly (s : State) (h : RecordHandle) :
    SpeexOnly s (s.checkResampler h) := by
  unfold State.checkResampler
  split
  · split
    · exact destroyResampler_speexOnly s
    · rfl
  · rfl

theorem createResampler_speexOnly (s : State) (h : RecordHandle) (c : Connection) :
    SpeexOnly s (s.createResampler h c) := by
  unfold State.createResampler
  split
  · simp only
    split
    · exact SpeexOnly.trans (by rfl) (destroyResampler_speexOnly _)
    · rfl
  · rfl

theorem setupSpeex_speexOnly (s : State) (h : RecordHandle) (c : Connection) :
    SpeexOnly s (s.setupSpeex h c) := by
  unfold State.setupSpeex
  split
  · exact destroyResampler_speexOnly s
  · exact ((createPreprocesser_speexOnly s h c).trans (checkResampler_speexOnly _ h)).trans
      (createResampler_speexOnly _ h c)

@[simp] theorem destroyResampler_mSpeexPreprocesser (s : State) :
    s.destroyResampler.mSpeexPreprocesser = s.mSpeexPreprocesser := by
  unfold State.destroyResampler
  split <;> rfl

@[simp] theorem checkResampler_mSpeexPreprocesser (s : State) (h : RecordHandle) :
    (s.checkResampler h).mSpeexPreprocesser = s.mSpeexPreprocesser := by
  unfold State.checkResampler
  split
  · split <;> simp
  · rfl

@[simp] theorem createResampler_mSpeexPreprocesser (s : State) (h : RecordHandle)
    (c : Connection) : (s.createResampler h c).mSpeexPreprocesser = s.mSpeexPreprocesser := by
  unfold State.createResampler
  split
  · simp only
    split <;> simp
  · rfl

/-- The preprocessor of a session is created for its recorder. -/
theorem setupSpeex_mSpeexPreprocesser {s : State} {h : RecordHandle} {c : Connection}
    {p : Preprocesser} (hpre : s.mSpeexPreprocesser = none)
    (hp : (s.setupSpeex h c).mSpeexPreprocesser = some p) :
    p.frameSize = h.periodSize ∧ p.samplingRate = h.sampleRate := by
  unfold State.setupSpeex at hp
  split at hp
  · simp [hpre] at hp
  · simp only [createResampler_mSpeexPreprocesser, checkResampler_mSpeexPreprocesser,
      State.createPreprocesser] at hp
    split at hp
    · obtain rfl := Option.some.inj hp
      exact ⟨rfl, rfl⟩
    · simp [hpre] at hp

/-- A RECORDING client that states its rate. -/
def Connection.Records (c : Connection) : Prop :=
  c.accepts = true ∧ c.typeRead = true ∧ c.type = RECORDING ∧ c.rateRead = true

instance (c : Connection) : Decidable c.Records := by
  unfold Connection.Records
  infer_instance

/-- A RECORDING session in which the device is opened as `pcm`. -/
def State.session (alsa : Alsa) (s : State) (c : Connection) (pcm : Nat) : State :=
  { s.accept with
    mClientSampleRate := filterRate (uint32 c.clientSampleRate)
    mRecoder := some (c.device.granted alsa (some pcm))
    mReadBuffer := byteArray (c.device.granted alsa (some pcm)).periodBytes
    speexOutBuffer := byteArray (sizeT ((c.device.granted alsa (some pcm)).periodBytes * 2))
    }.pcm [.sndPcmOpen none (some pcm), .sndPcmStart (some pcm)]

/-- **What a connection does** to a worker without a recorder: nothing, release
the stream, open a session, or fail to and keep the stream. -/
theorem connect_cases (alsa : Alsa) (hs : s.mRecoder = none) (hpre : s.mSpeexPreprocesser = none)
    (c : Connection) :
    (c.accepts = false ∧ s.connect alsa c = { s with mStream := none }) ∨
    (c.accepts = true ∧ ¬ c.Records ∧ ∃ rate,
      s.connect alsa c = { s.accept with mClientSampleRate := rate }.releaseStream) ∨
    (c.Records ∧ c.device.Works ∧ ∃ pcm, s.connect alsa c =
      { (s.session alsa c pcm).setupSpeex (c.device.granted alsa (some pcm)) c with
        control := .streaming }) ∨
    (c.Records ∧ ¬ c.device.Works ∧ ∃ calls buffer rate, run check ∅ (effects calls) = none ∧
      s.connect alsa c =
        { s.accept with mClientSampleRate := rate, mReadBuffer := buffer }.pcm calls) := by
  unfold State.connect
  by_cases ha : c.accepts
  swap
  · exact .inl (by simp [ha])
  by_cases hr : c.typeRead
  swap
  · exact .inr (.inl ⟨ha, fun hrec => hr hrec.2.1, s.mClientSampleRate, by simp [ha, hr]; rfl⟩)
  by_cases ht : c.type = RECORDING
  swap
  · exact .inr (.inl ⟨ha, fun hrec => ht hrec.2.2.1, s.mClientSampleRate,
      by simp [ha, hr, ht]; rfl⟩)
  by_cases hrate : c.rateRead
  swap
  · exact .inr (.inl ⟨ha, fun hrec => hrate hrec.2.2.2, uint32 c.clientSampleRate,
      by simp [ha, hr, ht, hrate]⟩)
  have hrec : c.Records := ⟨ha, hr, ht, hrate⟩
  simp only [ha, hr, ht, hrate, Bool.not_true, if_true, if_false, Bool.false_eq_true]
  let t : State := { s.accept with mClientSampleRate := filterRate (uint32 c.clientSampleRate) }
  have hnone : t.mRecoder = none := hs
  by_cases hd : c.device.Works
  · obtain ⟨pcm, heq⟩ := State.openRecorder_of_works hnone hd
    refine .inr (.inr (.inl ⟨hrec, hd, pcm, ?_⟩))
    unfold State.setup
    simp only
    rw [heq]
    rfl
  · obtain ⟨calls, buffer, hbad, heq⟩ := State.openRecorder_of_fails hnone hd
    refine .inr (.inr (.inr ⟨hrec, hd, calls, buffer, t.mClientSampleRate, hbad, ?_⟩))
    have hkeep : ({ t with mReadBuffer := buffer }.pcm calls).destroyPreprocesser
        = { t with mReadBuffer := buffer }.pcm calls := by
      simp [State.destroyPreprocesser, State.pcm, t, State.accept, hpre]
    unfold State.setup
    simp only
    rw [heq, hkeep]

/-- What one turn of the inner loop may touch of the buffers. -/
inductive Touches (alsa : Alsa) (s : State) (h : RecordHandle) (i : Iteration) : Access → Prop
  | readi : Touches alsa s h i ⟨.readi, h.frameBytes alsa h.periodSize, s.mReadBuffer⟩
  | preprocessRun (p : Preprocesser) (hp : s.mSpeexPreprocesser = some p) :
    Touches alsa s h i ⟨.preprocessRun, 2 * p.frameSize, s.mReadBuffer⟩
  | resamplerInput (hn : 0 < i.nframe) :
    Touches alsa s h i ⟨.resamplerInput, 2 * i.nframe.toNat, s.mReadBuffer⟩
  | resamplerOutput : Touches alsa s h i
    ⟨.resamplerOutput, 2 * s.room h, s.speexOutBuffer⟩
  | writeResampled : Touches alsa s h i
    ⟨.writeResampled, sizeT (i.outFrame * h.sampleBytes), s.speexOutBuffer⟩
  | writeRead (hn : 0 < i.nframe) : Touches alsa s h i
    ⟨.writeRead, sizeT (i.nframe.toNat * h.sampleBytes), s.mReadBuffer⟩

/-- The state after a turn, short of ending the session. -/
def State.turned (s : State) (calls : List PcmCall) (touched : List Access) (count : Int32) :
    State :=
  { s with pcmCalls := s.pcmCalls ++ calls, accesses := s.accesses ++ touched, count }

/-- The turn goes on with, or ends the session in, a state that it has only
made calls in. -/
def TurnsTo (alsa : Alsa) (s : State) (h : RecordHandle) (i : Iteration) (t : State) : Prop :=
  ∃ calls touched count, (∀ c ∈ calls, c.effect = [.use h.pcm]) ∧
    (∀ a ∈ touched, Touches alsa s h i a) ∧
    (t = s.turned calls touched count ∨ t = (s.turned calls touched count).endSession)

variable {h : RecordHandle} {i : Iteration}

theorem turnsTo_retry {calls : List PcmCall} {touched : List Access}
    (hcalls : ∀ c ∈ calls, c.effect = [.use h.pcm]) (ht : ∀ a ∈ touched, Touches alsa s h i a) :
    TurnsTo alsa s h i (s.turned calls touched s.count).retry := by
  refine ⟨calls, touched, s.count + 1, hcalls, ht, ?_⟩
  unfold State.retry
  simp only
  split
  · exact .inr rfl
  · exact .inl rfl

theorem turned_touch (s : State) (calls : List PcmCall) (touched : List Access)
    (count : Int32)
    (call : BufferCall) (bytes capacity : Nat) :
    (s.turned calls touched count).touch call bytes capacity
      = s.turned calls (touched ++ [⟨call, bytes, capacity⟩]) count := by
  simp [State.turned, State.touch]

theorem turned_pcm (s : State) (calls more : List PcmCall) (touched : List Access)
    (count : Int32) :
    (s.turned calls touched count).pcm more = s.turned (calls ++ more) touched count := by
  simp [State.turned, State.pcm]

/-- `writeFully` of the period ends the turn. -/
theorem turnsTo_write {calls : List PcmCall} {touched : List Access}
    (hcalls : ∀ c ∈ calls, c.effect = [.use h.pcm]) (ht : ∀ a ∈ touched, Touches alsa s h i a) :
    TurnsTo alsa s h i
      (if i.writeFully < 0 then (s.turned calls touched s.count).endSession
        else { s.turned calls touched s.count with count := 0 }) := by
  split
  · exact ⟨calls, touched, s.count, hcalls, ht, .inr rfl⟩
  · exact ⟨calls, touched, 0, hcalls, ht, .inl rfl⟩

theorem touches_concat {touched : List Access} {a : Access}
    (ht : ∀ a ∈ touched, Touches alsa s h i a) (ha : Touches alsa s h i a) :
    ∀ b ∈ touched ++ [a], Touches alsa s h i b :=
  List.forall_mem_append.mpr ⟨ht, by simpa using ha⟩

theorem turnsTo_deliver {calls : List PcmCall} {touched : List Access}
    (hcalls : ∀ c ∈ calls, c.effect = [.use h.pcm]) (ht : ∀ a ∈ touched, Touches alsa s h i a)
    (hn : 0 < i.nframe) :
    TurnsTo alsa s h i ((s.turned calls touched s.count).deliver h i) := by
  obtain ⟨cleaned, hcleaned, hpre⟩ : ∃ cleaned, (∀ a ∈ cleaned, Touches alsa s h i a) ∧
      (s.turned calls touched s.count).preprocess = s.turned calls cleaned s.count := by
    unfold State.preprocess
    cases hp : (s.turned calls touched s.count).mSpeexPreprocesser with
    | none => exact ⟨touched, ht, rfl⟩
    | some p => exact ⟨_, touches_concat ht (.preprocessRun p hp), turned_touch s _ _ _ _ _ _⟩
  unfold State.deliver
  simp only [hpre]
  cases hr : (s.turned calls cleaned s.count).mSpeexResampler with
  | none =>
    simp only [turned_touch]
    exact turnsTo_write hcalls (touches_concat hcleaned (.writeRead hn))
  | some r =>
    simp only [turned_touch]
    have hio := touches_concat (touches_concat hcleaned (.resamplerInput hn)) .resamplerOutput
    split
    · exact turnsTo_write hcalls (touches_concat hio .writeResampled)
    · exact ⟨calls, _, 0, hcalls, hio, .inl rfl⟩

/-- **What a turn does**: calls on the open handle, touches of the buffers, and
the end of the session or not. -/
theorem iterate_turnsTo (alsa : Alsa) (s : State) (h : RecordHandle) (i : Iteration) :
    TurnsTo alsa s h i (s.iterate alsa h i) := by
  let read : PcmCall := .sndPcmReadi h.pcm h.periodSize
  let touch : Access := ⟨.readi, h.frameBytes alsa h.periodSize, s.mReadBuffer⟩
  have htouch : ∀ a ∈ [touch], Touches alsa s h i a := by
    simpa using Touches.readi
  have hread : ∀ c ∈ [read], c.effect = [.use h.pcm] := by
    simp [read, PcmCall.effect]
  have hstart : (s.pcm [.sndPcmReadi h.pcm h.periodSize]).touch .readi
      (h.frameBytes alsa h.periodSize) (s.pcm [.sndPcmReadi h.pcm h.periodSize]).mReadBuffer
        = s.turned [read] [touch] s.count := rfl
  unfold State.iterate
  simp only [hstart]
  split
  · rw [turned_pcm]
    exact turnsTo_retry (by simp [read, PcmCall.effect]) htouch
  split
  -- -EPIPE
  · rw [turned_pcm]
    split
    · exact ⟨_, [touch], s.count, by simp [read, PcmCall.effect], htouch, .inr rfl⟩
    · rw [turned_pcm]
      split
      · exact ⟨_, [touch], s.count, by simp [read, PcmCall.effect], htouch, .inr rfl⟩
      · exact turnsTo_retry (by simp [read, PcmCall.effect]) htouch
  split
  · exact turnsTo_retry hread htouch
  split
  · exact ⟨_, [touch], s.count, hread, htouch, .inr rfl⟩
  · exact turnsTo_deliver hread htouch (by omega)

/-! ### Between sessions -/

/-- A session ends with recorder and preprocessor destroyed and the stream
released; the resampler, the buffers and the counters stay. -/
theorem endSession_eq (s : State) :
    s.endSession = { s with mRecoder := none
                            mSpeexPreprocesser := none
                            mStream := s.endSession.mStream
                            control := .accepting
                            pcmCalls := s.endSession.pcmCalls
                            streamCalls := s.endSession.streamCalls
                            speexCalls := s.endSession.speexCalls } := by
  unfold State.endSession State.stop State.destroyRecorder State.releaseStream
    State.closeRecorder State.destroyPreprocesser
  cases hst : s.mStream <;> cases hrec : s.mRecoder <;> cases hpre : s.mSpeexPreprocesser <;>
    simp [State.pcm, hrec, hpre]

theorem endSession_pcmCalls (hs : s.mRecoder = some h) :
    s.endSession.pcmCalls = s.pcmCalls ++ [.sndPcmClose h.pcm, .deleteRecord h.pcm] := by
  unfold State.endSession State.stop State.destroyRecorder State.releaseStream
    State.closeRecorder State.destroyPreprocesser
  cases s.mStream <;> cases s.mSpeexPreprocesser <;> simp [State.pcm, hs]

theorem endSession_streamCalls {k : Nat} (hs : s.mStream = some k) :
    s.endSession.streamCalls = s.streamCalls ++ [.forceStop k, .delete k] := by
  unfold State.endSession State.stop State.destroyRecorder State.releaseStream
    State.closeRecorder State.destroyPreprocesser
  cases s.mRecoder <;> cases s.mSpeexPreprocesser <;> simp [State.pcm, hs]

/-- Recorder and preprocessor live within a session. -/
structure Phases (s : State) : Prop where
  outside : s.control ≠ .streaming → s.mRecoder = none ∧ s.mSpeexPreprocesser = none
  inside : s.control = .streaming → s.mRecoder.isSome

theorem Phases.init : Phases {} :=
  ⟨fun _ => ⟨rfl, rfl⟩, fun hc => by cases hc⟩

theorem Phases.accepting (hs : Phases s) (hacc : s.control = .accepting) :
    s.mRecoder = none ∧ s.mSpeexPreprocesser = none :=
  hs.outside (by rw [hacc]; decide)

theorem Phases.of_none (hrec : s.mRecoder = none) (hpre : s.mSpeexPreprocesser = none)
    (hc : s.control ≠ .streaming) : Phases s :=
  ⟨fun _ => ⟨hrec, hpre⟩, fun hcontra => absurd hcontra hc⟩

theorem Phases.connect (hs : Phases s) (hacc : s.control = .accepting) (c : Connection) :
    Phases (s.connect alsa c) := by
  obtain ⟨hrec, hpre⟩ := hs.accepting hacc
  have hctl : s.control ≠ .streaming := by simp [hacc]
  obtain ⟨-, heq⟩ | ⟨-, -, rate, heq⟩ | ⟨-, -, pcm, heq⟩ | ⟨-, -, calls, buffer, rate, -, heq⟩ :=
    connect_cases alsa hrec hpre c
  · rw [heq]
    exact .of_none hrec hpre hctl
  · rw [heq]
    exact .of_none hrec hpre hctl
  · rw [heq]
    refine ⟨fun hcontra => absurd rfl hcontra, fun _ => ?_⟩
    have honly := setupSpeex_speexOnly (s.session alsa c pcm)
      (c.device.granted alsa (some pcm)) c
    rw [show State.mRecoder _ = _ from honly.mRecoder]
    rfl
  · rw [heq]
    exact .of_none hrec hpre hctl

theorem Phases.turnsTo {t : State} (hs : Phases s) (ht : TurnsTo alsa s h i t) : Phases t := by
  obtain ⟨calls, touched, count, -, -, rfl | rfl⟩ := ht
  · exact ⟨hs.outside, hs.inside⟩
  · rw [endSession_eq]
    exact .of_none rfl rfl (by simp)

theorem stop_none (s : State) : s.stop.mRecoder = none ∧ s.stop.mSpeexPreprocesser = none := by
  unfold State.stop State.destroyRecorder State.closeRecorder State.destroyPreprocesser
  cases hrec : s.mRecoder <;> cases hpre : s.mSpeexPreprocesser <;> simp [State.pcm, hrec, hpre]

theorem stop_accesses (s : State) : s.stop.accesses = s.accesses := by
  refine (destroyPreprocesser_speexOnly s.closeRecorder).accesses.trans ?_
  unfold State.closeRecorder
  split <;> rfl

theorem destroyRecorder_of_none (hrec : s.mRecoder = none) (hpre : s.mSpeexPreprocesser = none) :
    s.destroyRecorder = s := by
  simp [State.destroyRecorder, State.closeRecorder, State.destroyPreprocesser, hrec, hpre]

/-- The destructor's second `destroyRecorder` finds nothing. -/
theorem destruct_eq (s : State) :
    s.stop.destroyResampler.destroyRecorder = s.stop.destroyResampler := by
  have honly := destroyResampler_speexOnly s.stop
  apply destroyRecorder_of_none
  · exact honly.mRecoder.trans (stop_none s).1
  · unfold State.destroyResampler
    split
    · exact (stop_none s).2
    · exact (stop_none s).2

/-- What each action does, and where it can be taken. -/
theorem step_cases {a : Action} (hstep : step alsa s a = some t) :
    (∃ listens, a = .initData listens ∧ s.control = .idle ∧
      t = { s with control := if listens then .accepting else .left }) ∨
    (∃ c, a = .connect c ∧ s.control = .accepting ∧ t = s.connect alsa c) ∨
    (∃ i h, a = .iterate i ∧ s.control = .streaming ∧ s.mRecoder = some h ∧
      TurnsTo alsa s h i t) ∨
    (a = .destruct ∧ t = { s.stop.destroyResampler with control := .destroyed }) := by
  cases a with
  | initData listens =>
    obtain ⟨hidle, heq⟩ := Option.ite_none_right_eq_some.mp hstep
    exact .inl ⟨listens, rfl, hidle, (Option.some.inj heq).symm⟩
  | connect c =>
    obtain ⟨hacc, heq⟩ := Option.ite_none_right_eq_some.mp hstep
    exact .inr (.inl ⟨c, rfl, hacc, (Option.some.inj heq).symm⟩)
  | iterate i =>
    obtain ⟨hstr, heq⟩ := Option.ite_none_right_eq_some.mp hstep
    obtain ⟨h, hh, rfl⟩ := Option.map_eq_some_iff.mp heq
    exact .inr (.inr (.inl ⟨i, h, rfl, hstr, hh, iterate_turnsTo alsa s h i⟩))
  | destruct =>
    obtain ⟨-, heq⟩ := Option.ite_none_left_eq_some.mp hstep
    rw [destruct_eq] at heq
    exact .inr (.inr (.inr ⟨rfl, (Option.some.inj heq).symm⟩))

theorem Phases.step {a : Action} (hs : Phases s) (hstep : step alsa s a = some t) : Phases t := by
  obtain ⟨listens, rfl, hidle, rfl⟩ | ⟨c, rfl, hacc, rfl⟩ | ⟨i, h, rfl, -, -, hturn⟩ | ⟨rfl, rfl⟩ :=
    step_cases hstep
  · obtain ⟨hrec, hpre⟩ := hs.outside (by rw [hidle]; decide)
    refine .of_none hrec hpre ?_
    cases listens <;> simp
  · exact hs.connect hacc c
  · exact hs.turnsTo hturn
  · obtain ⟨hrec, hpre⟩ := stop_none s
    have honly := destroyResampler_speexOnly s.stop
    exact .of_none (honly.mRecoder.trans hrec)
      ((destroyResampler_mSpeexPreprocesser s.stop).trans hpre) (by simp)

/-! ### Within sessions -/

/-- In the inner loop, `Q` holds with the record of the session. -/
structure InSession (Q : State → RecordHandle → Prop) (s : State) : Prop where
  phases : Phases s
  session : s.control = .streaming → ∀ h, s.mRecoder = some h → Q s h

theorem InSession.init {Q : State → RecordHandle → Prop} : InSession Q {} :=
  ⟨.init, fun hc => by cases hc⟩

theorem InSession.outside {Q : State → RecordHandle → Prop} (hphases : Phases s)
    (hc : s.control ≠ .streaming) : InSession Q s :=
  ⟨hphases, fun hcontra => absurd hcontra hc⟩

/-- **Session rule.** What the setup of a session establishes and its turns
keep, holds in the inner loop of every session. -/
theorem InSession.step {Q : State → RecordHandle → Prop} {a : Action}
    (hsetup : ∀ c pcm, a = .connect c → c.Records → c.device.Works →
      s.mSpeexPreprocesser = none →
      Q { (s.session alsa c pcm).setupSpeex (c.device.granted alsa (some pcm)) c with
        control := .streaming } (c.device.granted alsa (some pcm)))
    (hturned : ∀ h calls touched count, Q s h → Q (s.turned calls touched count) h)
    (hs : InSession Q s) (hstep : step alsa s a = some t) : InSession Q t := by
  have hphases : Phases t := hs.phases.step hstep
  obtain ⟨listens, -, -, rfl⟩ | ⟨c, ha, hacc, rfl⟩ | ⟨i, h, -, -, -, hturn⟩ | ⟨-, rfl⟩ :=
    step_cases hstep
  · exact .outside hphases (by cases listens <;> simp)
  · obtain ⟨hrec, hpre⟩ := hs.phases.accepting hacc
    obtain ⟨-, heq⟩ | ⟨-, -, rate, heq⟩ | ⟨hrecords, hworks, pcm, heq⟩ |
      ⟨-, -, calls, buffer, rate, -, heq⟩ := connect_cases alsa hrec hpre c
    · rw [heq] at hphases ⊢
      exact .outside hphases (by simp [hacc])
    · rw [heq] at hphases ⊢
      exact .outside hphases (by simp [State.releaseStream, State.accept, hacc])
    · rw [heq] at hphases ⊢
      refine ⟨hphases, fun _ h hh => ?_⟩
      have honly := setupSpeex_speexOnly (s.session alsa c pcm)
        (c.device.granted alsa (some pcm)) c
      obtain rfl := Option.some.inj (honly.mRecoder.symm.trans hh)
      exact hsetup c pcm ha hrecords hworks hpre
    · rw [heq] at hphases ⊢
      exact .outside hphases (by simp [State.pcm, State.accept, hacc])
  · obtain ⟨calls, touched, count, -, -, rfl | rfl⟩ := hturn
    · exact ⟨hphases, fun hc g hg => hturned g calls touched count (hs.session hc g hg)⟩
    · rw [endSession_eq] at hphases ⊢
      exact .outside hphases (by simp)
  · exact .outside hphases (by simp)

/-- The sizes that the setup of a session leaves, whatever the device grants. -/
structure Offered (s : State) (h : RecordHandle) : Prop where
  sampleBytes : h.sampleBytes = 2
  periodSize : h.periodSize < 2 ^ 32
  outBuffer : s.speexOutBuffer = byteArray (4 * h.periodSize)

theorem Offered.setup (alsa : Alsa) (s : State) (c : Connection) (pcm : Nat) :
    Offered { (s.session alsa c pcm).setupSpeex (c.device.granted alsa (some pcm)) c with
      control := .streaming } (c.device.granted alsa (some pcm)) := by
  have honly := setupSpeex_speexOnly (s.session alsa c pcm) (c.device.granted alsa (some pcm)) c
  have hperiod : uint32 c.device.periodSize < 2 ^ 32 := Nat.mod_lt _ (by decide)
  refine ⟨?_, hperiod, ?_⟩
  · simp [Device.granted, alsa.physicalWidth_S16_LE, defaultNumChannels, sizeT]
  · refine honly.speexOutBuffer.trans ?_
    simp only [State.session, State.pcm, Device.granted, alsa.physicalWidth_S16_LE,
      defaultNumChannels, sizeT]
    congr 1
    omega

end Frame

end KmreManager.Audio.RecordingWorker
