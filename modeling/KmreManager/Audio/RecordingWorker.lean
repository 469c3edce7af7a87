import Mathlib.Algebra.Group.Nat.Defs
import Mathlib.Algebra.Group.Int.Defs
import KmreManager.Audio.Alsa

/-! # RecordingWorker

audio/recordingworker.cpp. `start` accepts one client at a time; a RECORDING
client states its sample rate, the device is opened, and the inner loop sends
it what the device records, cleaned by a Speex preprocessor and converted by a
Speex resampler. One action is one turn of either loop, with the answers the
turn gets from the socket, from ALSA and from Speex. -/
namespace KmreManager.Audio.RecordingWorker

open Lib.Runs Lib.Ownership

def RECORDING : Int := 1
def RECORDING_BUF_SIZE : Nat := 1920
def READ_TRY_TIMES : Int32 := 500

def defaultSampleRate : Nat := 48000
def defaultNumChannels : Nat := 1

/-- `mClientSampleFormat`, which nothing changes. -/
def clientSampleFormat : Format := .S16_LE

def sampleFormats : List Format := [.S16_LE, .S8]

def uint32 (n : Nat) : Nat := n % 2 ^ 32
def sizeT (n : Nat) : Nat := n % 2 ^ 64

/-- The size of `QByteArray(n, 0)`, whose parameter is an int. -/
def byteArray (n : Nat) : Nat := (Int.bmod n (2 ^ 32)).toNat

/-- record_handle_t; `new record_handle_t()` clears it. -/
structure RecordHandle where
  pcm : Handle := none
  channels : Nat := 0
  sampleRate : Nat := 0
  sampleFormat : Format := .S8
  bitsPerSample : Nat := 0
  sampleBytes : Nat := 0
  periodBytes : Nat := 0
  periodSize : Nat := 0
  bufferSize : Nat := 0
deriving DecidableEq

/-- A `SpeexResamplerState`: its number among the Speex objects created, and the
channels and rates it was created for. -/
structure Resampler where
  id : Nat
  channels : Nat
  inRate : Nat
  outRate : Nat
deriving DecidableEq

/-- A `SpeexPreprocessState`. -/
structure Preprocesser where
  id : Nat
  frameSize : Nat
  samplingRate : Nat
deriving DecidableEq

/-- What ALSA answers during one `initRecoder`. -/
structure Device where
  hwParamsMalloc : Int
  sndPcmOpen : Option Nat
  hwParamsAny : Int
  setAccess : Int
  /-- for the client's format -/
  testClientFormat : Int
  /-- for a member of `SampleFormats` -/
  testFormat : Format → Int
  setFormat : Int
  setChannels : Int
  setRateNear : Int
  rate : Nat
  setPeriodSizeNear : Int
  periodSize : Nat
  setBufferSizeNear : Int
  bufferSize : Nat
  hwParams : Int
  sndPcmStart : Int

/-- The buffers of the inner loop and the calls that touch them. -/
inductive BufferCall
  /-- `snd_pcm_readi` into `mReadBuffer` -/
  | readi
  /-- `speex_preprocess_run` in place on `mReadBuffer` -/
  | preprocessRun
  /-- the input of `speex_resampler_process_int`, from `mReadBuffer` -/
  | resamplerInput
  /-- its output, to `speexOutBuffer` -/
  | resamplerOutput
  /-- `writeFully` of `speexOutBuffer` -/
  | writeResampled
  /-- `writeFully` of `mReadBuffer` -/
  | writeRead
deriving DecidableEq

/-- How many bytes a call may touch of a buffer that holds `capacity`. -/
structure Access where
  call : BufferCall
  bytes : Nat
  capacity : Nat
deriving DecidableEq

inductive Control
  /-- before `initData` -/
  | idle
  /-- about to call `accept` -/
  | accepting
  /-- in the inner loop -/
  | streaming
  /-- `start` has returned without listening -/
  | left
  /-- the worker is destroyed -/
  | destroyed
deriving DecidableEq

structure State where
  mRecoder : Option RecordHandle := none
  mReadBuffer : Nat := 0
  mClientSampleRate : Nat := 0
  mSpeexResampler : Option Resampler := none
  mSpeexPreprocesser : Option Preprocesser := none
  mStream : Option Nat := none
  speexOutBuffer : Nat := 0
  count : Int32 := 0
  control : Control := .idle
  /-- how many streams `accept` has returned -/
  accepted : Nat := 0
  /-- how many Speex objects have been created -/
  created : Nat := 0
  pcmCalls : List PcmCall := []
  streamCalls : List StreamCall := []
  /-- creations and destructions of Speex objects -/
  speexCalls : List (Call Nat) := []
  accesses : List Access := []
deriving DecidableEq

/-- The worker has made these PCM calls. -/
def State.pcm (s : State) (calls : List PcmCall) : State :=
  { s with pcmCalls := s.pcmCalls ++ calls }

/-- The worker has made a call on a buffer. -/
def State.touch (s : State) (call : BufferCall) (bytes capacity : Nat) : State :=
  { s with accesses := s.accesses ++ [⟨call, bytes, capacity⟩] }

/-- The choice of the sample format in a record `h`; `none` is a `break`. -/
def Device.chooseFormat (d : Device) (h : RecordHandle) : Option RecordHandle :=
  if d.testClientFormat < 0 then
    let h := match sampleFormats.find? fun format => d.testFormat format = 0 with
      | some format => { h with sampleFormat := format }
      | none => h
    if h.sampleFormat.code = 0 then none else some h
  else some { h with sampleFormat := clientSampleFormat }

/-- The `do { .. } while(0)` of `initRecoder` up to the allocation of
`mReadBuffer`; `none` is a `break`. -/
def Device.negotiate (alsa : Alsa) (d : Device) (h : RecordHandle) : Option RecordHandle := do
  guard (0 ≤ d.hwParamsAny)
  guard (0 ≤ d.setAccess)
  let h ← d.chooseFormat h
  guard (0 ≤ d.setFormat)
  let h := { h with channels := defaultNumChannels }
  guard (0 ≤ d.setChannels)
  guard (0 ≤ d.setRateNear)
  let h := { h with sampleRate := uint32 d.rate }
  guard (0 ≤ d.setPeriodSizeNear)
  let h := { h with periodSize := uint32 d.periodSize }
  guard (0 ≤ d.setBufferSizeNear)
  let h := { h with bufferSize := uint32 d.bufferSize }
  guard (0 ≤ d.hwParams)
  let h := { h with bitsPerSample := alsa.physicalWidth h.sampleFormat }
  let h := { h with sampleBytes := sizeT (h.bitsPerSample / 8 * h.channels) }
  return { h with periodBytes := sizeT (h.periodSize * h.sampleBytes) }

/-- Fills the record `h` that `mRecoder` points to. On a `break` the fields the
negotiation has written so far are not kept: the caller deletes the record. -/
def State.initRecoder (alsa : Alsa) (d : Device) (s : State) (h : RecordHandle) : Bool × State :=
  let h := { h with periodSize := RECORDING_BUF_SIZE, bufferSize := RECORDING_BUF_SIZE * 8 }
  if d.hwParamsMalloc < 0 then (false, { s with mRecoder := some h })
  else
    match d.sndPcmOpen with
    | none => (false, { s with mRecoder := some h }.pcm [.sndPcmOpen h.pcm none])
    | some pcm =>
      let s := s.pcm [.sndPcmOpen h.pcm (some pcm)]
      let h := { h with pcm := some pcm }
      match d.negotiate alsa h with
      | some h =>
        let s := { s with mRecoder := some h, mReadBuffer := byteArray h.periodBytes }
        let s := s.pcm [.sndPcmStart h.pcm]
        if d.sndPcmStart < 0 then (false, s.pcm [.sndPcmClose h.pcm]) else (true, s)
      | none => (false, { s with mRecoder := some h }.pcm [.sndPcmClose h.pcm])

def State.destroyResampler (s : State) : State :=
  match s.mSpeexResampler with
  | some r =>
    { s with mSpeexResampler := none, speexCalls := s.speexCalls ++ [.release r.id] }
  | none => s

def State.destroyPreprocesser (s : State) : State :=
  match s.mSpeexPreprocesser with
  | some p =>
    { s with mSpeexPreprocesser := none, speexCalls := s.speexCalls ++ [.release p.id] }
  | none => s

def State.closeRecorder (s : State) : State :=
  match s.mRecoder with
  | some h => { s with mRecoder := none }.pcm [.sndPcmClose h.pcm, .deleteRecord h.pcm]
  | none => s

def State.destroyRecorder (s : State) : State :=
  s.closeRecorder.destroyPreprocesser

def State.stop (s : State) : State := s.destroyRecorder

/-- `forceStop`, `delete`, and the member set to null. -/
def State.releaseStream (s : State) : State :=
  match s.mStream with
  | some k =>
    { s with mStream := none, streamCalls := s.streamCalls ++ [.forceStop k, .delete k] }
  | none => s

/-- One turn of the outer loop up to the inner one. -/
structure Connection where
  /-- `accept` returned a stream -/
  accepts : Bool
  /-- `readFully` of the client's type -/
  typeRead : Bool
  type : Int
  /-- `readFully` of the client's rate -/
  rateRead : Bool
  /-- what the rate's member holds after it -/
  clientSampleRate : Nat
  device : Device
  /-- `speex_preprocess_state_init` returned a state -/
  preprocessInit : Bool
  /-- `speex_resampler_init` returned a state -/
  resamplerInit : Bool
  speexErr : Int

/-- `m_stream = mListenSock->accept()` returned a stream. -/
def State.accept (s : State) : State :=
  { s with mStream := some s.accepted, accepted := s.accepted + 1,
           streamCalls := s.streamCalls ++ [.accept s.accepted] }

/-- The rates the worker converts to; any other one counts as 0. -/
def filterRate (rate : Nat) : Nat :=
  if rate ≠ 8000 ∧ rate ≠ 16000 ∧ rate ≠ 48000 then 0 else rate

/-- `if (!mRecoder)`. -/
def State.openRecorder (alsa : Alsa) (d : Device) (s : State) : Bool × State :=
  match s.mRecoder with
  | some _ => (true, s)
  | none =>
    match s.initRecoder alsa d {} with
    | (true, s) =>
      let periodBytes := (s.mRecoder.map (·.periodBytes)).getD 0
      (true, { s with speexOutBuffer := byteArray (sizeT (periodBytes * 2)) })
    | (false, s) => (false, s.destroyRecorder)

/-- `if (!mSpeexPreprocesser)`. -/
def State.createPreprocesser (s : State) (h : RecordHandle) (c : Connection) : State :=
  if s.mSpeexPreprocesser.isNone ∧ c.preprocessInit then
    { s with mSpeexPreprocesser := some ⟨s.created, h.periodSize, h.sampleRate⟩,
             created := s.created + 1, speexCalls := s.speexCalls ++ [.acquire s.created] }
  else s

/-- Destroys a resampler that is for other rates. -/
def State.checkResampler (s : State) (h : RecordHandle) : State :=
  match s.mSpeexResampler with
  | some r =>
    if r.inRate ≠ h.sampleRate ∨ r.outRate ≠ s.mClientSampleRate then s.destroyResampler else s
  | none => s

def State.createResampler (s : State) (h : RecordHandle) (c : Connection) : State :=
  if s.mSpeexResampler.isNone ∧ h.sampleRate ≠ s.mClientSampleRate ∧ c.resamplerInit then
    let s := { s with
      mSpeexResampler := some ⟨s.created, h.channels, h.sampleRate, s.mClientSampleRate⟩,
      created := s.created + 1, speexCalls := s.speexCalls ++ [.acquire s.created] }
    if c.speexErr ≠ 0 then s.destroyResampler else s
  else s

def State.setupSpeex (s : State) (h : RecordHandle) (c : Connection) : State :=
  if s.mClientSampleRate = 0 then s.destroyResampler
  else ((s.createPreprocesser h c).checkResampler h).createResampler h c

/-- A RECORDING session up to the inner loop, once the rate is read. -/
def State.setup (alsa : Alsa) (s : State) (c : Connection) : State :=
  let s := { s with mClientSampleRate := filterRate s.mClientSampleRate }
  match s.openRecorder alsa c.device with
  | (true, s) =>
    match s.mRecoder with
    | some h => { s.setupSpeex h c with control := .streaming }
    | none => s
  | (false, s) => s

def State.connect (alsa : Alsa) (s : State) (c : Connection) : State :=
  if !c.accepts then { s with mStream := none }
  else
    let s := s.accept
    if !c.typeRead then s.releaseStream
    else if c.type = RECORDING then
      let s := { s with mClientSampleRate := uint32 c.clientSampleRate }
      if !c.rateRead then s.releaseStream else s.setup alsa c
    else s.releaseStream

/-- One turn of the inner loop. -/
structure Iteration where
  /-- the int32 `snd_pcm_readi` is read into -/
  nframe : Int
  prepare : Int
  start : Int
  /-- `speex_resampler_process_int` -/
  result : Int
  /-- `outFrame` after it -/
  outFrame : Nat
  writeFully : Int

/-- After the inner loop. -/
def State.endSession (s : State) : State :=
  { s.releaseStream.stop with control := .accepting }

/-- How many bytes the device writes for that many frames. -/
def RecordHandle.frameBytes (alsa : Alsa) (h : RecordHandle) (frames : Nat) : Nat :=
  frames * (h.channels * (alsa.physicalWidth h.sampleFormat / 8))

/-- `if (mSpeexPreprocesser)`: denoise. -/
def State.preprocess (s : State) : State :=
  match s.mSpeexPreprocesser with
  | some p => s.touch .preprocessRun (2 * p.frameSize) s.mReadBuffer
  | none => s

/-- `outFrame` before the call of `speex_resampler_process_int`. -/
def State.room (s : State) (h : RecordHandle) : Nat := uint32 (s.speexOutBuffer / h.sampleBytes)

/-- `if (nframe > 0)`: a period of `nframe` frames is in `mReadBuffer`. -/
def State.deliver (s : State) (h : RecordHandle) (i : Iteration) : State :=
  let s := s.preprocess
  let inFrame := i.nframe.toNat
  let outFrame := s.room h
  match s.mSpeexResampler with
  | some _ =>
    let s := s.touch .resamplerInput (2 * inFrame) s.mReadBuffer
    let s := s.touch .resamplerOutput (2 * outFrame) s.speexOutBuffer
    if i.result = 0 then
      let s := s.touch .writeResampled (sizeT (i.outFrame * h.sampleBytes)) s.speexOutBuffer
      if i.writeFully < 0 then s.endSession else { s with count := 0 }
    else { s with count := 0 }
  | none =>
    let s := s.touch .writeRead (sizeT (i.nframe.toNat * h.sampleBytes)) s.mReadBuffer
    if i.writeFully < 0 then s.endSession else { s with count := 0 }

/-- `else`: nothing was read. -/
def State.retry (s : State) : State :=
  let s' := { s with count := s.count + 1 }
  if s.count = READ_TRY_TIMES then s'.endSession else s'

def State.iterate (alsa : Alsa) (s : State) (h : RecordHandle) (i : Iteration) : State :=
  let s := s.pcm [.sndPcmReadi h.pcm h.periodSize]
  let s := s.touch .readi (h.frameBytes alsa h.periodSize) s.mReadBuffer
  if i.nframe = -EAGAIN then (s.pcm [.sndPcmWait h.pcm]).retry
  else if i.nframe = -EPIPE then
    let s := s.pcm [.sndPcmPrepare h.pcm]
    if i.prepare < 0 then s.endSession
    else
      let s := s.pcm [.sndPcmStart h.pcm]
      if i.start < 0 then s.endSession else s.retry
  else if i.nframe = 0 then s.retry
  else if i.nframe < 0 then s.endSession
  else s.deliver h i

inductive Action
  /-- `listens`: the socket path is not empty and `listen` succeeds -/
  | initData (listens : Bool)
  | connect (c : Connection)
  | iterate (i : Iteration)
  /-- `~RecordingWorker` -/
  | destruct

def step (alsa : Alsa) (s : State) : Action → Option State
  | .initData listens =>
    if s.control = .idle then
      some { s with control := if listens then .accepting else .left }
    else none
  | .connect c => if s.control = .accepting then some (s.connect alsa c) else none
  | .iterate i =>
    if s.control = .streaming then s.mRecoder.map fun h => s.iterate alsa h i else none
  | .destruct =>
    if s.control = .destroyed then none
    else some { s.stop.destroyResampler.destroyRecorder with control := .destroyed }

/-! ## A device and a run -/

/-- A device that accepts every parameter. -/
def microphone (handle : Nat) : Device where
  hwParamsMalloc := 0
  sndPcmOpen := some handle
  hwParamsAny := 0
  setAccess := 0
  testClientFormat := 0
  testFormat := fun _ => 0
  setFormat := 0
  setChannels := 0
  setRateNear := 0
  rate := 48000
  setPeriodSizeNear := 0
  periodSize := 1920
  setBufferSizeNear := 0
  bufferSize := 15360
  hwParams := 0
  sndPcmStart := 0

/-- A client that records one period at a third of the device's rate, and one
that gives up. -/
def recordRun : List Action :=
  [.initData true,
    .connect ⟨true, true, RECORDING, true, 16000, microphone 7, true, true, 0⟩,
    .iterate ⟨1920, 0, 0, 0, 640, 0⟩,
    .iterate ⟨-5, 0, 0, 0, 0, 0⟩,
    .connect ⟨true, false, 0, false, 0, microphone 8, true, true, 0⟩]

end KmreManager.Audio.RecordingWorker
