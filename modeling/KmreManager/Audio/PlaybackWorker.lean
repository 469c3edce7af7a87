import KmreManager.Audio.Alsa

/-! # PlaybackWorker

audio/playbackworker.cpp. `initData` opens the device and enters `start`, whose
outer loop accepts one client at a time and whose inner loop copies what the
client sends to the device. One action is one turn of either loop, with the
answers the turn gets from the socket and from ALSA. -/
namespace KmreManager.Audio.PlaybackWorker

open Lib.Runs Lib.Ownership

def PLAYBACK : Int := 0
def PLAYBACK_BUF_SIZE : Nat := 3840

def defaultSampleRate : Nat := 48000
def defaultNumChannels : Nat := 2

/-- playback_handle_t; `new playback_handle_t()` clears it. -/
structure PlaybackHandle where
  pcm : Handle := none
  channels : Nat := 0
  sampleRate : Nat := 0
  sampleFormat : Format := .S8
  bitsPerSample : Nat := 0
  sampleBytes : Nat := 0
deriving DecidableEq

/-- What ALSA answers during one `initPlayback`. -/
structure Device where
  sndPcmOpen : Option Nat
  hwParamsAny : Int
  setAccess : Int
  setFormat : Int
  setChannels : Int
  setRateNear : Int
  rate : Nat
  setBufferSizeNear : Int
  setPeriodSizeNear : Int
  hwParams : Int
  setAvailMin : Int
  setStartThreshold : Int
  setStopThreshold : Int
  swParams : Int

inductive Control
  /-- before `initData` -/
  | idle
  /-- about to call `accept` -/
  | accepting
  /-- in the inner loop -/
  | streaming
  /-- `start` has left its loop, or was never called -/
  | left
  /-- the worker is destroyed -/
  | destroyed
deriving DecidableEq

structure State where
  mPlayback : Option PlaybackHandle := none
  mStream : Option Nat := none
  mExit : Bool := false
  control : Control := .idle
  /-- how many streams `accept` has returned -/
  accepted : Nat := 0
  pcmCalls : List PcmCall := []
  streamCalls : List StreamCall := []
deriving DecidableEq

/-- The worker has made these PCM calls. -/
def State.pcm (s : State) (calls : List PcmCall) : State :=
  { s with pcmCalls := s.pcmCalls ++ calls }

/-- The `do { .. } while(0)` of `initPlayback`; `none` is a `break`. -/
def Device.negotiate (alsa : Alsa) (d : Device) (h : PlaybackHandle) : Option PlaybackHandle := do
  guard (0 ≤ d.hwParamsAny)
  guard (0 ≤ d.setAccess)
  guard (0 ≤ d.setFormat)
  guard (0 ≤ d.setChannels)
  guard (0 ≤ d.setRateNear)
  let h := { h with sampleRate := d.rate }
  let h := { h with bitsPerSample := alsa.physicalWidth h.sampleFormat }
  let h := { h with sampleBytes := h.bitsPerSample * h.channels / 8 }
  guard (0 ≤ d.setBufferSizeNear)
  guard (0 ≤ d.setPeriodSizeNear)
  guard (0 ≤ d.hwParams)
  guard (0 ≤ d.setAvailMin)
  guard (0 ≤ d.setStartThreshold)
  guard (0 ≤ d.setStopThreshold)
  guard (0 ≤ d.swParams)
  return h

/-- Fills the record `h` that `mPlayback` points to. On a `break` the fields the
negotiation has written so far are not kept: both callers delete the record. -/
def State.initPlayback (alsa : Alsa) (d : Device) (s : State) (h : PlaybackHandle) :
    Bool × State :=
  match d.sndPcmOpen with
  | none => (false, { s with mPlayback := some h }.pcm [.sndPcmOpen h.pcm none])
  | some pcm =>
    let s := s.pcm [.sndPcmOpen h.pcm (some pcm)]
    let h := { h with pcm := some pcm }
    match d.negotiate alsa h with
    | some h => (true, { s with mPlayback := some h })
    | none => (false, { s with mPlayback := some h }.pcm [.sndPcmClose h.pcm])

def State.destroyPlayback (s : State) : State :=
  match s.mPlayback with
  | some h =>
    { s with mPlayback := none }.pcm
      [.sndPcmDrop h.pcm, .sndPcmClose h.pcm, .deleteRecord h.pcm]
  | none => s

def State.stop (s : State) : State := s.destroyPlayback

/-- `if (!mPlayback)`: what `createPlayback` and a PLAYBACK session both do. -/
def State.createPlayback (alsa : Alsa) (d : Device) (s : State) : Bool × State :=
  match s.mPlayback with
  | some _ => (true, s)
  | none =>
    match s.initPlayback alsa d
      { sampleRate := defaultSampleRate, sampleFormat := .S16_LE,
        channels := defaultNumChannels } with
    | (true, s) => (true, s)
    | (false, s) => (false, s.destroyPlayback)

/-- `forceStop`, `delete`, and the member set to null. -/
def State.releaseStream (s : State) : State :=
  match s.mStream with
  | some k =>
    { s with mStream := none, streamCalls := s.streamCalls ++ [.forceStop k, .delete k] }
  | none => s

/-- One turn of the outer loop up to the inner one. -/
structure Connection where
  /-- `accept` returned a stream -/
  accepts : Bool
  /-- `readFully` of the client's type -/
  typeRead : Bool
  type : Int
  device : Device

/-- `m_stream = mListenSock->accept()` returned a stream. -/
def State.accept (s : State) : State :=
  { s with mStream := some s.accepted, accepted := s.accepted + 1,
           streamCalls := s.streamCalls ++ [.accept s.accepted] }

def State.connect (alsa : Alsa) (s : State) (c : Connection) : State :=
  if !c.accepts then
    let s := { s with mStream := none }
    if s.mExit then { s with control := .left } else s
  else
    let s := s.accept
    if !c.typeRead then
      if s.mExit then { s with control := .left } else s.releaseStream
    else if c.type = PLAYBACK then
      match s.createPlayback alsa c.device with
      | (true, s) => { s with control := .streaming }
      | (false, s) => s
    else s.releaseStream

/-- One turn of the inner loop. -/
structure Iteration where
  /-- `readFully` of a buffer of the client's data -/
  read : Bool
  /-- `snd_pcm_writei` -/
  writei : Int
  prepare : Int
  /-- how often `snd_pcm_resume` answers -EAGAIN before `resume` -/
  retries : Nat
  resume : {err : Int // err ≠ -EAGAIN}

/-- After the inner loop. -/
def State.endSession (s : State) : State :=
  if s.mExit then { s with control := .left }
  else { s.releaseStream.stop with control := .accepting }

def State.iterate (s : State) (h : PlaybackHandle) (i : Iteration) : State :=
  if !i.read then s.endSession
  else
    let frames := PLAYBACK_BUF_SIZE / h.sampleBytes
    let s := s.pcm [.sndPcmWritei h.pcm frames]
    -- snd_pcm_uframes_t wc
    let wc := BitVec.ofInt 64 i.writei
    if wc = BitVec.ofInt 64 (-EPIPE) then
      let s := s.pcm [.sndPcmPrepare h.pcm]
      if i.prepare < 0 then s.endSession else s.pcm [.sndPcmWritei h.pcm frames]
    else if wc = BitVec.ofInt 64 (-ESTRPIPE) then
      let s := s.pcm (List.replicate (i.retries + 1) (.sndPcmResume h.pcm))
      if i.resume.val < 0 then
        let s := s.pcm [.sndPcmPrepare h.pcm]
        if i.prepare < 0 then s.endSession else s
      else s
    -- wc is unsigned, so that a failed write is taken for a short one
    else if wc < 0 then s.endSession
    else s

inductive Action
  /-- `listens`: the socket path is not empty and `listen` succeeds -/
  | initData (device : Device) (listens : Bool)
  /-- Called on another thread; that it also stops the sockets shows in what
  the next turn's `accept` and `readFully` answer. -/
  | exitPlayback
  | connect (c : Connection)
  | iterate (i : Iteration)
  /-- `~PlaybackWorker` -/
  | destruct

def step (alsa : Alsa) (s : State) : Action → Option State
  | .initData d listens =>
    if s.control = .idle then
      match s.createPlayback alsa d with
      | (true, s) => some { s with control := if listens then .accepting else .left }
      | (false, s) => some { s with control := .left }
    else none
  | .exitPlayback => some { s with mExit := true }
  | .connect c => if s.control = .accepting then some (s.connect alsa c) else none
  | .iterate i =>
    if s.control = .streaming then s.mPlayback.map fun h => s.iterate h i else none
  | .destruct =>
    if s.control = .destroyed then none else some { s.stop with control := .destroyed }

/-! ## What the ends of a session leave -/

section Frame

variable {s : State}

@[simp] theorem releaseStream_pcmCalls : s.releaseStream.pcmCalls = s.pcmCalls := by
  unfold State.releaseStream
  split <;> rfl

@[simp] theorem releaseStream_mPlayback : s.releaseStream.mPlayback = s.mPlayback := by
  unfold State.releaseStream
  split <;> rfl

@[simp] theorem releaseStream_control : s.releaseStream.control = s.control := by
  unfold State.releaseStream
  split <;> rfl

@[simp] theorem releaseStream_mExit : s.releaseStream.mExit = s.mExit := by
  unfold State.releaseStream
  split <;> rfl

@[simp] theorem releaseStream_accepted : s.releaseStream.accepted = s.accepted := by
  unfold State.releaseStream
  split <;> rfl

@[simp] theorem releaseStream_mStream : s.releaseStream.mStream = none := by
  unfold State.releaseStream
  split
  · rfl
  · assumption

theorem stop_mPlayback : s.stop.mPlayback = none := by
  unfold State.stop State.destroyPlayback
  split
  · rfl
  · assumption

/-- `destroyPlayback` leaves the streams alone. -/
theorem stop_frame (s : State) :
    s.stop.mStream = s.mStream ∧ s.stop.mExit = s.mExit ∧ s.stop.accepted = s.accepted ∧
      s.stop.streamCalls = s.streamCalls := by
  unfold State.stop State.destroyPlayback
  split <;> exact ⟨rfl, rfl, rfl, rfl⟩

theorem endSession_control (s : State) :
    s.endSession.control = .left ∨ s.endSession.control = .accepting := by
  unfold State.endSession
  split
  · exact .inl rfl
  · exact .inr rfl

end Frame

/-! ## What the initialisation leaves -/

section Init

variable {alsa : Alsa} {d : Device} {s : State}

/-- Every call of the negotiation succeeds. -/
def Device.Negotiates (d : Device) : Prop :=
  0 ≤ d.hwParamsAny ∧ 0 ≤ d.setAccess ∧ 0 ≤ d.setFormat ∧ 0 ≤ d.setChannels ∧
    0 ≤ d.setRateNear ∧ 0 ≤ d.setBufferSizeNear ∧ 0 ≤ d.setPeriodSizeNear ∧ 0 ≤ d.hwParams ∧
    0 ≤ d.setAvailMin ∧ 0 ≤ d.setStartThreshold ∧ 0 ≤ d.setStopThreshold ∧ 0 ≤ d.swParams

/-- Every ALSA call of `initPlayback` succeeds. -/
def Device.Works (d : Device) : Prop :=
  d.sndPcmOpen.isSome ∧ d.Negotiates

instance (d : Device) : Decidable d.Works := by
  unfold Device.Works Device.Negotiates
  infer_instance

/-- What a negotiation that succeeds makes of the record `h`. -/
def Device.granted (alsa : Alsa) (d : Device) (h : PlaybackHandle) : PlaybackHandle :=
  { h with sampleRate := d.rate, bitsPerSample := alsa.physicalWidth h.sampleFormat,
           sampleBytes := alsa.physicalWidth h.sampleFormat * h.channels / 8 }

theorem Device.negotiate_eq_some {h h' : PlaybackHandle} :
    d.negotiate alsa h = some h' ↔ d.Negotiates ∧ d.granted alsa h = h' := by
  simp [Device.negotiate, Device.Negotiates, Device.granted, guard, Option.bind_eq_some_iff,
    and_assoc]

theorem Device.negotiate_eq_none {h : PlaybackHandle} (hd : ¬ d.Negotiates) :
    d.negotiate alsa h = none := by
  cases hn : d.negotiate alsa h with
  | none => rfl
  | some h' => exact absurd (negotiate_eq_some.mp hn).1 hd

theorem State.createPlayback_some {h : PlaybackHandle} (hs : s.mPlayback = some h) :
    s.createPlayback alsa d = (true, s) := by
  simp only [State.createPlayback, hs]

/-- A device that works is opened, and the record holds its handle. -/
theorem State.createPlayback_of_works (alsa : Alsa) (hs : s.mPlayback = none) (hd : d.Works) :
    ∃ h pcm, h.pcm = some pcm ∧ s.createPlayback alsa d =
      (true, { s with mPlayback := some h }.pcm [.sndPcmOpen none (some pcm)]) := by
  obtain ⟨hopen, hneg⟩ := hd
  obtain ⟨pcm, hpcm⟩ := Option.isSome_iff_exists.mp hopen
  let fresh : PlaybackHandle :=
    { pcm := some pcm, sampleRate := defaultSampleRate, sampleFormat := .S16_LE,
      channels := defaultNumChannels }
  refine ⟨d.granted alsa fresh, pcm, rfl, ?_⟩
  have hgranted : d.negotiate alsa fresh = some (d.granted alsa fresh) :=
    Device.negotiate_eq_some.mpr ⟨hneg, rfl⟩
  simp only [State.createPlayback, hs, State.initPlayback, hpcm]
  rw [hgranted]
  rfl

/-- A device that fails is cleaned up by calls on a handle that is not open. -/
theorem State.createPlayback_of_fails (alsa : Alsa) (hs : s.mPlayback = none) (hd : ¬ d.Works) :
    ∃ calls, run check ∅ (effects calls) = none ∧
      s.createPlayback alsa d = (false, s.pcm calls) := by
  cases hopen : d.sndPcmOpen with
  | none =>
    refine ⟨[.sndPcmOpen none none, .sndPcmDrop none, .sndPcmClose none, .deleteRecord none],
      rfl, ?_⟩
    simp [State.createPlayback, hs, State.initPlayback, hopen, State.destroyPlayback, State.pcm]
  | some pcm =>
    have hneg : ¬ d.Negotiates := fun hneg => hd ⟨by simp [hopen], hneg⟩
    refine ⟨[.sndPcmOpen none (some pcm), .sndPcmClose (some pcm), .sndPcmDrop (some pcm),
      .sndPcmClose (some pcm), .deleteRecord (some pcm)], ?_, ?_⟩
    · simp [effects, PcmCall.effect, run, check]
    · simp [State.createPlayback, hs, State.initPlayback, hopen, Device.negotiate_eq_none hneg,
        State.destroyPlayback, State.pcm]

/-- `createPlayback` leaves the streams alone. -/
theorem State.createPlayback_frame (alsa : Alsa) (s : State) (d : Device) :
    (s.createPlayback alsa d).2.mStream = s.mStream ∧
      (s.createPlayback alsa d).2.mExit = s.mExit ∧
      (s.createPlayback alsa d).2.accepted = s.accepted ∧
      (s.createPlayback alsa d).2.streamCalls = s.streamCalls ∧
      (s.createPlayback alsa d).2.control = s.control := by
  cases hp : s.mPlayback with
  | some h =>
    rw [State.createPlayback_some hp]
    exact ⟨rfl, rfl, rfl, rfl, rfl⟩
  | none =>
    by_cases hd : d.Works
    · obtain ⟨h, pcm, -, heq⟩ := State.createPlayback_of_works alsa hp hd
      rw [heq]
      exact ⟨rfl, rfl, rfl, rfl, rfl⟩
    · obtain ⟨calls, -, heq⟩ := State.createPlayback_of_fails alsa hp hd
      rw [heq]
      exact ⟨rfl, rfl, rfl, rfl, rfl⟩

end Init

/-! ## What a step does -/

section Step

variable {alsa : Alsa} {s s' : State} {a : Action} {c : Connection}

/-- The client is one that plays. -/
def Connection.Plays (c : Connection) : Prop :=
  c.accepts = true ∧ c.typeRead = true ∧ c.type = PLAYBACK

/-- **What a connection does**: no stream is accepted, the loop is left with the
stream, the stream is released, or the device is opened or fails to. -/
theorem connect_cases (alsa : Alsa) (s : State) (c : Connection) :
    (c.accepts = false ∧ s.connect alsa c =
      { s with mStream := none, control := if s.mExit then .left else s.control }) ∨
    (c.accepts = true ∧ c.typeRead = false ∧ s.mExit = true ∧
      s.connect alsa c = { s.accept with control := .left }) ∨
    (c.accepts = true ∧ ¬ c.Plays ∧ (c.typeRead = false → s.mExit = false) ∧
      s.connect alsa c = s.accept.releaseStream) ∨
    (c.Plays ∧ ∃ t, s.accept.createPlayback alsa c.device = (true, t) ∧
      s.connect alsa c = { t with control := .streaming }) ∨
    (c.Plays ∧ ∃ t, s.accept.createPlayback alsa c.device = (false, t) ∧
      s.connect alsa c = t) := by
  unfold State.connect
  cases ha : c.accepts with
  | false =>
    refine .inl ⟨rfl, ?_⟩
    cases s.mExit <;> simp
  | true =>
    cases hr : c.typeRead with
    | false =>
      cases hexit : s.mExit with
      | true => exact .inr (.inl ⟨rfl, rfl, rfl, by simp [State.accept, hexit]⟩)
      | false =>
        refine .inr (.inr (.inl ⟨rfl, fun hplays => ?_, fun _ => rfl, ?_⟩))
        · simp [Connection.Plays, hr] at hplays
        · simp [State.accept, hexit]
    | true =>
      by_cases ht : c.type = PLAYBACK
      · have hplays : c.Plays := ⟨ha, hr, ht⟩
        rcases hcreate : s.accept.createPlayback alsa c.device with ⟨ok, t⟩
        cases ok with
        | true => exact .inr (.inr (.inr (.inl ⟨hplays, t, rfl, by simp [ht, hcreate]⟩)))
        | false => exact .inr (.inr (.inr (.inr ⟨hplays, t, rfl, by simp [ht, hcreate]⟩)))
      · refine .inr (.inr (.inl ⟨rfl, fun hplays => ht hplays.2.2, ?_, by simp [ht]⟩))
        intro hcontra
        cases hcontra

/-- What each action does, and where it can be taken. -/
theorem step_cases (hstep : step alsa s a = some s') :
    (∃ d listens ok t, a = .initData d listens ∧ s.control = .idle ∧
      s.createPlayback alsa d = (ok, t) ∧
      s' = { t with control := if ok && listens then .accepting else .left }) ∨
    (a = .exitPlayback ∧ s' = { s with mExit := true }) ∨
    (∃ c, a = .connect c ∧ s.control = .accepting ∧ s' = s.connect alsa c) ∨
    (∃ i h, a = .iterate i ∧ s.control = .streaming ∧ s.mPlayback = some h ∧
      s' = s.iterate h i) ∨
    (a = .destruct ∧ s' = { s.stop with control := .destroyed }) := by
  cases a with
  | initData d listens =>
    obtain ⟨hidle, heq⟩ := Option.ite_none_right_eq_some.mp hstep
    rcases hcreate : s.createPlayback alsa d with ⟨ok, t⟩
    rw [hcreate] at heq
    refine .inl ⟨d, listens, ok, t, rfl, hidle, hcreate, ?_⟩
    cases ok <;> exact (Option.some.inj heq).symm
  | exitPlayback => exact .inr (.inl ⟨rfl, (Option.some.inj hstep).symm⟩)
  | connect c =>
    obtain ⟨hacc, heq⟩ := Option.ite_none_right_eq_some.mp hstep
    exact .inr (.inr (.inl ⟨c, rfl, hacc, (Option.some.inj heq).symm⟩))
  | iterate i =>
    obtain ⟨hstr, heq⟩ := Option.ite_none_right_eq_some.mp hstep
    obtain ⟨h, hh, rfl⟩ := Option.map_eq_some_iff.mp heq
    exact .inr (.inr (.inr (.inl ⟨i, h, rfl, hstr, hh, rfl⟩)))
  | destruct =>
    obtain ⟨-, heq⟩ := Option.ite_none_left_eq_some.mp hstep
    exact .inr (.inr (.inr (.inr ⟨rfl, (Option.some.inj heq).symm⟩)))

end Step

/-! ## What a turn of the inner loop does -/

/-- The turn leaves the inner loop. -/
def Iteration.Breaks (i : Iteration) : Prop :=
  i.read = false ∨
  (BitVec.ofInt 64 i.writei = BitVec.ofInt 64 (-EPIPE) ∧ i.prepare < 0) ∨
  (BitVec.ofInt 64 i.writei = BitVec.ofInt 64 (-ESTRPIPE) ∧ i.resume.val < 0 ∧ i.prepare < 0)

instance (i : Iteration) : Decidable i.Breaks := by
  unfold Iteration.Breaks
  infer_instance

/-- A turn makes calls on the open handle, and ends the session if it breaks. -/
theorem State.iterate_eq (s : State) (h : PlaybackHandle) (i : Iteration) :
    ∃ calls, (∀ c ∈ calls, c.effect = [.use h.pcm]) ∧
      s.iterate h i = if i.Breaks then (s.pcm calls).endSession else s.pcm calls := by
  by_cases hr : i.read
  swap
  · exact ⟨[], by simp, by simp [State.iterate, Iteration.Breaks, hr, State.pcm]⟩
  let write : PcmCall := .sndPcmWritei h.pcm (PLAYBACK_BUF_SIZE / h.sampleBytes)
  by_cases hpipe : BitVec.ofInt 64 i.writei = BitVec.ofInt 64 (-EPIPE)
  · have hstr : ¬ BitVec.ofInt 64 (-EPIPE) = BitVec.ofInt 64 (-ESTRPIPE) := by decide
    by_cases hprep : i.prepare < 0
    · refine ⟨[write, .sndPcmPrepare h.pcm], by simp [write, PcmCall.effect], ?_⟩
      simp [State.iterate, Iteration.Breaks, hr, hpipe, hprep, State.pcm, write]
    · refine ⟨[write, .sndPcmPrepare h.pcm, write], by simp [write, PcmCall.effect], ?_⟩
      simp [State.iterate, Iteration.Breaks, hr, hpipe, hprep, hstr, State.pcm, write]
  by_cases hstr : BitVec.ofInt 64 i.writei = BitVec.ofInt 64 (-ESTRPIPE)
  · let resumes : List PcmCall := List.replicate (i.retries + 1) (.sndPcmResume h.pcm)
    have hresumes : ∀ c ∈ resumes, c.effect = [.use h.pcm] := by
      intro c hc
      rw [List.eq_of_mem_replicate hc]
      rfl
    have hpipe' : ¬ BitVec.ofInt 64 (-ESTRPIPE) = BitVec.ofInt 64 (-EPIPE) := by decide
    by_cases hres : i.resume.val < 0
    · refine ⟨write :: resumes ++ [.sndPcmPrepare h.pcm], ?_, ?_⟩
      · simp only [List.mem_append, List.mem_cons, List.not_mem_nil, or_false]
        rintro c ((rfl | hc) | rfl)
        · rfl
        · exact hresumes c hc
        · rfl
      · by_cases hprep : i.prepare < 0 <;>
          simp [State.iterate, Iteration.Breaks, hr, hstr, hpipe', hres, hprep, State.pcm, write,
            resumes]
    · refine ⟨write :: resumes, ?_, ?_⟩
      · exact List.forall_mem_cons.mpr ⟨rfl, hresumes⟩
      · simp [State.iterate, Iteration.Breaks, hr, hstr, hpipe', hres, State.pcm, write, resumes]
  · -- the test `wc < 0` on an unsigned number
    have hneg : ¬ BitVec.ofInt 64 i.writei < 0 := BitVec.not_lt_zero
    refine ⟨[write], by simp [write, PcmCall.effect], ?_⟩
    simp only [State.iterate, Iteration.Breaks, hr, hpipe, hstr, hneg]
    simp [State.pcm, write]

/-! ## Devices and a run -/

/-- A device that accepts every parameter. -/
def speaker (handle : Nat) : Device where
  sndPcmOpen := some handle
  hwParamsAny := 0
  setAccess := 0
  setFormat := 0
  setChannels := 0
  setRateNear := 0
  rate := 48000
  setBufferSizeNear := 0
  setPeriodSizeNear := 0
  hwParams := 0
  setAvailMin := 0
  setStartThreshold := 0
  setStopThreshold := 0
  swParams := 0

/-- A device that opens, and rejects two channels. -/
def monoSpeaker (handle : Nat) : Device :=
  { speaker handle with setChannels := -22 }

/-- A client of an unknown type, and one that plays two buffers, the second
after an underrun. -/
def playRun : List Action :=
  [.initData (speaker 7) true,
    .connect ⟨true, true, 5, speaker 8⟩,
    .connect ⟨true, true, PLAYBACK, speaker 8⟩,
    .iterate ⟨true, 960, 0, 0, ⟨0, by decide⟩⟩,
    .iterate ⟨true, -EPIPE, 0, 0, ⟨0, by decide⟩⟩,
    .iterate ⟨false, 0, 0, 0, ⟨0, by decide⟩⟩,
    .connect ⟨false, false, 0, speaker 8⟩]

end KmreManager.Audio.PlaybackWorker
