import KmreManager.Lib.BlockWrites
import KmreManager.Audio.PlaybackWorker
import Mathlib.Algebra.Group.Int.Defs

/-! # The chunks of a playback session

`PlaybackWorker` takes of a turn of the inner loop what decides how the loop
goes on. Here a turn also has the chunk that it reads and both results of
`snd_pcm_writei`, of which the second, after an underrun, is not looked at.
`Stream` is the worker beside what its session has read and written. -/
namespace KmreManager.Audio.PlaybackWorker

open Lib.Runs Lib.BlockWrites

/-! ## The branches after `snd_pcm_writei` -/

inductive Branch
  | underrun
  | suspended
  | deviceError
  | shortWrite
  | complete
deriving DecidableEq

/-- The branch that is taken: the result is kept in the unsigned `wc`, and the
constants are converted to its type. -/
def branch (writei : Int) (frames : Nat) : Branch :=
  let wc := BitVec.ofInt 64 writei
  if wc = BitVec.ofInt 64 (-EPIPE) then .underrun
  else if wc = BitVec.ofInt 64 (-ESTRPIPE) then .suspended
  else if wc < 0 then .deviceError
  else if wc ≠ BitVec.ofNat 64 frames then .shortWrite
  else .complete

/-- What the branch does. -/
def State.follow (s : State) (h : PlaybackHandle) (i : Iteration) : Branch → State
  | .underrun =>
    let s := s.pcm [.sndPcmPrepare h.pcm]
    if i.prepare < 0 then s.endSession
    else s.pcm [.sndPcmWritei h.pcm (PLAYBACK_BUF_SIZE / h.sampleBytes)]
  | .suspended =>
    let s := s.pcm (List.replicate (i.retries + 1) (.sndPcmResume h.pcm))
    if i.resume.val < 0 then
      let s := s.pcm [.sndPcmPrepare h.pcm]
      if i.prepare < 0 then s.endSession else s
    else s
  | .deviceError => s.endSession
  | .shortWrite | .complete => s

/-- A value of `snd_pcm_sframes_t`. -/
def Sframes (n : Int) : Prop := -2 ^ 63 ≤ n ∧ n < 2 ^ 63

instance (n : Int) : Decidable (Sframes n) := inferInstanceAs (Decidable (_ ∧ _))

section Branch

variable {s : State} {h : PlaybackHandle} {i : Iteration} {n : Int}

/-- A turn in which the client's data is read follows the branch taken. -/
theorem iterate_eq_follow (hread : i.read = true) :
    s.iterate h i = (s.pcm [.sndPcmWritei h.pcm (PLAYBACK_BUF_SIZE / h.sampleBytes)]).follow h i
      (branch i.writei (PLAYBACK_BUF_SIZE / h.sampleBytes)) := by
  unfold State.iterate branch
  simp only [hread, Bool.not_true, Bool.false_eq_true, if_false]
  split
  · rfl
  split
  · rfl
  split
  · rfl
  split <;> rfl

/-- Within its range, the result is as good unsigned as it is signed for a
comparison with a constant. -/
theorem ofInt_eq_ofInt_iff {m : Int} (hn : Sframes n) (hm : Sframes m) :
    BitVec.ofInt 64 n = BitVec.ofInt 64 m ↔ n = m := by
  obtain ⟨hn, hn'⟩ := hn
  obtain ⟨hm, hm'⟩ := hm
  constructor
  · intro heq
    have htoInt := congrArg BitVec.toInt heq
    rwa [BitVec.toInt_ofInt, BitVec.toInt_ofInt, Int.bmod_eq_of_le (by omega) (by omega),
      Int.bmod_eq_of_le (by omega) (by omega)] at htoInt
  · exact congrArg _

theorem ofInt_eq_EPIPE (hn : Sframes n) :
    BitVec.ofInt 64 n = BitVec.ofInt 64 (-EPIPE) ↔ n = -EPIPE :=
  ofInt_eq_ofInt_iff hn (by decide)

theorem ofInt_eq_ESTRPIPE (hn : Sframes n) :
    BitVec.ofInt 64 n = BitVec.ofInt 64 (-ESTRPIPE) ↔ n = -ESTRPIPE :=
  ofInt_eq_ofInt_iff hn (by decide)

/-- **The test `wc < 0` never holds**: the branch for device errors is dead. -/
theorem branch_ne_deviceError (n : Int) (frames : Nat) : branch n frames ≠ .deviceError := by
  have hneg : ¬ BitVec.ofInt 64 n < 0 := BitVec.not_lt_zero
  unfold branch
  simp only [hneg, if_false]
  split
  · simp
  split
  · simp
  split <;> simp

theorem branch_eq_underrun (hn : Sframes n) (frames : Nat) :
    branch n frames = .underrun ↔ n = -EPIPE := by
  rw [← ofInt_eq_EPIPE hn]
  unfold branch
  dsimp only
  split
  next heq => exact iff_of_true rfl heq
  next hne => exact iff_of_false (by repeat' split <;> simp) hne

theorem branch_eq_suspended (hn : Sframes n) (frames : Nat) :
    branch n frames = .suspended ↔ n = -ESTRPIPE := by
  have hdiff : BitVec.ofInt 64 (-ESTRPIPE) ≠ BitVec.ofInt 64 (-EPIPE) := by decide
  rw [← ofInt_eq_ESTRPIPE hn]
  unfold branch
  dsimp only
  split
  next heq => exact iff_of_false (by simp) fun hstr => hdiff (hstr.symm.trans heq)
  split
  next heq => exact iff_of_true rfl heq
  next hne => exact iff_of_false (by repeat' split <;> simp) hne

end Branch

/-! ## Turns -/

/-- One turn of the inner loop. -/
structure Turn extends Iteration where
  sframes : Sframes writei
  /-- what `readFully` has put into `mPlaybackBuffer` -/
  chunk : {data : List UInt8 // data.length = PLAYBACK_BUF_SIZE}
  /-- the `snd_pcm_writei` that follows `snd_pcm_prepare` -/
  rewrite : Int

def isWritei : PcmCall → Bool
  | .sndPcmWritei _ _ => true
  | _ => false

/-- The calls of `snd_pcm_writei`. -/
def State.writeis (s : State) : List PcmCall := s.pcmCalls.filter isWritei

/-- What the calls of `snd_pcm_writei` have returned that lead from the worker
`s` to the worker `s'`. -/
def Turn.returned (turn : Turn) (s s' : State) : List Int :=
  [turn.writei, turn.rewrite].take (s'.writeis.length - s.writeis.length)

/-- Each call is handed the buffer, and accepts as many frames as it returns. -/
def Turn.writes (turn : Turn) (h : PlaybackHandle) (results : List Int) : List (Write UInt8) :=
  results.map fun n => ⟨turn.chunk.val, n.toNat * h.sampleBytes⟩

/-! ## The writes of a turn -/

section Writes

variable {s : State} {h : PlaybackHandle} {turn : Turn}

/-- What the calls of `snd_pcm_writei` in the turn return, from its answers alone. -/
def Turn.results (turn : Turn) : List Int :=
  if !turn.read then []
  else if turn.writei = -EPIPE ∧ 0 ≤ turn.prepare then [turn.writei, turn.rewrite]
  else [turn.writei]

@[simp] theorem pcm_writeis (s : State) (calls : List PcmCall) :
    (s.pcm calls).writeis = s.writeis ++ calls.filter isWritei :=
  List.filter_append _ _

@[simp] theorem filter_writei (pcm : Handle) (frames : Nat) :
    [PcmCall.sndPcmWritei pcm frames].filter isWritei = [.sndPcmWritei pcm frames] := rfl

@[simp] theorem filter_prepare (pcm : Handle) :
    [PcmCall.sndPcmPrepare pcm].filter isWritei = [] := rfl

@[simp] theorem filter_resumes (n : Nat) (pcm : Handle) :
    (List.replicate n (PcmCall.sndPcmResume pcm)).filter isWritei = [] := by
  simp [isWritei]

theorem endSession_writeis (s : State) : s.endSession.writeis = s.writeis := by
  have hstop (u : State) : u.stop.writeis = u.writeis := by
    unfold State.stop State.destroyPlayback
    split
    · rw [pcm_writeis]
      exact List.append_nil _
    · rfl
  unfold State.endSession
  split
  · rfl
  · refine (hstop s.releaseStream).trans ?_
    unfold State.writeis
    rw [releaseStream_pcmCalls]

/-- The turn makes a call for each of the results, with the whole buffer. -/
theorem iterate_writeis (s : State) (h : PlaybackHandle) (turn : Turn) :
    (s.iterate h turn.toIteration).writeis = s.writeis ++
      turn.results.map fun _ => .sndPcmWritei h.pcm (PLAYBACK_BUF_SIZE / h.sampleBytes) := by
  cases hread : turn.read with
  | false => simp [State.iterate, Turn.results, hread, endSession_writeis]
  | true =>
    have hpipe := branch_eq_underrun turn.sframes (PLAYBACK_BUF_SIZE / h.sampleBytes)
    rw [iterate_eq_follow hread]
    cases hbranch : branch turn.writei (PLAYBACK_BUF_SIZE / h.sampleBytes) with
    | underrun =>
      have hwritei := hpipe.mp hbranch
      by_cases hprepare : turn.prepare < 0
      · simp [State.follow, Turn.results, hread, hprepare, Int.not_le.mpr hprepare,
          endSession_writeis]
      · simp [State.follow, Turn.results, hread, hwritei, hprepare, Int.not_lt.mp hprepare]
    | suspended =>
      have hne : turn.writei ≠ -EPIPE := fun heq => by simp [hpipe.mpr heq] at hbranch
      by_cases hresume : turn.resume.val < 0
      · by_cases hprepare : turn.prepare < 0
        · simp [State.follow, Turn.results, hread, hne, hresume, hprepare, endSession_writeis]
        · simp [State.follow, Turn.results, hread, hne, hresume, hprepare]
      · simp [State.follow, Turn.results, hread, hne, hresume]
    | deviceError =>
      exact absurd hbranch (branch_ne_deviceError _ _)
    | shortWrite | complete =>
      have hne : turn.writei ≠ -EPIPE := fun heq => by simp [hpipe.mpr heq] at hbranch
      simp [State.follow, Turn.results, hread, hne]

theorem returned_iterate (s : State) (h : PlaybackHandle) (turn : Turn) :
    turn.returned s (s.iterate h turn.toIteration) = turn.results := by
  have hlength : (s.iterate h turn.toIteration).writeis.length - s.writeis.length =
      turn.results.length := by
    rw [iterate_writeis, List.length_append, List.length_map, Nat.add_sub_cancel_left]
  rw [Turn.returned, hlength, Turn.results]
  split
  · rfl
  · split <;> rfl

end Writes

/-! ## Sessions -/

inductive Event
  | initData (device : Device) (listens : Bool)
  | exitPlayback
  | connect (c : Connection)
  | iterate (turn : Turn)
  | destruct

def Event.action : Event → Action
  | .initData d listens => .initData d listens
  | .exitPlayback => .exitPlayback
  | .connect c => .connect c
  | .iterate turn => .iterate turn.toIteration
  | .destruct => .destruct

/-- The worker, the chunks it has read from its client, and its writes. -/
structure Stream where
  worker : State := {}
  received : List (List UInt8) := []
  writes : List (Write UInt8) := []

namespace Stream

/-- The stream after an event that leaves the worker in the state `worker`. -/
def after (t : Stream) (worker : State) : Event → Stream
  | .iterate turn =>
    { worker
      received := t.received ++ if turn.read then [turn.chunk.val] else []
      writes := t.writes ++
        t.worker.mPlayback.elim [] fun h => turn.writes h (turn.returned t.worker worker) }
  -- a new client
  | .connect _ => { worker }
  | .initData _ _ | .exitPlayback | .destruct => { t with worker }

def step (alsa : Alsa) (t : Stream) (e : Event) : Option Stream :=
  (PlaybackWorker.step alsa t.worker e.action).map fun worker => t.after worker e

variable {alsa : Alsa} {t t' : Stream} {e : Event} {turn : Turn} {events : List Event}

theorem after_worker (t : Stream) (worker : State) (e : Event) :
    (t.after worker e).worker = worker := by
  cases e <;> rfl

/-- The worker of a stream runs as it does alone. -/
theorem run_worker (alsa : Alsa) (t : Stream) (events : List Event) :
    (run (step alsa) t events).map worker =
      run (PlaybackWorker.step alsa) t.worker (events.map Event.action) := by
  rw [run_map]
  refine map_run _ worker (fun t e => ?_) t events
  rw [step, Option.map_map]
  cases PlaybackWorker.step alsa t.worker e.action with
  | none => rfl
  | some s => exact congrArg some (after_worker t s e)

/-- A turn of the inner loop. -/
theorem step_iterate (h : t.step alsa (.iterate turn) = some t') :
    ∃ handle, t.worker.control = .streaming ∧ t.worker.mPlayback = some handle ∧
      t' = { worker := t.worker.iterate handle turn.toIteration
             received := t.received ++ if turn.read then [turn.chunk.val] else []
             writes := t.writes ++ turn.writes handle turn.results } := by
  obtain ⟨s, hs, rfl⟩ := Option.map_eq_some_iff.mp h
  obtain ⟨hstreaming, hmap⟩ := Option.ite_none_right_eq_some.mp hs
  obtain ⟨handle, hhandle, rfl⟩ := Option.map_eq_some_iff.mp hmap
  refine ⟨handle, hstreaming, hhandle, ?_⟩
  simp only [after, hhandle, Option.elim_some, returned_iterate]

end Stream

section Breaks

variable {s : State} {h : PlaybackHandle} {i : Iteration}

/-- The loop is left when the client is gone, or when the device does not
recover. -/
theorem Turn.breaks_iff (turn : Turn) : turn.Breaks ↔
    turn.read = false ∨ (turn.writei = -EPIPE ∧ turn.prepare < 0) ∨
      (turn.writei = -ESTRPIPE ∧ turn.resume.val < 0 ∧ turn.prepare < 0) := by
  unfold Iteration.Breaks
  rw [ofInt_eq_EPIPE turn.sframes, ofInt_eq_ESTRPIPE turn.sframes]

/-- A turn stays in the loop unless it breaks. -/
theorem iterate_control (hs : s.control = .streaming) :
    (s.iterate h i).control = .streaming ↔ ¬ i.Breaks := by
  obtain ⟨calls, -, heq⟩ := s.iterate_eq h i
  rw [heq]
  split
  next hbreaks =>
    refine iff_of_false (fun hcontra => ?_) (not_not_intro hbreaks)
    obtain hleft | hleft := endSession_control (s.pcm calls)
    · rw [hleft] at hcontra
      cases hcontra
    · rw [hleft] at hcontra
      cases hcontra
  next hbreaks => exact iff_of_true hs hbreaks

end Breaks

/-! ## The size of a frame -/

section Negotiated

variable {alsa : Alsa} {s s' : State} {a : Action}

/-- The frames of the record are those of two channels of 16 bits. -/
def Negotiated (s : State) : Prop := ∀ h ∈ s.mPlayback, h.sampleBytes = 4

theorem Negotiated.of_none (hs : s.mPlayback = none) : Negotiated s := by
  intro h hh
  rw [hs] at hh
  cases hh

theorem Negotiated.createPlayback (hs : Negotiated s) (alsa : Alsa) (d : Device) :
    Negotiated (s.createPlayback alsa d).2 := by
  cases hp : s.mPlayback with
  | some h =>
    rw [State.createPlayback_some hp]
    exact hs
  | none =>
    simp only [State.createPlayback, hp, State.initPlayback]
    cases d.sndPcmOpen with
    | none => exact of_none rfl
    | some pcm =>
      dsimp only
      split
      next heq =>
        split at heq
        next hneg =>
          obtain ⟨-, rfl⟩ := Device.negotiate_eq_some.mp hneg
          cases heq
          rintro h ⟨⟩
          simp [Device.granted, alsa.physicalWidth_S16_LE, defaultNumChannels]
        next => cases heq
      next heq =>
        split at heq
        next => cases heq
        next =>
          cases heq
          exact of_none rfl

theorem Negotiated.endSession (hs : Negotiated s) : Negotiated s.endSession := by
  unfold State.endSession
  split
  · exact hs
  · exact of_none (stop_mPlayback (s := s.releaseStream))

theorem Negotiated.iterate (hs : Negotiated s) (h : PlaybackHandle) (i : Iteration) :
    Negotiated (s.iterate h i) := by
  obtain ⟨calls, -, heq⟩ := s.iterate_eq h i
  rw [heq]
  split
  · exact Negotiated.endSession (s := s.pcm calls) hs
  · exact hs

theorem Negotiated.connect (hs : Negotiated s) (alsa : Alsa) (c : Connection) :
    Negotiated (s.connect alsa c) := by
  have hcreated := Negotiated.createPlayback (s := s.accept) hs alsa c.device
  obtain ⟨-, heq⟩ | ⟨-, -, -, heq⟩ | ⟨-, -, -, heq⟩ | ⟨-, t, hcreate, heq⟩ | ⟨-, t, hcreate, heq⟩ :=
    connect_cases alsa s c
  · rw [heq]
    exact hs
  · rw [heq]
    exact hs
  · rw [heq]
    unfold Negotiated
    rw [releaseStream_mPlayback]
    exact hs
  · rw [hcreate] at hcreated
    rw [heq]
    exact hcreated
  · rw [hcreate] at hcreated
    rw [heq]
    exact hcreated

theorem Negotiated.step (hs : Negotiated s) (h : step alsa s a = some s') : Negotiated s' := by
  obtain ⟨d, listens, ok, t, -, -, hcreate, rfl⟩ | ⟨-, rfl⟩ | ⟨c, -, -, rfl⟩ |
    ⟨i, handle, -, -, -, rfl⟩ | ⟨-, rfl⟩ := step_cases h
  · have hcreated := hs.createPlayback alsa d
    rw [hcreate] at hcreated
    exact hcreated
  · exact hs
  · exact hs.connect alsa c
  · exact hs.iterate handle i
  · exact of_none stop_mPlayback

end Negotiated

/-! ## Turns for runs -/

theorem resumed : (0 : Int) ≠ -EAGAIN := by
  decide

/-- Silence is written, with these results. -/
def silence (writei prepare rewrite : Int) (sframes : Sframes writei) : Turn where
  read := true
  writei := writei
  prepare := prepare
  retries := 0
  resume := ⟨0, resumed⟩
  sframes := sframes
  chunk := ⟨List.replicate PLAYBACK_BUF_SIZE 0, List.length_replicate⟩
  rewrite := rewrite

/-- A client that has begun to play. -/
def started : List Event :=
  [.initData (speaker 7) true, .connect ⟨true, true, PLAYBACK, speaker 8⟩]

/-- It plays two buffers, the second after an underrun. -/
def twoChunks : List Event :=
  started ++ [.iterate (silence 960 0 0 (by decide)), .iterate (silence (-EPIPE) 0 960 (by decide))]

end KmreManager.Audio.PlaybackWorker
