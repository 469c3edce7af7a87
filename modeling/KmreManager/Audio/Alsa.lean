import KmreManager.Lib.Ownership

/-! # The libraries under the audio workers

What PlaybackWorker and RecordingWorker see of ALSA, and the calls they make on
PCM handles and on the client's SocketStream, in the order they make them. A
handle is what `snd_pcm_open` stored in the record, `none` for the null pointer
a fresh record holds. -/
namespace KmreManager.Audio

open Lib.Runs Lib.Ownership

/-- The two formats of `SampleFormats`. -/
inductive Format
  | S8
  | S16_LE
deriving DecidableEq

/-- The value of `snd_pcm_format_t`. -/
def Format.code : Format → Int
  | .S8 => 0
  | .S16_LE => 2

/-- The part of ALSA that does not depend on a device. -/
structure Alsa where
  physicalWidth : Format → Nat
  physicalWidth_S8 : physicalWidth .S8 = 8
  physicalWidth_S16_LE : physicalWidth .S16_LE = 16

/-- ALSA's own widths. -/
def alsaLib : Alsa where
  physicalWidth
    | .S8 => 8
    | .S16_LE => 16
  physicalWidth_S8 := rfl
  physicalWidth_S16_LE := rfl

/-- errno. -/
def EAGAIN : Int := 11
def EPIPE : Int := 32
def ESTRPIPE : Int := 86

/-- The pcm member of a record. -/
abbrev Handle := Option Nat

/-- The calls on PCM handles that come after the negotiation of parameters, and
what happens to the member that holds one. -/
inductive PcmCall
  /-- `snd_pcm_open` on a member that holds `old`; `new` is null if it fails. -/
  | sndPcmOpen (old new : Handle)
  | sndPcmClose (pcm : Handle)
  | sndPcmDrop (pcm : Handle)
  | sndPcmPrepare (pcm : Handle)
  | sndPcmStart (pcm : Handle)
  | sndPcmResume (pcm : Handle)
  | sndPcmWait (pcm : Handle)
  | sndPcmReadi (pcm : Handle) (frames : Nat)
  | sndPcmWritei (pcm : Handle) (frames : Nat)
  /-- `delete` of the record. -/
  | deleteRecord (pcm : Handle)
deriving DecidableEq

/-- What a call means for the ownership of handles. -/
def PcmCall.effect : PcmCall → List (Call Handle)
  | .sndPcmOpen old none => [.forget old]
  | .sndPcmOpen old (some h) => [.forget old, .acquire (some h)]
  | .sndPcmClose pcm => [.release pcm]
  | .sndPcmDrop pcm => [.use pcm]
  | .sndPcmPrepare pcm => [.use pcm]
  | .sndPcmStart pcm => [.use pcm]
  | .sndPcmResume pcm => [.use pcm]
  | .sndPcmWait pcm => [.use pcm]
  | .sndPcmReadi pcm _ => [.use pcm]
  | .sndPcmWritei pcm _ => [.use pcm]
  | .deleteRecord pcm => [.forget pcm]

/-- The calls as the ownership monitor sees them. -/
def effects (calls : List PcmCall) : List (Call Handle) :=
  calls.flatMap PcmCall.effect

@[simp] theorem effects_append (calls more : List PcmCall) :
    effects (calls ++ more) = effects calls ++ effects more :=
  List.flatMap_append

/-- The handle of the record, if there is one, is the one handle that is open. -/
def Owned (calls : List PcmCall) : Option Handle → Prop
  | none => Holds (effects calls) ∅
  | some pcm => pcm ≠ none ∧ Holds (effects calls) {pcm}

section Owned

variable {calls more : List PcmCall} {pcm : Handle}

theorem Owned.disciplined {record : Option Handle} (h : Owned calls record) :
    Disciplined (effects calls) := by
  cases record with
  | none => exact Holds.disciplined h
  | some pcm => exact h.2.disciplined

theorem Owned.opened (h : Owned calls none) (p : Nat) :
    Owned (calls ++ [.sndPcmOpen none (some p)]) (some (some p)) := by
  refine ⟨by simp, ?_⟩
  rw [effects_append]
  exact Holds.append h (by simp [effects, PcmCall.effect, run, check])

theorem Owned.use {c : PcmCall} (h : Owned calls (some pcm)) (hc : c.effect = [.use pcm]) :
    Owned (calls ++ [c]) (some pcm) := by
  refine ⟨h.1, ?_⟩
  rw [effects_append]
  exact h.2.append (by simp [effects, hc, run, check])

theorem Owned.uses (h : Owned calls (some pcm)) (hmore : ∀ c ∈ more, c.effect = [.use pcm]) :
    Owned (calls ++ more) (some pcm) := by
  induction more generalizing calls with
  | nil => simpa using h
  | cons c more ih =>
    obtain ⟨hc, hrest⟩ := List.forall_mem_cons.mp hmore
    rw [List.append_cons]
    exact ih (h.use hc) hrest

theorem Owned.closed (h : Owned calls (some pcm)) :
    Owned (calls ++ [.sndPcmClose pcm, .deleteRecord pcm]) none := by
  show Holds _ ∅
  rw [effects_append]
  exact h.2.append (by simp [effects, PcmCall.effect, run, check])

theorem Owned.dropped (h : Owned calls (some pcm)) :
    Owned (calls ++ [.sndPcmDrop pcm, .sndPcmClose pcm, .deleteRecord pcm]) none := by
  show Holds _ ∅
  rw [effects_append]
  exact h.2.append (by simp [effects, PcmCall.effect, run, check])

theorem Owned.not_disciplined (h : Owned calls none) (hmore : run check ∅ (effects more) = none) :
    ¬ Disciplined (effects (calls ++ more)) := by
  rw [effects_append]
  exact Holds.not_disciplined_append h hmore

end Owned

/-- The calls on the SocketStream objects `accept` has returned, which are
numbered in that order. -/
inductive StreamCall
  | accept (stream : Nat)
  | forceStop (stream : Nat)
  | delete (stream : Nat)
deriving DecidableEq

def StreamCall.stream : StreamCall → Nat
  | .accept k => k
  | .forceStop k => k
  | .delete k => k

end KmreManager.Audio
