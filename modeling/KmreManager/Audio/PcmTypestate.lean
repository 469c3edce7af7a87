import KmreManager.Audio.PlaybackWorker
import KmreManager.Audio.RecordingWorker.Step

/-! # The typestate of PCM handles

Both workers keep one invariant as long as their initialisations succeed: the
handle in the record is the one handle that is open. An initialisation that
fails leaves the record with a handle that it has closed itself, or that was
never opened, and the cleanup of the caller then uses it. -/
namespace KmreManager.Audio

open Lib.Runs Lib.Ownership

namespace PlaybackWorker

variable {alsa : Alsa} {s s' : State} {h : PlaybackHandle}

structure Typestate (s : State) : Prop where
  owned : Owned s.pcmCalls (s.mPlayback.map (·.pcm))
  idle : s.control = .idle → s.mPlayback = none
  streaming : s.control = .streaming → s.mPlayback.isSome

/-- If the action calls `initPlayback`, every ALSA call of it succeeds. -/
def InitSucceeds (s : State) : Action → Prop
  | .initData d _ => d.Works
  | .connect c =>
    c.accepts = true → c.typeRead = true → c.type = PLAYBACK → s.mPlayback = none → c.device.Works
  | _ => True

instance (s : State) (a : Action) : Decidable (InitSucceeds s a) := by
  cases a <;> unfold InitSucceeds <;> infer_instance

theorem Typestate.init : Typestate {} :=
  ⟨holds_nil, fun _ => rfl, fun hc => by cases hc⟩

/-- In the inner loop, on the record `h`. -/
structure Streaming (s : State) (h : PlaybackHandle) : Prop where
  record : s.mPlayback = some h
  control : s.control = .streaming
  owned : Owned s.pcmCalls (some h.pcm)

theorem Typestate.streams (hs : Typestate s) (hc : s.control = .streaming)
    (hh : s.mPlayback = some h) : Streaming s h :=
  ⟨hh, hc, by simpa [hh] using hs.owned⟩

theorem Streaming.typestate (hs : Streaming s h) : Typestate s := by
  refine ⟨?_, ?_, ?_⟩
  · rw [hs.record]
    exact hs.owned
  · intro hidle
    rw [hs.control] at hidle
    cases hidle
  · intro
    simp [hs.record]

theorem Streaming.uses {calls : List PcmCall} (hs : Streaming s h)
    (hcalls : ∀ c ∈ calls, c.effect = [.use h.pcm]) : Streaming (s.pcm calls) h :=
  ⟨hs.record, hs.control, hs.owned.uses hcalls⟩

theorem stop_owned (hs : Owned s.pcmCalls (s.mPlayback.map (·.pcm))) :
    Owned s.stop.pcmCalls none := by
  cases hp : s.mPlayback with
  | none => simpa [State.stop, State.destroyPlayback, hp] using hs
  | some h =>
    rw [hp] at hs
    simpa [State.stop, State.destroyPlayback, hp, State.pcm] using Owned.dropped hs

theorem Streaming.endSession (hs : Streaming s h) : Typestate s.endSession := by
  unfold State.endSession
  split
  · refine ⟨hs.typestate.owned, ?_, ?_⟩ <;> intro hc <;> cases hc
  · refine ⟨?_, ?_, ?_⟩
    · show Owned s.releaseStream.stop.pcmCalls (s.releaseStream.stop.mPlayback.map _)
      rw [stop_mPlayback]
      exact stop_owned (by simpa using hs.typestate.owned)
    · intro hc
      cases hc
    · intro hc
      cases hc

theorem Streaming.iterate (hs : Streaming s h) (i : Iteration) : Typestate (s.iterate h i) := by
  obtain ⟨calls, hcalls, heq⟩ := s.iterate_eq h i
  rw [heq]
  split
  · exact (hs.uses hcalls).endSession
  · exact (hs.uses hcalls).typestate

/-- The two ways `createPlayback` goes on from a worker that owns its handle. -/
theorem Typestate.createPlayback (alsa : Alsa) (d : Device)
    (hs : Owned s.pcmCalls (s.mPlayback.map (·.pcm))) :
    (∃ t h, s.createPlayback alsa d = (true, t) ∧ t.mPlayback = some h ∧
      Owned t.pcmCalls (some h.pcm) ∧ (s.mPlayback = none → d.Works)) ∨
    (∃ t, s.createPlayback alsa d = (false, t) ∧ t.control = s.control ∧
      ¬ Disciplined (effects t.pcmCalls) ∧ s.mPlayback = none ∧ ¬ d.Works) := by
  cases hp : s.mPlayback with
  | some h =>
    exact .inl ⟨s, h, State.createPlayback_some hp, hp, by simpa [hp] using hs, by simp⟩
  | none =>
    rw [hp] at hs
    by_cases hd : d.Works
    · obtain ⟨h, pcm, hpcm, heq⟩ := State.createPlayback_of_works alsa hp hd
      refine .inl ⟨_, h, heq, rfl, ?_, fun _ => hd⟩
      rw [hpcm]
      exact Owned.opened hs pcm
    · obtain ⟨calls, hbad, heq⟩ := State.createPlayback_of_fails alsa hp hd
      exact .inr ⟨_, heq, rfl, Owned.not_disciplined hs hbad, rfl, hd⟩

theorem Typestate.of_eq (hs : Typestate s) (hcalls : s'.pcmCalls = s.pcmCalls)
    (hrecord : s'.mPlayback = s.mPlayback) (hc : s'.control = .accepting ∨ s'.control = .left) :
    Typestate s' := by
  refine ⟨?_, ?_, ?_⟩
  · rw [hcalls, hrecord]
    exact hs.owned
  · intro hidle
    rw [hidle] at hc
    simp at hc
  · intro hstr
    rw [hstr] at hc
    simp at hc

/-- A connection keeps the typestate if its initialisation succeeds, and breaks
the discipline if it does not. -/
theorem Typestate.connect (hs : Typestate s) (hacc : s.control = .accepting) (c : Connection) :
    (InitSucceeds s (.connect c) ∧ Typestate (s.connect alsa c)) ∨
    (¬ InitSucceeds s (.connect c) ∧ ¬ Disciplined (effects (s.connect alsa c).pcmCalls)) := by
  have hcreate := Typestate.createPlayback alsa c.device (s := s.accept) hs.owned
  obtain ⟨ha, heq⟩ | ⟨-, hr, -, heq⟩ | ⟨ha, hplays, -, heq⟩ | ⟨-, t, ht, heq⟩ |
    ⟨⟨ha, hr, htype⟩, t, ht, heq⟩ := connect_cases alsa s c
  · refine .inl ⟨fun hcontra => by simp [ha] at hcontra, ?_⟩
    rw [heq]
    refine hs.of_eq rfl rfl ?_
    cases s.mExit
    · exact .inl hacc
    · exact .inr rfl
  · refine .inl ⟨fun _ hcontra => by simp [hr] at hcontra, ?_⟩
    rw [heq]
    exact hs.of_eq rfl rfl (.inr rfl)
  · refine .inl ⟨fun _ hr htype => absurd ⟨ha, hr, htype⟩ hplays, ?_⟩
    rw [heq]
    exact hs.of_eq (by simp [State.accept]) (by simp [State.accept])
      (.inl (by simp [State.accept, hacc]))
  · obtain ⟨u, h, hu, hrec, hpcm, hworks⟩ | ⟨u, hu, -⟩ := hcreate
    · obtain ⟨-, rfl⟩ := Prod.mk.inj (ht.symm.trans hu)
      refine .inl ⟨fun _ _ _ => hworks, ?_⟩
      rw [heq]
      exact (Streaming.mk hrec rfl hpcm : Streaming { t with control := .streaming } h).typestate
    · cases (Prod.mk.inj (ht.symm.trans hu)).1
  · obtain ⟨u, h, hu, -⟩ | ⟨u, hu, -, hbad, hnone, hfails⟩ := hcreate
    · cases (Prod.mk.inj (ht.symm.trans hu)).1
    · obtain ⟨-, rfl⟩ := Prod.mk.inj (ht.symm.trans hu)
      refine .inr ⟨fun hworks => hfails (hworks ha hr htype hnone), ?_⟩
      rw [heq]
      exact hbad

theorem Typestate.initData (hs : Typestate s) (hidle : s.control = .idle) {d : Device}
    {listens ok : Bool} {t : State} (hcreate : s.createPlayback alsa d = (ok, t)) :
    (d.Works ∧ Typestate { t with control := if ok && listens then .accepting else .left }) ∨
    (¬ d.Works ∧ ¬ Disciplined (effects t.pcmCalls)) := by
  obtain ⟨u, h, heq, hrec, hpcm, hworks⟩ | ⟨u, heq, -, hbad, -, hfails⟩ :=
    Typestate.createPlayback alsa d hs.owned
  · obtain ⟨rfl, rfl⟩ := Prod.mk.inj (hcreate.symm.trans heq)
    refine .inl ⟨hworks (hs.idle hidle), ?_, ?_, ?_⟩
    · simpa [hrec] using hpcm
    · intro hc
      cases listens <;> cases hc
    · intro
      simp [hrec]
  · obtain ⟨-, rfl⟩ := Prod.mk.inj (hcreate.symm.trans heq)
    exact .inr ⟨hfails, hbad⟩

/-- The step lemma. -/
theorem Typestate.step (hs : Typestate s) {a : Action} (hstep : step alsa s a = some s') :
    (InitSucceeds s a ∧ Typestate s') ∨
    (¬ InitSucceeds s a ∧ ¬ Disciplined (effects s'.pcmCalls)) := by
  obtain ⟨d, listens, ok, t, rfl, hidle, hcreate, rfl⟩ | ⟨rfl, rfl⟩ | ⟨c, rfl, hacc, rfl⟩ |
    ⟨i, h, rfl, hstr, hh, rfl⟩ | ⟨rfl, rfl⟩ := step_cases hstep
  · exact hs.initData hidle hcreate
  · exact .inl ⟨trivial, hs.owned, hs.idle, hs.streaming⟩
  · exact hs.connect hacc c
  · exact .inl ⟨trivial, (hs.streams hstr hh).iterate i⟩
  · refine .inl ⟨trivial, ?_, ?_, ?_⟩
    · show Owned s.stop.pcmCalls (s.stop.mPlayback.map _)
      rw [stop_mPlayback]
      exact stop_owned hs.owned
    · intro hc
      cases hc
    · intro hc
      cases hc

end PlaybackWorker

namespace RecordingWorker

variable {alsa : Alsa} {s s' t : State} {h : RecordHandle} {i : Iteration}

structure Typestate (s : State) : Prop where
  phases : Phases s
  owned : Owned s.pcmCalls (s.mRecoder.map (·.pcm))

/-- If the action calls `initRecoder`, every ALSA call of it succeeds. -/
def InitSucceeds (_ : State) : Action → Prop
  | .connect c => c.Records → c.device.Works
  | _ => True

instance (s : State) (a : Action) : Decidable (InitSucceeds s a) := by
  cases a <;> unfold InitSucceeds <;> infer_instance

theorem Typestate.init : Typestate {} :=
  ⟨.init, holds_nil⟩

theorem Typestate.turnsTo (hs : Typestate s) (hh : s.mRecoder = some h)
    (ht : TurnsTo alsa s h i t) : Typestate t := by
  refine ⟨hs.phases.turnsTo ht, ?_⟩
  have hown : Owned s.pcmCalls (some h.pcm) := by simpa [hh] using hs.owned
  obtain ⟨calls, touched, count, hcalls, -, rfl | rfl⟩ := ht
  · show Owned (s.pcmCalls ++ calls) (s.mRecoder.map _)
    rw [hh]
    exact hown.uses hcalls
  · have hrec : (s.turned calls touched count).mRecoder = some h := hh
    rw [endSession_pcmCalls hrec, congrArg State.mRecoder (endSession_eq _)]
    exact (hown.uses hcalls).closed

theorem stop_owned (hs : Owned s.pcmCalls (s.mRecoder.map (·.pcm))) :
    Owned s.stop.pcmCalls none := by
  have hcalls : s.stop.pcmCalls = s.closeRecorder.pcmCalls :=
    (destroyPreprocesser_speexOnly _).pcmCalls
  rw [hcalls]
  cases hrec : s.mRecoder with
  | none => simpa [State.closeRecorder, hrec] using hs
  | some h =>
    rw [hrec] at hs
    simpa [State.closeRecorder, hrec, State.pcm] using Owned.closed hs

/-- A connection keeps the typestate if its initialisation succeeds, and breaks
the discipline if it does not. -/
theorem Typestate.connect (hs : Typestate s) (hacc : s.control = .accepting) (c : Connection) :
    (InitSucceeds s (.connect c) ∧ Typestate (s.connect alsa c)) ∨
    (¬ InitSucceeds s (.connect c) ∧ ¬ Disciplined (effects (s.connect alsa c).pcmCalls)) := by
  have hphases : Phases (s.connect alsa c) := hs.phases.connect hacc c
  obtain ⟨hrec, hpre⟩ := hs.phases.accepting hacc
  have hown : Owned s.pcmCalls none := by simpa [hrec] using hs.owned
  obtain ⟨hrefused, heq⟩ | ⟨-, hnot, rate, heq⟩ | ⟨-, hworks, pcm, heq⟩ |
    ⟨hrecords, hfails, calls, buffer, rate, hbad, heq⟩ := connect_cases alsa hrec hpre c
  · refine .inl ⟨fun hrecords => absurd hrecords.1 (by simp [hrefused]), hphases, ?_⟩
    rw [heq]
    exact hs.owned
  · refine .inl ⟨fun hrecords => absurd hrecords hnot, hphases, ?_⟩
    rw [heq]
    exact hs.owned
  · refine .inl ⟨fun _ => hworks, hphases, ?_⟩
    have honly := setupSpeex_speexOnly (s.session alsa c pcm) (c.device.granted alsa (some pcm)) c
    rw [heq]
    show Owned (State.setupSpeex _ _ _).pcmCalls ((State.setupSpeex _ _ _).mRecoder.map _)
    rw [honly.pcmCalls, honly.mRecoder]
    show Owned (s.pcmCalls ++ [.sndPcmOpen none (some pcm), .sndPcmStart (some pcm)]) _
    rw [List.append_cons]
    exact (hown.opened pcm).use rfl
  · refine .inr ⟨fun hworks => hfails (hworks hrecords), ?_⟩
    rw [heq]
    exact hown.not_disciplined hbad

/-- The step lemma. -/
theorem Typestate.step (hs : Typestate s) {a : Action} (hstep : step alsa s a = some s') :
    (InitSucceeds s a ∧ Typestate s') ∨
    (¬ InitSucceeds s a ∧ ¬ Disciplined (effects s'.pcmCalls)) := by
  have hphases : Phases s' := hs.phases.step hstep
  obtain ⟨listens, rfl, -, rfl⟩ | ⟨c, rfl, hacc, rfl⟩ | ⟨i, h, rfl, -, hh, hturn⟩ | ⟨rfl, rfl⟩ :=
    step_cases hstep
  · exact .inl ⟨trivial, hphases, hs.owned⟩
  · exact hs.connect hacc c
  · exact .inl ⟨trivial, hs.turnsTo hh hturn⟩
  · refine .inl ⟨trivial, hphases, ?_⟩
    have honly := destroyResampler_speexOnly s.stop
    show Owned s.stop.destroyResampler.pcmCalls (s.stop.destroyResampler.mRecoder.map _)
    rw [honly.pcmCalls, honly.mRecoder]
    show Owned s.stop.pcmCalls (s.stop.mRecoder.map _)
    rw [(stop_none s).1]
    exact stop_owned hs.owned

end RecordingWorker

/-! ## Both workers -/

/-- At every point of a run of PlaybackWorker and of a run of RecordingWorker
the calls made so far use, close, delete and overwrite handles as the typestate
demands, exactly when every `initPlayback` and `initRecoder` of the run
succeeds. -/
theorem pcm_typestate (alsa : Alsa) :
    (∀ actions s, run (PlaybackWorker.step alsa) {} actions = some s →
      ((∀ before t, before <+: actions → run (PlaybackWorker.step alsa) {} before = some t →
          Disciplined (effects t.pcmCalls)) ↔
        Guarded (PlaybackWorker.step alsa) PlaybackWorker.InitSucceeds {} actions)) ∧
    (∀ actions s, run (RecordingWorker.step alsa) {} actions = some s →
      ((∀ before t, before <+: actions → run (RecordingWorker.step alsa) {} before = some t →
          Disciplined (effects t.pcmCalls)) ↔
        Guarded (RecordingWorker.step alsa) RecordingWorker.InitSucceeds {} actions)) := by
  constructor
  · intro actions s hrun
    exact (Guarded.iff_of_step (fun _ ht => ht.owned.disciplined) (fun _ _ _ ht => ht.step)
      PlaybackWorker.Typestate.init hrun).symm
  · intro actions s hrun
    exact (Guarded.iff_of_step (fun _ ht => ht.owned.disciplined) (fun _ _ _ ht => ht.step)
      RecordingWorker.Typestate.init hrun).symm

theorem pcm_typestate_runs :
    (∃ s, run (PlaybackWorker.step alsaLib) {} PlaybackWorker.playRun = some s ∧
      s.mPlayback = none ∧ Disciplined (effects s.pcmCalls)) ∧
    (∃ s, run (RecordingWorker.step alsaLib) {} RecordingWorker.recordRun = some s ∧
      s.mRecoder = none ∧ Disciplined (effects s.pcmCalls)) := by
  have hplay : (run (PlaybackWorker.step alsaLib) {} PlaybackWorker.playRun).map (·.mPlayback)
      = some none := by decide +kernel
  have hrecord : (run (RecordingWorker.step alsaLib) {} RecordingWorker.recordRun).map (·.mRecoder)
      = some none := by decide +kernel
  obtain ⟨s, hs, hnone⟩ := Option.map_eq_some_iff.mp hplay
  obtain ⟨t, ht, htnone⟩ := Option.map_eq_some_iff.mp hrecord
  obtain ⟨hplays, hrecords⟩ := pcm_typestate alsaLib
  refine ⟨⟨s, hs, hnone, ?_⟩, ⟨t, ht, htnone, ?_⟩⟩
  · exact (hplays _ s hs).mpr (by decide +kernel) _ s List.prefix_rfl hs
  · exact (hrecords _ t ht).mpr (by decide +kernel) _ t List.prefix_rfl ht

/-- `initPlayback` closes the handle of a device that rejects a parameter, and
`destroyPlayback` drops and closes it again. -/
theorem pcm_closed_twice :
    ∃ s, run (PlaybackWorker.step alsaLib) {}
        [.initData (PlaybackWorker.monoSpeaker 7) true] = some s ∧
      s.pcmCalls = [.sndPcmOpen none (some 7), .sndPcmClose (some 7), .sndPcmDrop (some 7),
        .sndPcmClose (some 7), .deleteRecord (some 7)] ∧
      ¬ Disciplined (effects s.pcmCalls) := by
  refine ⟨_, rfl, rfl, ?_⟩
  decide +kernel

end KmreManager.Audio
