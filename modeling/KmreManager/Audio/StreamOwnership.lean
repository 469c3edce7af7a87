import KmreManager.Audio.PlaybackWorker
import KmreManager.Audio.RecordingWorker.Step

/-! # The streams of the clients

Every stream that `accept` returns has to be shut down and deleted before the
next `accept`, and before `start` leaves its loop. The exits of the two loops
that do not release it are the ones after a failed initialisation, and in
PlaybackWorker those that end the loop with a client connected. -/
namespace KmreManager.Audio

open Lib.Runs

/-- The calls on one stream. -/
def history (calls : List StreamCall) (k : Nat) : List StreamCall :=
  calls.filter (·.stream = k)

/-- The stream was accepted, then shut down once, then deleted once. -/
def Released (calls : List StreamCall) (k : Nat) : Prop :=
  history calls k = [.accept k, .forceStop k, .delete k]

/-- `n` streams were accepted, and each was released. -/
structure Tidy (calls : List StreamCall) (n : Nat) : Prop where
  released : ∀ k < n, Released calls k
  fresh : ∀ k, n ≤ k → history calls k = []

/-- Stream `n` is the last one accepted, and the only one not released. -/
def Serving (calls : List StreamCall) (n : Nat) : Prop :=
  ∃ before, calls = before ++ [.accept n] ∧ Tidy before n

section Tidy

variable {calls : List StreamCall} {n : Nat}

theorem Tidy.init : Tidy [] 0 :=
  ⟨fun _ hk => absurd hk (Nat.not_lt_zero _), fun _ _ => rfl⟩

theorem Tidy.serving (h : Tidy calls n) : Serving (calls ++ [.accept n]) n :=
  ⟨calls, rfl, h⟩

theorem Serving.release (h : Serving calls n) :
    Tidy (calls ++ [.forceStop n, .delete n]) (n + 1) := by
  obtain ⟨before, rfl, htidy⟩ := h
  have hhistory : ∀ k, history (before ++ [.accept n] ++ [.forceStop n, .delete n]) k
      = history before k ++ if n = k then [.accept n, .forceStop n, .delete n] else [] := by
    intro k
    by_cases hk : n = k <;> simp [history, List.filter_append, StreamCall.stream, hk]
  constructor
  · intro k hk
    unfold Released
    rw [hhistory]
    obtain hlt | rfl := Nat.lt_succ_iff_lt_or_eq.mp hk
    · rw [if_neg (Nat.ne_of_gt hlt), List.append_nil]
      exact htidy.released k hlt
    · rw [if_pos rfl, htidy.fresh k (Nat.le_refl k)]
      rfl
  · intro k hk
    rw [hhistory, if_neg (by omega), htidy.fresh k (by omega)]
    rfl

theorem Serving.not_released (h : Serving calls n) : ¬ Released calls n := by
  obtain ⟨before, rfl, htidy⟩ := h
  have hhistory : history (before ++ [.accept n]) n = [.accept n] := by
    have hbefore := htidy.fresh n (Nat.le_refl n)
    simp only [history, List.filter_append] at hbefore ⊢
    rw [hbefore]
    simp [StreamCall.stream]
  unfold Released
  rw [hhistory]
  simp

end Tidy

namespace PlaybackWorker

variable {alsa : Alsa} {s s' t : State}

/-- Whenever `start` is about to call `accept`, or has left its loop, all
streams are released. -/
def StreamsReleased (s : State) : Prop :=
  s.control = .accepting ∨ s.control = .left → ∀ k < s.accepted, Released s.streamCalls k

/-- No exit of the action's turn keeps the stream: a connection does not fail to
initialise the device, and no client is connected when the loop is left. -/
def ReleasesStream (s : State) : Action → Prop
  | .connect c => c.accepts = true →
    (s.mExit = true → c.typeRead = true) ∧
    (c.typeRead = true → c.type = PLAYBACK → s.mPlayback = none → c.device.Works)
  | .iterate i => s.mExit = true → ¬ i.Breaks
  | _ => True

instance (s : State) : ∀ a, Decidable (ReleasesStream s a)
  | .connect c => inferInstanceAs (Decidable (c.accepts = true → _ ∧ _))
  | .iterate i => inferInstanceAs (Decidable (s.mExit = true → ¬ i.Breaks))
  | .initData _ _ | .exitPlayback | .destruct => .isTrue trivial

structure StreamsOwned (s : State) : Prop where
  outside : s.control ≠ .streaming → s.control ≠ .destroyed → Tidy s.streamCalls s.accepted
  inside : s.control = .streaming → s.mPlayback.isSome ∧
    ∃ n, s.mStream = some n ∧ s.accepted = n + 1 ∧ Serving s.streamCalls n

theorem StreamsOwned.init : StreamsOwned {} :=
  ⟨fun _ _ => .init, fun hc => by cases hc⟩

theorem StreamsOwned.released (hs : StreamsOwned s) : StreamsReleased s := by
  intro hc
  have htidy : Tidy s.streamCalls s.accepted := by
    apply hs.outside
    · rintro hstr
      simp [hstr] at hc
    · rintro hdes
      simp [hdes] at hc
  exact htidy.released

theorem StreamsOwned.of_tidy (htidy : Tidy s.streamCalls s.accepted) (hc : s.control ≠ .streaming) :
    StreamsOwned s :=
  ⟨fun _ _ => htidy, fun hcontra => absurd hcontra hc⟩

theorem not_streamsReleased {n : Nat} (hserving : Serving s.streamCalls n)
    (hacc : s.accepted = n + 1) (hc : s.control = .accepting ∨ s.control = .left) :
    ¬ StreamsReleased s :=
  fun hall => hserving.not_released (hall hc n (by omega))

/-- The stream that was accepted is released. -/
theorem releaseStream_tidy {n : Nat} (hstream : s.mStream = some n)
    (hserving : Serving s.streamCalls n) : Tidy s.releaseStream.streamCalls (n + 1) := by
  simpa [State.releaseStream, hstream] using hserving.release

/-- `createPlayback` leaves the streams alone, and fails if the device does. -/
theorem createPlayback_streams (alsa : Alsa) (s : State) (d : Device) :
    ∃ t ok, s.createPlayback alsa d = (ok, t) ∧
      t.streamCalls = s.streamCalls ∧ t.mStream = s.mStream ∧ t.accepted = s.accepted ∧
      t.control = s.control ∧
      (ok = true ∧ (s.mPlayback = none → d.Works) ∧ t.mPlayback.isSome ∨
        ok = false ∧ s.mPlayback = none ∧ ¬ d.Works) := by
  obtain ⟨hstream, -, hcount, hcalls, hctl⟩ := s.createPlayback_frame alsa d
  refine ⟨(s.createPlayback alsa d).2, (s.createPlayback alsa d).1, rfl, hcalls, hstream, hcount,
    hctl, ?_⟩
  cases hp : s.mPlayback with
  | some h =>
    rw [State.createPlayback_some hp]
    exact .inl ⟨rfl, by simp, by simp [hp]⟩
  | none =>
    by_cases hd : d.Works
    · obtain ⟨h, pcm, -, heq⟩ := State.createPlayback_of_works alsa hp hd
      rw [heq]
      exact .inl ⟨rfl, fun _ => hd, rfl⟩
    · obtain ⟨calls, -, heq⟩ := State.createPlayback_of_fails alsa hp hd
      rw [heq]
      exact .inr ⟨rfl, rfl, hd⟩

/-- A connection releases its stream or serves it, unless one of the two exits
that keep it is taken. -/
theorem StreamsOwned.connect (hs : StreamsOwned s) (hacc : s.control = .accepting)
    (c : Connection) :
    (ReleasesStream s (.connect c) ∧ StreamsOwned (s.connect alsa c)) ∨
    (¬ ReleasesStream s (.connect c) ∧ ¬ StreamsReleased (s.connect alsa c)) := by
  have htidy : Tidy s.streamCalls s.accepted :=
    hs.outside (by simp [hacc]) (by simp [hacc])
  have hserving : Serving s.accept.streamCalls s.accepted := htidy.serving
  obtain ⟨u, ok, hu, hcalls, hstream, hcount, hctl, hok⟩ :=
    createPlayback_streams alsa s.accept c.device
  unfold ReleasesStream
  obtain ⟨ha, heq⟩ | ⟨ha, hr, hexit, heq⟩ | ⟨ha, hplays, hexit, heq⟩ |
    ⟨⟨ha, hr, htype⟩, t, ht, heq⟩ | ⟨⟨ha, hr, htype⟩, t, ht, heq⟩ := connect_cases alsa s c
  · rw [heq]
    refine .inl ⟨fun hcontra => by simp [ha] at hcontra, .of_tidy htidy ?_⟩
    cases s.mExit <;> simp [hacc]
  · rw [heq]
    exact .inr ⟨by simp [ha, hr, hexit], not_streamsReleased hserving rfl (.inr rfl)⟩
  · rw [heq]
    refine .inl ⟨fun _ => ⟨fun hleft => ?_, fun hr htype => absurd ⟨ha, hr, htype⟩ hplays⟩,
      .of_tidy (releaseStream_tidy rfl hserving)
        (by simp [State.releaseStream, State.accept, hacc])⟩
    cases hr : c.typeRead with
    | true => rfl
    | false => exact absurd hleft (by simp [hexit hr])
  · obtain ⟨rfl, rfl⟩ := Prod.mk.inj (hu.symm.trans ht)
    obtain ⟨-, hworks, hrec⟩ | ⟨hcontra, -⟩ := hok
    · refine .inl ⟨fun _ => ⟨fun _ => hr, fun _ _ => hworks⟩, ?_⟩
      rw [heq]
      refine ⟨fun hcontra => absurd rfl hcontra, fun _ => ⟨hrec, s.accepted, hstream, hcount, ?_⟩⟩
      show Serving u.streamCalls s.accepted
      rwa [hcalls]
    · cases hcontra
  · obtain ⟨rfl, rfl⟩ := Prod.mk.inj (hu.symm.trans ht)
    obtain ⟨hcontra, -⟩ | ⟨-, hnone, hfails⟩ := hok
    · cases hcontra
    · refine .inr ⟨fun hworks => hfails ((hworks ha).2 hr htype hnone), ?_⟩
      rw [heq]
      have hserve : Serving u.streamCalls s.accepted := by rwa [hcalls]
      exact not_streamsReleased hserve hcount (.inl (hctl.trans hacc))

/-- The end of a session releases the stream, unless the loop is left. -/
theorem endSession_streams {n : Nat} (hstream : s.mStream = some n) (hcount : s.accepted = n + 1)
    (hserving : Serving s.streamCalls n) :
    (s.mExit = false ∧ StreamsOwned s.endSession) ∨
    (s.mExit = true ∧ ¬ StreamsReleased s.endSession) := by
  unfold State.endSession
  cases hexit : s.mExit with
  | true => exact .inr ⟨rfl, not_streamsReleased hserving hcount (.inr rfl)⟩
  | false =>
    refine .inl ⟨rfl, .of_tidy ?_ (by simp)⟩
    obtain ⟨-, -, hacc, hcalls⟩ := stop_frame s.releaseStream
    show Tidy s.releaseStream.stop.streamCalls s.releaseStream.stop.accepted
    rw [hcalls, hacc, releaseStream_accepted, hcount]
    exact releaseStream_tidy hstream hserving

theorem StreamsOwned.iterate (hs : StreamsOwned s) (hstr : s.control = .streaming)
    (h : PlaybackHandle) (i : Iteration) :
    (ReleasesStream s (.iterate i) ∧ StreamsOwned (s.iterate h i)) ∨
    (¬ ReleasesStream s (.iterate i) ∧ ¬ StreamsReleased (s.iterate h i)) := by
  obtain ⟨hrec, n, hstream, hcount, hserving⟩ := hs.inside hstr
  obtain ⟨calls, -, heq⟩ := s.iterate_eq h i
  rw [heq]
  unfold ReleasesStream
  by_cases hbreaks : i.Breaks
  · rw [if_pos hbreaks]
    obtain ⟨hexit, hend⟩ | ⟨hexit, hend⟩ :=
      endSession_streams (s := s.pcm calls) hstream hcount hserving
    · have hexit : s.mExit = false := hexit
      exact .inl ⟨by simp [hexit], hend⟩
    · exact .inr ⟨fun hok => hok hexit hbreaks, hend⟩
  · rw [if_neg hbreaks]
    exact .inl ⟨fun _ => hbreaks, fun hcontra => absurd hstr hcontra,
      fun _ => ⟨hrec, n, hstream, hcount, hserving⟩⟩

/-- The step lemma. -/
theorem StreamsOwned.step (hs : StreamsOwned s) {a : Action} (hstep : step alsa s a = some s') :
    (ReleasesStream s a ∧ StreamsOwned s') ∨ (¬ ReleasesStream s a ∧ ¬ StreamsReleased s') := by
  obtain ⟨d, listens, ok, t, rfl, hidle, hcreate, rfl⟩ | ⟨rfl, rfl⟩ | ⟨c, rfl, hacc, rfl⟩ |
    ⟨i, h, rfl, hstr, hh, rfl⟩ | ⟨rfl, rfl⟩ := step_cases hstep
  · have htidy : Tidy s.streamCalls s.accepted :=
      hs.outside (by simp [hidle]) (by simp [hidle])
    obtain ⟨u, ok', hu, hcalls, -, hcount, -⟩ := createPlayback_streams alsa s d
    obtain ⟨rfl, rfl⟩ := Prod.mk.inj (hu.symm.trans hcreate)
    have htidy' : Tidy u.streamCalls u.accepted := by rwa [hcalls, hcount]
    refine .inl ⟨trivial, .of_tidy htidy' ?_⟩
    cases ok' <;> cases listens <;> simp
  · exact .inl ⟨trivial, hs.outside, hs.inside⟩
  · exact hs.connect hacc c
  · exact hs.iterate hstr h i
  · exact .inl ⟨trivial, fun _ hcontra => absurd rfl hcontra, fun hcontra => by cases hcontra⟩

end PlaybackWorker

namespace RecordingWorker

variable {alsa : Alsa} {s s' t : State}

/-- Whenever `start` is about to call `accept`, or has returned, all streams
are released. -/
def StreamsReleased (s : State) : Prop :=
  s.control = .accepting ∨ s.control = .left → ∀ k < s.accepted, Released s.streamCalls k

/-- The action's turn does not fail to initialise the device. -/
def ReleasesStream (_ : State) : Action → Prop
  | .connect c => c.Records → c.device.Works
  | _ => True

instance (s : State) : ∀ a, Decidable (ReleasesStream s a)
  | .connect c => inferInstanceAs (Decidable (c.Records → c.device.Works))
  | .initData _ | .iterate _ | .destruct => .isTrue trivial

structure StreamsOwned (s : State) : Prop where
  phases : Phases s
  outside : s.control ≠ .streaming → s.control ≠ .destroyed → Tidy s.streamCalls s.accepted
  inside : s.control = .streaming →
    ∃ n, s.mStream = some n ∧ s.accepted = n + 1 ∧ Serving s.streamCalls n

theorem StreamsOwned.init : StreamsOwned {} :=
  ⟨.init, fun _ _ => .init, fun hc => by cases hc⟩

theorem StreamsOwned.released (hs : StreamsOwned s) : StreamsReleased s := by
  intro hc
  have htidy : Tidy s.streamCalls s.accepted := by
    apply hs.outside
    · intro hstr
      simp [hstr] at hc
    · intro hdes
      simp [hdes] at hc
  exact htidy.released

theorem StreamsOwned.of_tidy (hphases : Phases s) (htidy : Tidy s.streamCalls s.accepted)
    (hc : s.control ≠ .streaming) : StreamsOwned s :=
  ⟨hphases, fun _ _ => htidy, fun hcontra => absurd hcontra hc⟩

theorem StreamsOwned.connect (hs : StreamsOwned s) (hacc : s.control = .accepting)
    (c : Connection) :
    (ReleasesStream s (.connect c) ∧ StreamsOwned (s.connect alsa c)) ∨
    (¬ ReleasesStream s (.connect c) ∧ ¬ StreamsReleased (s.connect alsa c)) := by
  have htidy : Tidy s.streamCalls s.accepted :=
    hs.outside (by simp [hacc]) (by simp [hacc])
  have hphases : Phases (s.connect alsa c) := hs.phases.connect hacc c
  obtain ⟨hrec, hpre⟩ := hs.phases.accepting hacc
  obtain ⟨hrefused, heq⟩ | ⟨-, hnot, rate, heq⟩ | ⟨-, hworks, pcm, heq⟩ |
    ⟨hrecords, hfails, calls, buffer, rate, -, heq⟩ := connect_cases alsa hrec hpre c
  · refine .inl ⟨fun hrecords => absurd hrecords.1 (by simp [hrefused]), ?_⟩
    rw [heq] at hphases ⊢
    exact .of_tidy hphases htidy (by simp [hacc])
  · refine .inl ⟨fun hrecords => absurd hrecords hnot, ?_⟩
    rw [heq] at hphases ⊢
    refine .of_tidy hphases ?_ (by simp [State.releaseStream, State.accept, hacc])
    simpa [State.releaseStream, State.accept] using htidy.serving.release
  · refine .inl ⟨fun _ => hworks, ?_⟩
    have honly := setupSpeex_speexOnly (s.session alsa c pcm) (c.device.granted alsa (some pcm)) c
    rw [heq] at hphases ⊢
    refine ⟨hphases, fun hcontra => absurd rfl hcontra, fun _ => ⟨s.accepted, ?_, ?_, ?_⟩⟩
    · exact honly.mStream
    · exact honly.accepted
    · show Serving (State.setupSpeex _ _ _).streamCalls s.accepted
      rw [honly.streamCalls]
      exact htidy.serving
  · refine .inr ⟨fun hworks => hfails (hworks hrecords), fun hall => ?_⟩
    rw [heq] at hall
    exact htidy.serving.not_released (hall (.inl hacc) s.accepted (Nat.lt_succ_self _))

theorem StreamsOwned.turnsTo {h : RecordHandle} {i : Iteration} (hs : StreamsOwned s)
    (hstr : s.control = .streaming) (ht : TurnsTo alsa s h i t) : StreamsOwned t := by
  have hphases : Phases t := hs.phases.turnsTo ht
  obtain ⟨n, hstream, hcount, hserving⟩ := hs.inside hstr
  obtain ⟨calls, touched, count, -, -, rfl | rfl⟩ := ht
  · exact ⟨hphases, fun hcontra => absurd hstr hcontra,
      fun _ => ⟨n, hstream, hcount, hserving⟩⟩
  · refine .of_tidy hphases ?_ (by rw [endSession_eq]; simp)
    have hcalls := endSession_streamCalls (s := s.turned calls touched count) hstream
    rw [hcalls, show State.accepted _ = n + 1 by rw [endSession_eq]; exact hcount]
    exact hserving.release

/-- The step lemma. -/
theorem StreamsOwned.step (hs : StreamsOwned s) {a : Action} (hstep : step alsa s a = some s') :
    (ReleasesStream s a ∧ StreamsOwned s') ∨ (¬ ReleasesStream s a ∧ ¬ StreamsReleased s') := by
  have hphases : Phases s' := hs.phases.step hstep
  obtain ⟨listens, rfl, hidle, rfl⟩ | ⟨c, rfl, hacc, rfl⟩ | ⟨i, h, rfl, hstr, -, hturn⟩ |
    ⟨rfl, rfl⟩ := step_cases hstep
  · have htidy : Tidy s.streamCalls s.accepted :=
      hs.outside (by simp [hidle]) (by simp [hidle])
    exact .inl ⟨trivial, .of_tidy hphases htidy (by cases listens <;> simp)⟩
  · exact hs.connect hacc c
  · exact .inl ⟨trivial, hs.turnsTo hstr hturn⟩
  · exact .inl ⟨trivial, hphases, fun _ hcontra => absurd rfl hcontra,
      fun hcontra => by cases hcontra⟩

end RecordingWorker

/-! ## Both workers -/

/-- In a run of PlaybackWorker and in a run of RecordingWorker every stream
accepted earlier is released whenever `accept` is called again, and when the
loop is left, exactly when no turn takes one of the exits that keep the stream. -/
theorem client_streams_released (alsa : Alsa) :
    (∀ actions s, run (PlaybackWorker.step alsa) {} actions = some s →
      ((∀ before t, before <+: actions → run (PlaybackWorker.step alsa) {} before = some t →
          PlaybackWorker.StreamsReleased t) ↔
        Guarded (PlaybackWorker.step alsa) PlaybackWorker.ReleasesStream {} actions)) ∧
    (∀ actions s, run (RecordingWorker.step alsa) {} actions = some s →
      ((∀ before t, before <+: actions → run (RecordingWorker.step alsa) {} before = some t →
          RecordingWorker.StreamsReleased t) ↔
        Guarded (RecordingWorker.step alsa) RecordingWorker.ReleasesStream {} actions)) := by
  constructor
  · intro actions s hrun
    exact (Guarded.iff_of_step (fun _ ht => ht.released) (fun _ _ _ ht => ht.step)
      PlaybackWorker.StreamsOwned.init hrun).symm
  · intro actions s hrun
    exact (Guarded.iff_of_step (fun _ ht => ht.released) (fun _ _ _ ht => ht.step)
      RecordingWorker.StreamsOwned.init hrun).symm

theorem client_streams_released_runs :
    (∃ s, run (PlaybackWorker.step alsaLib) {} PlaybackWorker.playRun = some s ∧
      s.accepted = 2 ∧ PlaybackWorker.StreamsReleased s) ∧
    (∃ s, run (RecordingWorker.step alsaLib) {} RecordingWorker.recordRun = some s ∧
      s.accepted = 2 ∧ RecordingWorker.StreamsReleased s) := by
  have hplay : (run (PlaybackWorker.step alsaLib) {} PlaybackWorker.playRun).map (·.accepted)
      = some 2 := by decide +kernel
  have hrecord : (run (RecordingWorker.step alsaLib) {} RecordingWorker.recordRun).map (·.accepted)
      = some 2 := by decide +kernel
  obtain ⟨s, hs, hcount⟩ := Option.map_eq_some_iff.mp hplay
  obtain ⟨t, ht, htcount⟩ := Option.map_eq_some_iff.mp hrecord
  obtain ⟨hplays, hrecords⟩ := client_streams_released alsaLib
  refine ⟨⟨s, hs, hcount, ?_⟩, ⟨t, ht, htcount, ?_⟩⟩
  · exact (hplays _ s hs).mpr (by decide +kernel) _ s List.prefix_rfl hs
  · exact (hrecords _ t ht).mpr (by decide +kernel) _ t List.prefix_rfl ht

/-- No microphone: the client's stream is neither shut down nor deleted when
`accept` is called again. -/
theorem client_stream_leaked :
    ∃ s, run (RecordingWorker.step alsaLib) {} [.initData true,
        .connect ⟨true, true, RecordingWorker.RECORDING, true, 48000,
          { RecordingWorker.microphone 7 with sndPcmOpen := none }, true, true, 0⟩] = some s ∧
      s.control = .accepting ∧ s.streamCalls = [.accept 0] ∧
      ¬ RecordingWorker.StreamsReleased s := by
  refine ⟨_, rfl, rfl, rfl, fun hall => ?_⟩
  have hreleased := hall (.inl rfl) 0 (Nat.lt_succ_self 0)
  cases hreleased

end KmreManager.Audio
