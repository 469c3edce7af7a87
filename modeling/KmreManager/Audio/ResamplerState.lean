import KmreManager.Audio.RecordingWorker.Step
import Mathlib.Data.Finset.Option
import Mathlib.Data.Finset.Lattice.Lemmas

/-! # The Speex objects of the recording loop

The preprocessor lives for one session, the resampler across sessions. What
carries the decision to keep, destroy or create it is that a live resampler
was created for two different rates: one that is for the rates of the session
is then needed, and the others are destroyed. -/
namespace KmreManager.Audio.RecordingWorker

open Lib.Runs Lib.Ownership

/-! ## Every object is destroyed at most once -/

/-- `created` objects were created, and those of them that `resampler` and
`preprocesser` name are the ones not destroyed. -/
structure SpeexObjects (calls : List (Call Nat)) (created : Nat)
    (resampler preprocesser : Option Nat) : Prop where
  held : Holds calls (resampler.toFinset ∪ preprocesser.toFinset)
  distinct : ∀ k ∈ resampler, k ∉ preprocesser
  bounded : ∀ k, k ∈ resampler ∨ k ∈ preprocesser → k < created
  acquired : ∀ k, calls.count (.acquire k) = if k < created then 1 else 0

section SpeexObjects

variable {calls : List (Call Nat)} {created k : Nat} {resampler preprocesser : Option Nat}

theorem SpeexObjects.init : SpeexObjects [] 0 none none :=
  ⟨holds_nil, by simp, by simp, by simp⟩

theorem SpeexObjects.count_acquire (h : SpeexObjects calls created resampler preprocesser)
    (k : Nat) : (calls ++ [Call.acquire created]).count (.acquire k)
      = if k < created + 1 then 1 else 0 := by
  rw [List.count_append, h.acquired k, List.count_singleton]
  by_cases hk : created = k
  · simp [hk]
  · have hlt : k < created + 1 ↔ k < created := by omega
    simp [hk, hlt]

theorem SpeexObjects.createResampler (h : SpeexObjects calls created none preprocesser) :
    SpeexObjects (calls ++ [.acquire created]) (created + 1) (some created) preprocesser := by
  have hnew : created ∉ preprocesser := fun hmem => Nat.lt_irrefl _ (h.bounded _ (.inr hmem))
  refine ⟨?_, ?_, ?_, h.count_acquire⟩
  · have hheld := h.held.acquire (r := created) (by simpa using hnew)
    have hinsert : insert created ((none : Option Nat).toFinset ∪ preprocesser.toFinset)
        = (some created).toFinset ∪ preprocesser.toFinset := by
      ext j
      simp
    rwa [hinsert] at hheld
  · intro k hk
    obtain rfl := Option.some.inj hk
    exact hnew
  · rintro k (hk | hk)
    · obtain rfl := Option.some.inj hk
      exact Nat.lt_succ_self _
    · exact Nat.lt_succ_of_lt (h.bounded k (.inr hk))

theorem SpeexObjects.createPreprocesser (h : SpeexObjects calls created resampler none) :
    SpeexObjects (calls ++ [.acquire created]) (created + 1) resampler (some created) := by
  have hnew : created ∉ resampler := fun hmem => Nat.lt_irrefl _ (h.bounded _ (.inl hmem))
  refine ⟨?_, ?_, ?_, h.count_acquire⟩
  · have hheld := h.held.acquire (r := created) (by simpa using hnew)
    have hinsert : insert created (resampler.toFinset ∪ (none : Option Nat).toFinset)
        = resampler.toFinset ∪ (some created).toFinset := by
      ext j
      simp
    rwa [hinsert] at hheld
  · intro k hk hcontra
    obtain rfl := Option.some.inj hcontra
    exact hnew hk
  · rintro k (hk | hk)
    · exact Nat.lt_succ_of_lt (h.bounded k (.inl hk))
    · obtain rfl := Option.some.inj hk
      exact Nat.lt_succ_self _

theorem SpeexObjects.destroyResampler (h : SpeexObjects calls created (some k) preprocesser) :
    SpeexObjects (calls ++ [.release k]) created none preprocesser := by
  have hnot : k ∉ preprocesser := h.distinct k rfl
  refine ⟨?_, by simp, fun j hj => h.bounded j (.inr (by simpa using hj)), ?_⟩
  · have hheld := h.held.release (r := k) (by simp)
    have herase : ((some k).toFinset ∪ preprocesser.toFinset).erase k
        = (none : Option Nat).toFinset ∪ preprocesser.toFinset := by
      ext j
      by_cases hj : j = k
      · simpa [hj] using hnot
      · simp [hj]
    rwa [herase] at hheld
  · intro j
    rw [List.count_append, h.acquired j]
    simp

theorem SpeexObjects.destroyPreprocesser (h : SpeexObjects calls created resampler (some k)) :
    SpeexObjects (calls ++ [.release k]) created resampler none := by
  have hnot : k ∉ resampler := fun hk => h.distinct k hk rfl
  refine ⟨?_, by simp, fun j hj => h.bounded j (.inl (by simpa using hj)), ?_⟩
  · have hheld := h.held.release (r := k) (by simp)
    have herase : (resampler.toFinset ∪ (some k).toFinset).erase k
        = resampler.toFinset ∪ (none : Option Nat).toFinset := by
      ext j
      by_cases hj : j = k
      · simpa [hj] using hnot
      · simp [hj]
    rwa [herase] at hheld
  · intro j
    rw [List.count_append, h.acquired j]
    simp

theorem SpeexObjects.destroyed_once (h : SpeexObjects calls created resampler preprocesser)
    (k : Nat) : calls.count (.release k) ≤ 1 := by
  have hle := h.held.disciplined.count_release_le k
  rw [h.acquired k] at hle
  split at hle <;> omega

end SpeexObjects

variable {alsa : Alsa} {s s' t : State} {h : RecordHandle} {c : Connection} {i : Iteration}

/-- The worker's members name the objects that are not destroyed. -/
def OwnsSpeex (s : State) : Prop :=
  SpeexObjects s.speexCalls s.created (s.mSpeexResampler.map (·.id))
    (s.mSpeexPreprocesser.map (·.id))

theorem OwnsSpeex.destroyResampler (hs : OwnsSpeex s) : OwnsSpeex s.destroyResampler := by
  unfold State.destroyResampler
  cases hr : s.mSpeexResampler with
  | none => exact hs
  | some r =>
    unfold OwnsSpeex at hs
    rw [hr] at hs
    exact SpeexObjects.destroyResampler hs

theorem OwnsSpeex.destroyPreprocesser (hs : OwnsSpeex s) : OwnsSpeex s.destroyPreprocesser := by
  unfold State.destroyPreprocesser
  cases hp : s.mSpeexPreprocesser with
  | none => exact hs
  | some p =>
    unfold OwnsSpeex at hs
    rw [hp] at hs
    exact SpeexObjects.destroyPreprocesser hs

theorem OwnsSpeex.createPreprocesser (hs : OwnsSpeex s) :
    OwnsSpeex (s.createPreprocesser h c) := by
  unfold State.createPreprocesser
  split
  · next hcreate =>
    unfold OwnsSpeex at hs
    rw [Option.isNone_iff_eq_none.mp hcreate.1] at hs
    exact SpeexObjects.createPreprocesser hs
  · exact hs

theorem OwnsSpeex.checkResampler (hs : OwnsSpeex s) : OwnsSpeex (s.checkResampler h) := by
  unfold State.checkResampler
  split
  · split
    · exact hs.destroyResampler
    · exact hs
  · exact hs

theorem OwnsSpeex.createResampler (hs : OwnsSpeex s) : OwnsSpeex (s.createResampler h c) := by
  unfold State.createResampler
  split
  · next hcreate =>
    have hnew : OwnsSpeex { s with
        mSpeexResampler := some ⟨s.created, h.channels, h.sampleRate, s.mClientSampleRate⟩
        created := s.created + 1
        speexCalls := s.speexCalls ++ [.acquire s.created] } := by
      unfold OwnsSpeex at hs
      rw [Option.isNone_iff_eq_none.mp hcreate.1] at hs
      exact SpeexObjects.createResampler hs
    simp only
    split
    · exact hnew.destroyResampler
    · exact hnew
  · exact hs

theorem OwnsSpeex.setupSpeex (hs : OwnsSpeex s) : OwnsSpeex (s.setupSpeex h c) := by
  unfold State.setupSpeex
  split
  · exact hs.destroyResampler
  · exact hs.createPreprocesser.checkResampler.createResampler

theorem OwnsSpeex.stop (hs : OwnsSpeex s) : OwnsSpeex s.stop := by
  have hclosed : OwnsSpeex s.closeRecorder := by
    unfold State.closeRecorder
    split <;> exact hs
  exact hclosed.destroyPreprocesser

theorem OwnsSpeex.endSession (hs : OwnsSpeex s) : OwnsSpeex s.endSession := by
  have hreleased : OwnsSpeex s.releaseStream := by
    unfold State.releaseStream
    split <;> exact hs
  exact hreleased.stop

/-! ## The rates of the resampler -/

/-- The Speex objects fit the session that records to `h`. -/
structure Fits (s : State) (h : RecordHandle) : Prop where
  resampler : s.mSpeexResampler.isSome ↔
    s.mClientSampleRate ≠ 0 ∧ s.mClientSampleRate ≠ h.sampleRate
  rates : ∀ r, s.mSpeexResampler = some r →
    r.inRate = h.sampleRate ∧ r.outRate = s.mClientSampleRate
  preprocesser : ∀ p, s.mSpeexPreprocesser = some p →
    p.frameSize = h.periodSize ∧ p.samplingRate = h.sampleRate

/-- A live resampler converts between two different rates. -/
def Converts (s : State) : Prop :=
  ∀ r, s.mSpeexResampler = some r → r.inRate ≠ r.outRate

/-- The creation calls of the connection succeed. -/
def Connection.CreatesSpeex (c : Connection) : Prop :=
  c.preprocessInit = true ∧ c.resamplerInit = true ∧ c.speexErr = 0

instance (c : Connection) : Decidable c.CreatesSpeex := by
  unfold Connection.CreatesSpeex
  infer_instance

/-- If the action gets to set up Speex, the creation calls succeed. -/
def SpeexSucceeds (_ : State) : Action → Prop
  | .connect c => c.Records → c.device.Works → c.CreatesSpeex
  | _ => True

instance (s : State) : ∀ a, Decidable (SpeexSucceeds s a)
  | .connect c => inferInstanceAs (Decidable (c.Records → c.device.Works → c.CreatesSpeex))
  | .initData _ | .iterate _ | .destruct => .isTrue trivial

theorem destroyResampler_none (s : State) : s.destroyResampler.mSpeexResampler = none := by
  unfold State.destroyResampler
  split
  · rfl
  · assumption

/-- What is left after the check is for the rates of the session. -/
theorem checkResampler_rates {r : Resampler}
    (hr : (s.checkResampler h).mSpeexResampler = some r) :
    s.mSpeexResampler = some r ∧ r.inRate = h.sampleRate ∧ r.outRate = s.mClientSampleRate := by
  unfold State.checkResampler at hr
  cases hs : s.mSpeexResampler with
  | none => simp [hs] at hr
  | some q =>
    simp only [hs] at hr
    split at hr
    · simp [destroyResampler_none] at hr
    · next hkeep =>
      obtain rfl := Option.some.inj (hs.symm.trans hr)
      simp only [ne_eq, not_or, Decidable.not_not] at hkeep
      exact ⟨rfl, hkeep⟩

theorem createPreprocesser_mSpeexResampler :
    (s.createPreprocesser h c).mSpeexResampler = s.mSpeexResampler := by
  unfold State.createPreprocesser
  split <;> rfl

/-- A resampler that is kept is for two different rates, so that the one the
session needs is there exactly when it needs one. -/
theorem setupSpeex_resampler (hconv : Converts s) (hc : c.CreatesSpeex) :
    ((s.setupSpeex h c).mSpeexResampler.isSome ↔
      s.mClientSampleRate ≠ 0 ∧ s.mClientSampleRate ≠ h.sampleRate) ∧
    ∀ r, (s.setupSpeex h c).mSpeexResampler = some r →
      r.inRate = h.sampleRate ∧ r.outRate = s.mClientSampleRate := by
  obtain ⟨-, hinit, herr⟩ := hc
  unfold State.setupSpeex
  by_cases hzero : s.mClientSampleRate = 0
  · simp [hzero, destroyResampler_none]
  rw [if_neg hzero]
  let u := (s.createPreprocesser h c).checkResampler h
  have hrate : u.mClientSampleRate = s.mClientSampleRate :=
    (checkResampler_speexOnly _ h).mClientSampleRate.trans
      (createPreprocesser_speexOnly s h c).mClientSampleRate
  have hkept : ∀ r, u.mSpeexResampler = some r → r.inRate ≠ r.outRate ∧
      r.inRate = h.sampleRate ∧ r.outRate = s.mClientSampleRate := by
    intro r hr
    obtain ⟨hs, hin, hout⟩ := checkResampler_rates hr
    rw [createPreprocesser_mSpeexResampler] at hs
    exact ⟨hconv r hs, hin, hout.trans (createPreprocesser_speexOnly s h c).mClientSampleRate⟩
  show ((u.createResampler h c).mSpeexResampler.isSome ↔ _) ∧ ∀ r,
    (u.createResampler h c).mSpeexResampler = some r → _
  unfold State.createResampler
  cases hu : u.mSpeexResampler with
  | some r =>
    obtain ⟨hne, hin, hout⟩ := hkept r hu
    have hdiff : s.mClientSampleRate ≠ h.sampleRate := by
      rw [← hin, ← hout]
      exact hne.symm
    rw [if_neg (by simp)]
    refine ⟨by simp [hu, hzero, hdiff], fun q hq => ?_⟩
    obtain rfl := Option.some.inj (hu.symm.trans hq)
    exact ⟨hin, hout⟩
  | none =>
    by_cases heq : h.sampleRate = s.mClientSampleRate
    · rw [if_neg (by simp [hrate, heq])]
      simp [hu, heq]
    · rw [if_pos (by simp [hrate, heq, hinit])]
      simp [herr, hrate, hzero, Ne.symm heq]

theorem Fits.setup (hpre : s.mSpeexPreprocesser = none) (hconv : Converts s)
    (hc : c.CreatesSpeex) :
    Fits { s.setupSpeex h c with control := .streaming } h := by
  obtain ⟨hsome, hrates⟩ := setupSpeex_resampler (h := h) hconv hc
  have hrate := (setupSpeex_speexOnly s h c).mClientSampleRate
  refine ⟨?_, ?_, fun p hp => setupSpeex_mSpeexPreprocesser hpre hp⟩
  · show (s.setupSpeex h c).mSpeexResampler.isSome ↔ (s.setupSpeex h c).mClientSampleRate ≠ 0 ∧
      (s.setupSpeex h c).mClientSampleRate ≠ _
    rw [hrate]
    exact hsome
  · intro r hr
    show _ ∧ _ = (s.setupSpeex h c).mClientSampleRate
    rw [hrate]
    exact hrates r hr

theorem Fits.converts (hs : Fits s h) : Converts s := by
  intro r hr
  obtain ⟨hin, hout⟩ := hs.rates r hr
  have hdiff := (hs.resampler.mp (by simp [hr])).2
  rw [hin, hout]
  exact hdiff.symm

/-- What a run keeps. -/
structure SpeexState (s : State) : Prop where
  phases : Phases s
  owns : OwnsSpeex s
  converts : Converts s
  fits : s.control = .streaming → ∀ h, s.mRecoder = some h → Fits s h

theorem SpeexState.init : SpeexState {} :=
  ⟨.init, .init, (fun _ hr => by cases hr), (fun hc => by cases hc)⟩

theorem SpeexState.outside (hphases : Phases s) (howns : OwnsSpeex s) (hconv : Converts s)
    (hc : s.control ≠ .streaming) : SpeexState s :=
  ⟨hphases, howns, hconv, fun hcontra => absurd hcontra hc⟩

theorem SpeexState.connect (hs : SpeexState s) (hacc : s.control = .accepting)
    (hc : SpeexSucceeds s (.connect c)) : SpeexState (s.connect alsa c) := by
  have hphases : Phases (s.connect alsa c) := hs.phases.connect hacc c
  obtain ⟨hrec, hpre⟩ := hs.phases.accepting hacc
  obtain ⟨-, heq⟩ | ⟨-, -, rate, heq⟩ | ⟨hrecords, hworks, pcm, heq⟩ |
    ⟨-, -, calls, buffer, rate, -, heq⟩ := connect_cases alsa hrec hpre c
  · rw [heq] at hphases ⊢
    exact .outside hphases hs.owns hs.converts (by simp [hacc])
  · rw [heq] at hphases ⊢
    exact .outside hphases hs.owns hs.converts (by simp [State.releaseStream, State.accept, hacc])
  · have honly := setupSpeex_speexOnly (s.session alsa c pcm) (c.device.granted alsa (some pcm)) c
    have hfits : Fits (s.connect alsa c) (c.device.granted alsa (some pcm)) := by
      rw [heq]
      exact .setup hpre hs.converts (hc hrecords hworks)
    refine ⟨hphases, ?_, hfits.converts, fun _ h hh => ?_⟩
    · have howns : OwnsSpeex (s.session alsa c pcm) := hs.owns
      rw [heq]
      exact howns.setupSpeex
    · rw [heq] at hh
      obtain rfl := Option.some.inj (honly.mRecoder.symm.trans hh)
      exact hfits
  · rw [heq] at hphases ⊢
    exact .outside hphases hs.owns hs.converts (by simp [State.pcm, State.accept, hacc])

theorem SpeexState.turnsTo (hs : SpeexState s) (ht : TurnsTo alsa s h i t) : SpeexState t := by
  have hphases : Phases t := hs.phases.turnsTo ht
  obtain ⟨calls, touched, count, -, -, rfl | rfl⟩ := ht
  · refine ⟨hphases, hs.owns, hs.converts, fun hstr g hg => ?_⟩
    have hfits : Fits s g := hs.fits hstr g hg
    exact ⟨hfits.resampler, hfits.rates, hfits.preprocesser⟩
  · have howns : OwnsSpeex (s.turned calls touched count) := hs.owns
    have hconv : Converts (s.turned calls touched count).endSession := by
      rw [endSession_eq]
      exact hs.converts
    exact .outside hphases howns.endSession hconv (by rw [endSession_eq]; simp)

/-- The step lemma. -/
theorem SpeexState.step (hs : SpeexState s) {a : Action} (ha : SpeexSucceeds s a)
    (hstep : step alsa s a = some s') : SpeexState s' := by
  have hphases : Phases s' := hs.phases.step hstep
  obtain ⟨listens, rfl, -, rfl⟩ | ⟨c, rfl, hacc, rfl⟩ | ⟨i, h, rfl, -, -, hturn⟩ | ⟨rfl, rfl⟩ :=
    step_cases hstep
  · exact .outside hphases hs.owns hs.converts (by cases listens <;> simp)
  · exact hs.connect hacc ha
  · exact hs.turnsTo hturn
  · have hnone := destroyResampler_none s.stop
    refine .outside hphases hs.owns.stop.destroyResampler (fun r hr => ?_) (by simp)
    rw [show State.mSpeexResampler _ = _ from hnone] at hr
    cases hr

/-- Over any sequence of sessions in which Speex creates what it is asked for:
in the inner loop the resampler is there exactly when the client's rate is one
to convert to, for the rates of the session; the preprocessor is for the
recorder of the session; and no Speex object is destroyed twice. -/
theorem speex_objects_fit_session (alsa : Alsa) {actions : List Action}
    (hrun : run (RecordingWorker.step alsa) {} actions = some s)
    (hspeex : Guarded (RecordingWorker.step alsa) SpeexSucceeds {} actions) :
    (s.control = .streaming → ∃ h, s.mRecoder = some h ∧
      (s.mSpeexResampler.isSome ↔
        s.mClientSampleRate ≠ 0 ∧ s.mClientSampleRate ≠ h.sampleRate) ∧
      (∀ r, s.mSpeexResampler = some r →
        r.inRate = h.sampleRate ∧ r.outRate = s.mClientSampleRate) ∧
      (∀ p, s.mSpeexPreprocesser = some p →
        p.frameSize = h.periodSize ∧ p.samplingRate = h.sampleRate)) ∧
    ∀ k, s.speexCalls.count (.release k) ≤ 1 := by
  have hs : SpeexState s :=
    run_guarded (fun _ _ _ ht ha hstep => SpeexState.step ht ha hstep) SpeexState.init hspeex hrun
  refine ⟨fun hstr => ?_, hs.owns.destroyed_once⟩
  obtain ⟨h, hh⟩ := Option.isSome_iff_exists.mp (hs.phases.inside hstr)
  have hfits := hs.fits hstr h hh
  exact ⟨h, hh, hfits.resampler, hfits.rates, hfits.preprocesser⟩

/-- A second client asks for another rate: the resampler is replaced. -/
theorem speex_objects_fit_session_second :
    ∃ s, run (RecordingWorker.step alsaLib) {} (recordRun ++
        [.connect ⟨true, true, RECORDING, true, 8000, microphone 9, true, true, 0⟩]) = some s ∧
      s.control = .streaming ∧
      s.speexCalls = [.acquire 0, .acquire 1, .release 0, .acquire 2, .release 1, .acquire 3] ∧
      (∀ r, s.mSpeexResampler = some r → r.outRate = s.mClientSampleRate) ∧
      ∀ k, s.speexCalls.count (.release k) ≤ 1 := by
  have hdone : (run (RecordingWorker.step alsaLib) {} (recordRun ++
      [.connect ⟨true, true, RECORDING, true, 8000, microphone 9, true, true, 0⟩])).map
        (fun s => (s.control, s.speexCalls)) = some (.streaming,
          [.acquire 0, .acquire 1, .release 0, .acquire 2, .release 1, .acquire 3]) := by
    decide +kernel
  obtain ⟨s, hrun, hend⟩ := Option.map_eq_some_iff.mp hdone
  obtain ⟨hstr, hcalls⟩ := Prod.mk.inj hend
  obtain ⟨hfit, honce⟩ := speex_objects_fit_session alsaLib hrun (by decide +kernel)
  obtain ⟨h, -, -, hrates, -⟩ := hfit hstr
  exact ⟨s, hrun, hstr, hcalls, fun r hr => (hrates r hr).2, honce⟩

end KmreManager.Audio.RecordingWorker
