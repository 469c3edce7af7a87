import Mathlib.Algebra.Group.Nat.Defs
import Mathlib.Algebra.Group.Int.Defs
import KmreManager.Audio.RecordingWorker.Step

/-! # The initialisation of the recorder

`initRecoder` again, with the calls on the hw params object that `negotiate`
leaves out: one `snd_pcm_hw_params_malloc`, a use in every step of the
negotiation and `snd_pcm_hw_params_free` on the way out. The object is local to
the function, so one that is not freed there is lost. -/
namespace KmreManager.Audio.RecordingWorker

open Lib.Runs Lib.Ownership

/-! ## The negotiation with the hw params object -/

/-- The calls on the hw params object so far; a failure is a `break`. -/
abbrev Negotiation := OptionT (StateM (List (Call Unit)))

/-- A call that is given the hw params object. -/
def Negotiation.call (result : Int) : Negotiation Int := do
  modify fun calls => calls ++ [.use ()]
  return result

/-- One whose failure ends the negotiation. -/
def Negotiation.require (result : Int) : Negotiation Unit := do
  let result ← Negotiation.call result
  guard (0 ≤ result)

/-- `for (auto format : SampleFormats)`. -/
def Device.findFormat (d : Device) : List Format → Negotiation (Option Format)
  | [] => return none
  | format :: formats => do
    if (← Negotiation.call (d.testFormat format)) = 0 then return some format
    else d.findFormat formats

def Device.chooseFormatHw (d : Device) (h : RecordHandle) : Negotiation RecordHandle := do
  if (← Negotiation.call d.testClientFormat) < 0 then
    let h := match ← d.findFormat sampleFormats with
      | some format => { h with sampleFormat := format }
      | none => h
    if h.sampleFormat.code = 0 then failure else return h
  else return { h with sampleFormat := clientSampleFormat }

def Device.negotiateHw (alsa : Alsa) (d : Device) (h : RecordHandle) :
    Negotiation RecordHandle := do
  Negotiation.require d.hwParamsAny
  Negotiation.require d.setAccess
  let h ← d.chooseFormatHw h
  Negotiation.require d.setFormat
  let h := { h with channels := defaultNumChannels }
  Negotiation.require d.setChannels
  Negotiation.require d.setRateNear
  let h := { h with sampleRate := uint32 d.rate }
  Negotiation.require d.setPeriodSizeNear
  let h := { h with periodSize := uint32 d.periodSize }
  Negotiation.require d.setBufferSizeNear
  let h := { h with bufferSize := uint32 d.bufferSize }
  Negotiation.require d.hwParams
  let h := { h with bitsPerSample := alsa.physicalWidth h.sampleFormat }
  let h := { h with sampleBytes := sizeT (h.bitsPerSample / 8 * h.channels) }
  return { h with periodBytes := sizeT (h.periodSize * h.sampleBytes) }

/-- `initRecoder` and its calls on the hw params object. -/
def State.initRecoderHw (alsa : Alsa) (d : Device) (s : State) (h : RecordHandle) :
    (Bool × State) × List (Call Unit) :=
  let h := { h with periodSize := RECORDING_BUF_SIZE, bufferSize := RECORDING_BUF_SIZE * 8 }
  if d.hwParamsMalloc < 0 then ((false, { s with mRecoder := some h }), [])
  else
    let calls := [.acquire ()]
    match d.sndPcmOpen with
    | none => ((false, { s with mRecoder := some h }.pcm [.sndPcmOpen h.pcm none]), calls)
    | some pcm =>
      let s := s.pcm [.sndPcmOpen h.pcm (some pcm)]
      let h := { h with pcm := some pcm }
      match (d.negotiateHw alsa h).run.run calls with
      | (some h, calls) =>
        let s := { s with mRecoder := some h, mReadBuffer := byteArray h.periodBytes }
        let s := s.pcm [.sndPcmStart h.pcm]
        if d.sndPcmStart < 0 then
          ((false, s.pcm [.sndPcmClose h.pcm]), calls ++ [.release ()])
        else ((true, s), calls ++ [.release ()])
      | (none, calls) =>
        ((false, { s with mRecoder := some h }.pcm [.sndPcmClose h.pcm]), calls ++ [.release ()])

/-- The negotiation comes to `result` and only uses the hw params object. -/
def Negotiation.Computes {α : Type} (m : Negotiation α) (result : Option α) : Prop :=
  ∀ calls, ∃ k, m.run.run calls = (result, calls ++ List.replicate k (.use ()))

namespace Negotiation.Computes

variable {α β : Type} {m : Negotiation α} {f : α → Negotiation β}
  {result : Option α} {g : α → Option β}

theorem pure (a : α) : Computes (Pure.pure a) (some a) :=
  fun calls => ⟨0, by simp; rfl⟩

theorem failure : Computes (Alternative.failure : Negotiation α) none :=
  fun calls => ⟨0, by simp; rfl⟩

theorem bind (hm : Computes m result) (hf : ∀ a, result = some a → Computes (f a) (g a)) :
    Computes (m >>= f) (result.bind g) := by
  intro calls
  obtain ⟨k, hk⟩ := hm calls
  have hrun : (m >>= f).run.run calls = match m.run.run calls with
      | (some a, calls) => (f a).run.run calls
      | (none, calls) => (none, calls) := by
    simp only [OptionT.run_bind, Option.elimM, StateT.run_bind]
    rcases m.run.run calls with ⟨_ | a, mid⟩ <;> rfl
  rw [hrun, hk]
  cases result with
  | none => exact ⟨k, rfl⟩
  | some a =>
    obtain ⟨j, hj⟩ := hf a rfl (calls ++ List.replicate k (.use ()))
    refine ⟨k + j, ?_⟩
    rw [List.replicate_add, ← List.append_assoc]
    exact hj

/-- After a call that comes to a value, only that value counts. -/
theorem next {a : α} {after : Option β} (hm : Computes m (some a)) (hf : Computes (f a) after) :
    Computes (m >>= f) after :=
  hm.bind (g := fun _ => after) fun _ ha => Option.some.inj ha ▸ hf

theorem checked (h : RecordHandle) :
    Computes (if h.sampleFormat.code = 0 then Alternative.failure else Pure.pure h)
      (if h.sampleFormat.code = 0 then none else some h) := by
  split
  · exact failure
  · exact pure h

theorem call (r : Int) : Computes (Negotiation.call r) (some r) :=
  fun _ => ⟨1, rfl⟩

theorem require (r : Int) : Computes (Negotiation.require r) (guard (0 ≤ r)) := by
  refine (call r).next ?_
  by_cases hr : 0 ≤ r
  · simpa [guard, hr] using pure ()
  · simpa [guard, hr] using failure

end Negotiation.Computes

section Negotiate

open Negotiation.Computes

variable {alsa : Alsa} {d : Device} {h : RecordHandle}

theorem Device.findFormat_computes (d : Device) (formats : List Format) :
    (d.findFormat formats).Computes
      (some (formats.find? fun format => d.testFormat format = 0)) := by
  induction formats with
  | nil => exact pure none
  | cons format formats ih =>
    refine (call _).next ?_
    by_cases hr : d.testFormat format = 0
    · simpa [hr] using pure (some format)
    · simpa [hr] using ih

theorem Device.chooseFormatHw_computes (d : Device) (h : RecordHandle) :
    (d.chooseFormatHw h).Computes (d.chooseFormat h) := by
  refine (call _).next ?_
  by_cases hclient : d.testClientFormat < 0
  · rw [if_pos hclient, chooseFormat, if_pos hclient]
    refine (d.findFormat_computes _).next ?_
    cases sampleFormats.find? fun format => d.testFormat format = 0 with
    | none => exact checked _
    | some format => exact checked { h with sampleFormat := format }
  · rw [if_neg hclient, chooseFormat, if_neg hclient]
    exact pure _

/-- The calls on the hw params object change nothing of the negotiation. -/
theorem Device.negotiateHw_computes (alsa : Alsa) (d : Device) (h : RecordHandle) :
    (d.negotiateHw alsa h).Computes (d.negotiate alsa h) := by
  refine (require _).bind fun _ _ => (require _).bind fun _ _ =>
    (d.chooseFormatHw_computes h).bind fun h _ => ?_
  exact (require _).bind fun _ _ => (require _).bind fun _ _ => (require _).bind fun _ _ =>
    (require _).bind fun _ _ => (require _).bind fun _ _ => (require _).bind fun _ _ => pure _

end Negotiate

/-! ## The whole function -/

section Init

variable {alsa : Alsa} {d : Device} {s : State} {h : RecordHandle}

theorem State.initRecoderHw_fst : (s.initRecoderHw alsa d h).1 = s.initRecoder alsa d h := by
  unfold State.initRecoderHw State.initRecoder
  dsimp only
  split
  · rfl
  cases d.sndPcmOpen with
  | none => rfl
  | some pcm =>
    obtain ⟨k, hk⟩ := d.negotiateHw_computes alsa
      { h with periodSize := RECORDING_BUF_SIZE, bufferSize := RECORDING_BUF_SIZE * 8,
               pcm := some pcm } [.acquire ()]
    dsimp only at hk ⊢
    rw [hk]
    cases d.negotiate alsa _ with
    | none => rfl
    | some h => dsimp only; split <;> rfl

/-- Behind the early returns the object is used and freed. -/
theorem State.initRecoderHw_calls (alsa : Alsa) (s : State) (h : RecordHandle)
    (hmalloc : 0 ≤ d.hwParamsMalloc) (hopen : d.sndPcmOpen.isSome) :
    ∃ k, (s.initRecoderHw alsa d h).2
      = [.acquire ()] ++ List.replicate k (.use ()) ++ [.release ()] := by
  obtain ⟨pcm, hpcm⟩ := Option.isSome_iff_exists.mp hopen
  obtain ⟨k, hk⟩ := d.negotiateHw_computes alsa
    { h with periodSize := RECORDING_BUF_SIZE, bufferSize := RECORDING_BUF_SIZE * 8,
             pcm := some pcm } [.acquire ()]
  refine ⟨k, ?_⟩
  unfold State.initRecoderHw
  dsimp only at hk ⊢
  rw [if_neg (Int.not_lt.mpr hmalloc), hpcm]
  dsimp only
  rw [hk]
  cases d.negotiate alsa _ with
  | none => rfl
  | some h => dsimp only; split <;> rfl

theorem State.initRecoderHw_holds (alsa : Alsa) (s : State) (h : RecordHandle)
    (hmalloc : 0 ≤ d.hwParamsMalloc) (hopen : d.sndPcmOpen.isSome) :
    Holds (s.initRecoderHw alsa d h).2 ∅ := by
  obtain ⟨k, hk⟩ := s.initRecoderHw_calls alsa h hmalloc hopen
  have hused : ∀ k, Holds ([.acquire ()] ++ List.replicate k (.use ())) {()} := by
    intro k
    induction k with
    | zero => decide
    | succ k ih =>
      rw [List.replicate_succ', ← List.append_assoc]
      exact ih.use (by simp)
  rw [hk]
  exact (hused k).release (by simp)

end Init

/-! ## What the initialisation promises -/

/-- Every mandatory ALSA call succeeds. -/
def Device.Succeeds (d : Device) : Prop :=
  0 ≤ d.hwParamsMalloc ∧ d.sndPcmOpen.isSome ∧ 0 ≤ d.hwParamsAny ∧ 0 ≤ d.setAccess ∧
    0 ≤ d.setFormat ∧ 0 ≤ d.setChannels ∧ 0 ≤ d.setRateNear ∧ 0 ≤ d.setPeriodSizeNear ∧
    0 ≤ d.setBufferSizeNear ∧ 0 ≤ d.hwParams ∧ 0 ≤ d.sndPcmStart

def Device.Offers (d : Device) (format : Format) : Prop :=
  format = clientSampleFormat ∧ 0 ≤ d.testClientFormat ∨
    format ∈ sampleFormats ∧ d.testFormat format = 0

/-- The record describes the stream the device has granted, in a format it
offers, and `mReadBuffer` holds one period of it. -/
def State.Describes (alsa : Alsa) (d : Device) (s : State) : Prop :=
  ∃ h, s.mRecoder = some h ∧ d.Offers h.sampleFormat ∧
    h.sampleBytes = alsa.physicalWidth h.sampleFormat / 8 * h.channels ∧
    h.periodBytes = d.periodSize * h.sampleBytes ∧ s.mReadBuffer = h.periodBytes

/-- If the object was allocated it was freed once, and not used after that. -/
def Device.FreesOnce (d : Device) (calls : List (Call Unit)) : Prop :=
  Disciplined calls ∧ (0 ≤ d.hwParamsMalloc → calls.count (.release ()) = 1)

structure Device.Initialises (alsa : Alsa) (d : Device)
    (result : (Bool × State) × List (Call Unit)) : Prop where
  complete : result.1.1 = true ↔ d.Succeeds ∧ ∃ format, d.Offers format
  describes : result.1.1 = true → result.1.2.Describes alsa d
  freesOnce : d.FreesOnce result.2

section Contract

variable {alsa : Alsa} {d : Device} {s : State}

theorem Device.works_iff : d.Works ↔ d.Succeeds ∧ d.FindsFormat := by
  unfold Device.Works Device.Negotiates Device.Succeeds
  tauto

/-- The search misses a device that offers S8 only. -/
theorem Device.offers_iff :
    (∃ format, d.Offers format) ↔ d.FindsFormat ∨ d.testFormat .S8 = 0 := by
  constructor
  · rintro ⟨_ | _, ⟨hclient, htest⟩ | ⟨-, htest⟩⟩
    · cases hclient
    · exact .inr htest
    · exact .inl (.inl htest)
    · exact .inl (.inr htest)
  · intro h
    obtain (hclient | h16) | h8 := h
    · exact ⟨.S16_LE, .inl ⟨rfl, hclient⟩⟩
    · exact ⟨.S16_LE, .inr ⟨by simp [sampleFormats], h16⟩⟩
    · exact ⟨.S8, .inr ⟨by simp [sampleFormats], h8⟩⟩

theorem State.initRecoder_eq_true : (s.initRecoder alsa d {}).1 = true ↔ d.Works := by
  constructor
  · intro hinit
    by_contra hd
    obtain ⟨h, calls, buffer, hfails, -⟩ := s.initRecoder_of_fails alsa hd
    simp [hfails] at hinit
  · intro hd
    obtain ⟨pcm, hinit⟩ := s.initRecoder_of_works alsa hd
    rw [hinit]

/-- The sizes of the record are the granted ones unless a period has 2^30 frames,
whose 2^31 bytes the int parameter of `QByteArray` does not take. -/
theorem State.describes_iff (pcm : Handle) (hd : d.FindsFormat)
    (hrecord : s.mRecoder = some (d.granted alsa pcm))
    (hbuffer : s.mReadBuffer = byteArray (d.granted alsa pcm).periodBytes) :
    s.Describes alsa d ↔ d.periodSize < 2 ^ 30 := by
  have hoffers : d.Offers .S16_LE :=
    hd.imp (fun h => ⟨rfl, h⟩) fun h => ⟨by simp [sampleFormats], h⟩
  have hbytes := granted_periodBytes alsa d pcm
  have hsample : (d.granted alsa pcm).sampleBytes = 2 := by
    simp only [Device.granted, alsa.physicalWidth_S16_LE, defaultNumChannels]
    rfl
  have hwidth : 2 = alsa.physicalWidth (d.granted alsa pcm).sampleFormat / 8
      * (d.granted alsa pcm).channels := by
    simp only [Device.granted, alsa.physicalWidth_S16_LE, defaultNumChannels]
  have hperiod : (d.granted alsa pcm).periodSize = d.periodSize % 2 ^ 32 := rfl
  unfold State.Describes
  rw [hrecord]
  constructor
  · rintro ⟨h, heq, -, -, hperiodBytes, hread⟩
    cases heq
    rw [hsample] at hperiodBytes
    have hlt := byteArray_eq_self.mp (hbuffer.symm.trans hread)
    omega
  · intro hlt
    refine ⟨_, rfl, hoffers, hsample.trans hwidth, ?_, ?_⟩
    · rw [hsample]
      omega
    · rw [hbuffer]
      exact byteArray_eq_self.mpr (by omega)

theorem State.freesOnce_iff {h : RecordHandle} :
    d.FreesOnce (s.initRecoderHw alsa d h).2 ↔ (0 ≤ d.hwParamsMalloc → d.sndPcmOpen.isSome) := by
  constructor
  · intro hfrees hmalloc
    by_contra hopen
    have hnone : d.sndPcmOpen = none := by simpa using hopen
    have hcalls : (s.initRecoderHw alsa d h).2 = [.acquire ()] := by
      simp only [State.initRecoderHw, hnone, if_neg (Int.not_lt.mpr hmalloc)]
    have hone := hfrees.2 hmalloc
    rw [hcalls] at hone
    cases hone
  · intro hopen
    by_cases hmalloc : 0 ≤ d.hwParamsMalloc
    · obtain ⟨k, hcalls⟩ := s.initRecoderHw_calls alsa h hmalloc (hopen hmalloc)
      refine ⟨(s.initRecoderHw_holds alsa h hmalloc (hopen hmalloc)).disciplined, fun _ => ?_⟩
      rw [hcalls]
      simp [List.count_replicate]
    · have hcalls : (s.initRecoderHw alsa d h).2 = [] := by
        simp only [State.initRecoderHw, if_pos (Int.not_le.mp hmalloc)]
      rw [hcalls]
      exact ⟨holds_nil.disciplined, fun h => absurd h hmalloc⟩

/-- **The initialisation.** It keeps its promises exactly when the PCM device
opens once the hw params object is allocated, a device that offers S8 offers
S16_LE too, and the period that is granted has less than 2^30 frames. -/
theorem initialises_iff (alsa : Alsa) (d : Device) (s : State) :
    d.Initialises alsa (s.initRecoderHw alsa d {}) ↔
      (0 ≤ d.hwParamsMalloc → d.sndPcmOpen.isSome) ∧
      (d.Succeeds → d.testFormat .S8 = 0 → d.FindsFormat) ∧
      (d.Works → d.periodSize < 2 ^ 30) := by
  have hcomplete : ((s.initRecoderHw alsa d {}).1.1 = true ↔
      d.Succeeds ∧ ∃ format, d.Offers format) ↔
      (d.Succeeds → d.testFormat .S8 = 0 → d.FindsFormat) := by
    rw [State.initRecoderHw_fst, State.initRecoder_eq_true, Device.works_iff, Device.offers_iff,
      and_congr_right_iff, iff_self_or]
  have hdescribes : ((s.initRecoderHw alsa d {}).1.1 = true →
      (s.initRecoderHw alsa d {}).1.2.Describes alsa d) ↔ (d.Works → d.periodSize < 2 ^ 30) := by
    rw [State.initRecoderHw_fst, State.initRecoder_eq_true]
    refine forall_congr' fun hd => ?_
    obtain ⟨pcm, hinit⟩ := s.initRecoder_of_works alsa hd
    rw [hinit]
    exact State.describes_iff (some pcm) hd.2.2.1.2.2.1 (by simp only [State.pcm])
      (by simp only [State.pcm])
  constructor
  · intro h
    exact ⟨State.freesOnce_iff.mp h.freesOnce, hcomplete.mp h.complete, hdescribes.mp h.describes⟩
  · rintro ⟨hopen, hformat, hperiod⟩
    exact ⟨hcomplete.mpr hformat, hdescribes.mpr hperiod, State.freesOnce_iff.mpr hopen⟩

end Contract

/-- A device that is busy: the object allocated for it is lost. -/
theorem busy_not_initialises :
    ¬ ({ microphone 7 with sndPcmOpen := none } : Device).Initialises alsaLib
      (State.initRecoderHw alsaLib { microphone 7 with sndPcmOpen := none } {} {}) := by
  intro h
  exact absurd (h.freesOnce.2 (by decide)) (by decide)

end KmreManager.Audio.RecordingWorker
