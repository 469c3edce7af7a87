import KmreManager.Audio.PlaybackWorker.Chunks

/-! # Playback without gaps

The position in the chunk is not kept: what a short write leaves, and the whole
of a chunk that meets a suspended device, is not written again. -/
namespace KmreManager.Audio.PlaybackWorker

open Lib.Runs Lib.BlockWrites

variable {alsa : Alsa} {t t' : Stream} {e : Event} {events : List Event} {turn : Turn}
  {h : PlaybackHandle}

/-- As long as the inner loop is not left, the device has accepted what was
received from the client. -/
def Stream.Gapless (t : Stream) : Prop :=
  t.worker.control = .streaming → transmitted t.writes = t.received.flatten

/-- A buffer has 960 frames of 4 bytes. One call accepts all of them: the first
one, or the one that follows an underrun. -/
def Turn.Delivers (turn : Turn) : Prop :=
  960 ≤ turn.writei ∨ (turn.writei = -EPIPE ∧ 960 ≤ turn.rewrite)

instance (turn : Turn) : Decidable turn.Delivers := inferInstanceAs (Decidable (_ ∨ _))

/-- A turn that stays in the loop delivers its chunk. -/
def Event.Delivers : Event → Prop
  | .iterate turn => ¬ turn.Breaks → turn.Delivers
  | _ => True

instance : DecidablePred Event.Delivers
  | .iterate turn => inferInstanceAs (Decidable (¬ turn.Breaks → turn.Delivers))
  | .initData _ _ | .exitPlayback | .connect _ | .destruct => .isTrue trivial

/-- The bytes of so many frames are the chunk. -/
theorem Turn.bytes_eq_chunk (turn : Turn) (n : Int) (hbytes : h.sampleBytes = 4) :
    (Write.mk turn.chunk.val (n.toNat * h.sampleBytes)).bytes = turn.chunk.val ↔ 960 ≤ n := by
  rw [Write.bytes_eq_block]
  simp only [turn.chunk.property, hbytes, PLAYBACK_BUF_SIZE]
  omega

/-- What the device accepts in a turn that stays in the loop. -/
theorem Turn.transmitted_writes (hbytes : h.sampleBytes = 4) (hstays : ¬ turn.Breaks) :
    transmitted (turn.writes h turn.results) = turn.chunk.val ↔ turn.Delivers := by
  rw [Turn.breaks_iff] at hstays
  simp only [not_or, not_and, Bool.not_eq_false, Int.not_lt] at hstays
  obtain ⟨hread, hprepare, -⟩ := hstays
  unfold Turn.writes Turn.results Turn.Delivers
  simp only [hread, Bool.not_true, Bool.false_eq_true, if_false]
  by_cases hpipe : turn.writei = -EPIPE
  · have hnone : (Write.mk turn.chunk.val (turn.writei.toNat * h.sampleBytes)).bytes = [] := by
      simp [hpipe, EPIPE, Write.bytes]
    have hlow : ¬ 960 ≤ turn.writei := by simp [hpipe, EPIPE]
    rw [if_pos ⟨hpipe, hprepare hpipe⟩, List.map_cons, List.map_singleton,
      ← List.singleton_append, transmitted_append, transmitted_singleton, transmitted_singleton,
      hnone, List.nil_append, turn.bytes_eq_chunk _ hbytes]
    rw [or_iff_right hlow, and_iff_right hpipe]
  · rw [if_neg fun hcontra => hpipe hcontra.1, List.map_singleton, transmitted_singleton,
      turn.bytes_eq_chunk _ hbytes]
    simp [hpipe]

/-! ## Runs -/

/-- What the condition keeps. -/
structure Playing (t : Stream) : Prop where
  negotiated : Negotiated t.worker
  gapless : t.Gapless

theorem Playing.init : Playing {} := ⟨Negotiated.of_none rfl, fun _ => rfl⟩

/-- An event outside of the loop. -/
theorem Stream.gapless_of_step (ht : t.Gapless) (h : t.step alsa e = some t')
    (he : ∀ turn, e ≠ .iterate turn) : t'.Gapless := by
  obtain ⟨s, hs, rfl⟩ := Option.map_eq_some_iff.mp h
  cases e with
  | initData d listens =>
    obtain ⟨-, heq⟩ := Option.ite_none_right_eq_some.mp hs
    intro hstreaming
    split at heq
    · obtain rfl := Option.some.inj heq
      cases listens <;> cases hstreaming
    · obtain rfl := Option.some.inj heq
      cases hstreaming
  | exitPlayback =>
    obtain rfl := Option.some.inj hs
    exact ht
  | connect c => exact fun _ => rfl
  | iterate turn => exact absurd rfl (he turn)
  | destruct =>
    obtain ⟨-, heq⟩ := Option.ite_none_left_eq_some.mp hs
    obtain rfl := Option.some.inj heq
    exact fun hstreaming => by cases hstreaming

/-- **Step lemma.** A turn that stays in the loop keeps the two sequences equal
if it delivers its chunk, and makes them differ if it does not. -/
theorem Playing.step (ht : Playing t) (h : t.step alsa e = some t') :
    (e.Delivers ∧ Playing t') ∨ (¬ e.Delivers ∧ ¬ t'.Gapless) := by
  have hnegotiated : Negotiated t'.worker := by
    obtain ⟨s, hs, rfl⟩ := Option.map_eq_some_iff.mp h
    rw [Stream.after_worker]
    exact ht.negotiated.step hs
  cases e with
  | initData | exitPlayback | connect | destruct =>
    exact .inl ⟨trivial, hnegotiated, Stream.gapless_of_step ht.gapless h (by simp)⟩
  | iterate turn =>
    obtain ⟨handle, hstreaming, hhandle, rfl⟩ := Stream.step_iterate h
    have hcontrol := iterate_control (h := handle) (i := turn.toIteration) hstreaming
    by_cases hbreaks : turn.Breaks
    · refine .inl ⟨fun hstays => absurd hbreaks hstays, hnegotiated, fun hcontra => ?_⟩
      exact absurd hbreaks (hcontrol.mp hcontra)
    · have hread : turn.read = true := by
        rw [Turn.breaks_iff, not_or] at hbreaks
        exact Bool.eq_true_of_not_eq_false hbreaks.1
      have hdelivers : turn.Delivers ↔
          transmitted (t.writes ++ turn.writes handle turn.results) =
            (t.received ++ [turn.chunk.val]).flatten := by
        rw [transmitted_append_eq (ht.gapless hstreaming)]
        exact (Turn.transmitted_writes (ht.negotiated handle hhandle) hbreaks).symm
      simp only [hread, if_true] at hnegotiated ⊢
      by_cases hd : turn.Delivers
      · exact .inl ⟨fun _ => hd, hnegotiated, fun _ => hdelivers.mp hd⟩
      · refine .inr ⟨fun hcontra => hd (hcontra hbreaks), fun hgapless => ?_⟩
        exact hd (hdelivers.mpr (hgapless (hcontrol.mpr hbreaks)))

theorem Playing.run (hall : ∀ e ∈ events, e.Delivers)
    (hrun : run (Stream.step alsa) {} events = some t) : Playing t := by
  have hg := (Guarded.iff_forall_mem hrun).mpr hall
  refine run_guarded (I := Playing) (fun s e s' hs he hstep => ?_) .init hg hrun
  obtain ⟨-, hs'⟩ | ⟨hcontra, -⟩ := hs.step hstep
  · exact hs'
  · exact absurd he hcontra

/-- **Gapless playback.** In a run what the device has accepted is, as long as a
session stays in its loop, what was received from its client, if and only if
every turn that stays in the loop has a call that accepts the whole chunk. -/
theorem gapless_iff (hrun : run (Stream.step alsa) {} events = some t) :
    (∀ before u, before <+: events → run (Stream.step alsa) {} before = some u → u.Gapless) ↔
      ∀ e ∈ events, e.Delivers := by
  rw [← Guarded.iff_forall_mem hrun]
  exact (Guarded.iff_of_step (I := Playing) (fun _ ht => ht.gapless)
    (fun _ _ _ ht hstep => ht.step hstep) .init hrun).symm

theorem gapless_iff_two_chunks : ∃ t, run (Stream.step alsaLib) {} twoChunks = some t ∧
    ∀ before u, before <+: twoChunks → run (Stream.step alsaLib) {} before = some u →
      u.Gapless := by
  have hdone : (run (Stream.step alsaLib) {} twoChunks).isSome := by decide +kernel
  obtain ⟨t, hrun⟩ := Option.isSome_iff_exists.mp hdone
  exact ⟨t, hrun, (gapless_iff hrun).mpr (by decide +kernel)⟩

/-- 500 frames of 960 are accepted, and the others are never written. -/
theorem short_write_drops : ¬ ∀ alsa events t, run (Stream.step alsa) {} events = some t →
    t.Gapless := by
  intro hall
  let short : Event := .iterate (silence 500 0 0 (by decide))
  have hdone : (run (Stream.step alsaLib) {} (started ++ [short])).isSome := by decide +kernel
  obtain ⟨u, hrun⟩ := Option.isSome_iff_exists.mp hdone
  obtain ⟨t, hstarted, hu⟩ := run_append_some.mp hrun
  obtain ⟨u', hstep, hu'⟩ := run_cons_some.mp hu
  obtain rfl := Option.some.inj hu'
  have ht : Playing t := .run (by decide) hstarted
  obtain ⟨hcontra, -⟩ | ⟨-, hgap⟩ := ht.step hstep
  · exact absurd hcontra (by decide)
  · exact hgap (hall _ _ _ hrun)

end KmreManager.Audio.PlaybackWorker
