import KmreManager.DataSocket.GpsdataGet
import KmreManager.DataSocket.SensordataGet
import Mathlib.Data.Finset.Card

/-! # The stream pointer

`updateSocket` overwrites `m_stream` without releasing what it points to, and
the second attempt of `SensordataGet` goes through it unchecked. -/
namespace KmreManager.DataSocket

open Lib.Runs Lib.Ownership

/-- No write went through a null pointer, no stream was given up unreleased, and
at most one is open. -/
structure StreamSafe (l : Link) : Prop where
  nonNull : .use none ∉ l.calls
  released : ∃ held, Holds l.calls held ∧ held.card ≤ 1

/-- The stream that a pointer owns. -/
def owned : Option Nat → Finset (Option Nat)
  | none => ∅
  | some k => {some k}

/-- The pointer owns all that is open, and connections are numbered in order. -/
structure Owner (l : Link) : Prop where
  nonNull : .use none ∉ l.calls
  holds : Holds l.calls (owned l.m_stream)
  fresh : ∀ k, l.m_stream = some k → k < l.accepted

section Links

variable {l l' : Link} {k : Nat} {frame : Frame} {stat : Int}

theorem Owner.init : Owner {} :=
  ⟨by simp, rfl, fun _ hk => by simp at hk⟩

theorem Owner.streamSafe (hl : Owner l) : StreamSafe l := by
  refine ⟨hl.nonNull, owned l.m_stream, hl.holds, ?_⟩
  cases l.m_stream with
  | none => simp [owned]
  | some k => simp [owned]

theorem Owner.writeFully (hl : Owner l) (hstream : l.m_stream = some k) :
    Owner (l.writeFully frame stat) := by
  have hholds := hl.holds
  rw [hstream] at hholds
  rw [Link.writeFully_some hstream]
  refine ⟨by simpa using hl.nonNull, ?_, hl.fresh⟩
  rw [hstream]
  exact hholds.use (Finset.mem_singleton_self _)

/-- A null pointer may be overwritten. -/
theorem Owner.accept (hl : Owner l) (hstream : l.m_stream = none) (accepts : Bool) :
    Owner (l.accept accepts) := by
  have hholds := hl.holds
  rw [hstream] at hholds
  cases accepts with
  | false =>
    rw [Link.accept_false, hstream]
    refine ⟨by simpa using hl.nonNull, ?_, fun _ hk => by simp at hk⟩
    exact hholds.forget (Finset.notMem_empty _)
  | true =>
    rw [Link.accept_true, hstream]
    refine ⟨by simpa using hl.nonNull, ?_, fun j hj => ?_⟩
    · have hacquired := hholds.acquire (Finset.notMem_empty (some l.accepted))
      have hforgot := hacquired.forget (r := none) (by simp [owned])
      simpa [owned] using hforgot
    · obtain rfl := Option.some.inj hj
      exact Nat.lt_succ_self _

/-- Overwriting a pointer to a stream loses the stream. -/
theorem Owner.not_disciplined_accept (hl : Owner l) (hstream : l.m_stream = some k)
    (accepts : Bool) : ¬ Disciplined (l.accept accepts).calls := by
  have hholds := hl.holds
  have hlt := hl.fresh k hstream
  rw [hstream] at hholds
  cases accepts with
  | false =>
    rw [Link.accept_false, hstream]
    exact hholds.not_disciplined_append (by simp [run_cons, check, owned])
  | true =>
    rw [Link.accept_true, hstream]
    refine hholds.not_disciplined_append ?_
    simp [run_cons, check, owned, Nat.ne_of_gt hlt]

theorem disciplined_of_writeFully (h : Disciplined (l.writeFully frame stat).calls) :
    Disciplined l.calls := by
  cases hstream : l.m_stream with
  | none =>
    rw [Link.writeFully_none hstream] at h
    exact h.of_append
  | some k =>
    rw [Link.writeFully_some hstream] at h
    exact h.of_append

theorem StreamSafe.disciplined (h : StreamSafe l) : Disciplined l.calls := by
  obtain ⟨held, hholds, -⟩ := h.released
  exact hholds.disciplined

variable {size : Nat} {frame₁ frame₂ : Frame} {a : Answers size}

/-- **Step lemma.** A `sendData` whose first `send` does not fail keeps the
pointer; any other one loses the stream. -/
theorem Exchange.owner (h : Exchange frame₁ frame₂ a l l') (hl : Owner l) :
    ((l.m_stream.isSome → 0 ≤ a.first.val) ∧ Owner l') ∨
      (¬ (l.m_stream.isSome → 0 ≤ a.first.val) ∧ ¬ StreamSafe l') := by
  have hfails {k : Nat} (hstream : l.m_stream = some k) (hfirst : a.first.val < 0) :
      ¬ (l.m_stream.isSome → 0 ≤ a.first.val) := fun hall =>
    Int.not_le.mpr hfirst (hall (by simp [hstream]))
  have hlost {k : Nat} (hstream : l.m_stream = some k) (accepts : Bool) :
      ¬ Disciplined ((l.writeFully frame₁ a.first).accept accepts).calls := by
    refine (hl.writeFully hstream).not_disciplined_accept (k := k) ?_ accepts
    rw [Link.writeFully_some hstream, hstream]
  cases h with
  | idle hstream => exact .inl ⟨by simp [hstream], hl⟩
  | sent hstream hfirst => exact .inl ⟨fun _ => hfirst, hl.writeFully hstream⟩
  | resent hstream hfirst =>
    refine .inr ⟨hfails hstream hfirst, fun hsafe => hlost hstream true ?_⟩
    exact disciplined_of_writeFully hsafe.disciplined
  | gaveUp hstream hfirst =>
    exact .inr ⟨hfails hstream hfirst, fun hsafe => hlost hstream false hsafe.disciplined⟩
  | crashed hstream hfirst =>
    refine .inr ⟨hfails hstream hfirst, fun hsafe => hlost hstream false ?_⟩
    exact disciplined_of_writeFully hsafe.disciplined

end Links

/-! ## The two services -/

/-- The action's first `send` through a client's stream, if it makes one, does
not fail. -/
def GpsdataGet.KeepsStream (g : GpsdataGet) : GpsdataGet.Action → Prop
  | .initData listens accepts w => listens = true → accepts = true → 0 ≤ w.answers.first.val
  | .passGpsData _ w => g.link.m_stream.isSome → 0 ≤ w.answers.first.val

/-- The action's first `send` through a client's stream, if it makes one, does
not fail. -/
def SensordataGet.KeepsStream (s : SensordataGet) : SensordataGet.Action → Prop
  | .initData _ _ => True
  | .sendData _ w => s.link.m_stream.isSome → 0 ≤ w.answers.first.val

instance (g : GpsdataGet) : ∀ a, Decidable (g.KeepsStream a)
  | .initData listens accepts w =>
    inferInstanceAs (Decidable (listens = true → accepts = true → 0 ≤ w.answers.first.val))
  | .passGpsData _ w => inferInstanceAs (Decidable (_ → 0 ≤ w.answers.first.val))

instance (s : SensordataGet) : ∀ a, Decidable (s.KeepsStream a)
  | .initData _ _ => .isTrue trivial
  | .sendData _ w => inferInstanceAs (Decidable (_ → 0 ≤ w.answers.first.val))

/-- The pointer of a service, null before `start`. -/
structure ServiceOwner (l : Link) (started : Bool) : Prop where
  owner : Owner l
  idle : started = false → l.m_stream = none

theorem ServiceOwner.init : ServiceOwner {} false := ⟨.init, fun _ => rfl⟩

/-- Without a client nothing is sent. -/
theorem Exchange.idle_eq {size : Nat} {frame₁ frame₂ : Frame} {a : Answers size} {l l' : Link}
    (h : Exchange frame₁ frame₂ a l l') (hl : l.m_stream = none) : l' = l := by
  cases h with
  | idle => rfl
  | sent hstream => simp [hl] at hstream
  | resent hstream => simp [hl] at hstream
  | gaveUp hstream => simp [hl] at hstream
  | crashed hstream => simp [hl] at hstream

theorem Exchange.serviceOwner {size : Nat} {frame₁ frame₂ : Frame} {a : Answers size}
    {l l' : Link} {started : Bool} (h : Exchange frame₁ frame₂ a l l')
    (hl : ServiceOwner l started) :
    ((l.m_stream.isSome → 0 ≤ a.first.val) ∧ ServiceOwner l' started) ∨
      (¬ (l.m_stream.isSome → 0 ≤ a.first.val) ∧ ¬ StreamSafe l') := by
  obtain ⟨hok, howner⟩ | hlost := h.owner hl.owner
  · refine .inl ⟨hok, howner, fun hidle => ?_⟩
    rw [h.idle_eq (hl.idle hidle), hl.idle hidle]
  · exact .inr hlost

theorem GpsdataGet.step_owner {g g' : GpsdataGet} {a : GpsdataGet.Action}
    (hg : ServiceOwner g.link g.started) (h : step g a = some g') :
    (KeepsStream g a ∧ ServiceOwner g'.link g'.started) ∨
      (¬ KeepsStream g a ∧ ¬ StreamSafe g'.link) := by
  obtain ⟨listens, accepts, w, rfl, hstarted, hstarted', hlink⟩ |
    ⟨gpsdata, w, rfl, hstarted', hlink⟩ := step_cases h
  · have hnone := hg.idle hstarted
    have hrun {l : Link} (hl : Owner l) : ServiceOwner l g'.started :=
      ⟨hl, fun hcontra => by simp [hstarted'] at hcontra⟩
    obtain ⟨rfl, hlink⟩ | ⟨rfl, rfl, hlink⟩ | ⟨rfl, rfl, hlink⟩ := hlink
    · exact .inl ⟨fun hcontra => by simp at hcontra, hrun (hlink ▸ hg.owner)⟩
    · exact .inl ⟨fun _ hcontra => by simp at hcontra, hrun (hlink ▸ hg.owner.accept hnone false)⟩
    · obtain ⟨hok, howner⟩ | ⟨hnot, hunsafe⟩ :=
        (sendData_exchange (g.link.accept true) g.gpsdata w).owner (hg.owner.accept hnone true)
      · exact .inl ⟨fun _ _ => hok rfl, hrun (hlink ▸ howner)⟩
      · exact .inr ⟨fun hall => hnot fun _ => hall rfl rfl, hlink ▸ hunsafe⟩
  · rw [hlink, hstarted']
    exact (sendData_exchange g.link gpsdata w).serviceOwner hg

theorem SensordataGet.step_owner {s s' : SensordataGet} {a : SensordataGet.Action}
    (hs : ServiceOwner s.link s.started) (h : step s a = some s') :
    (KeepsStream s a ∧ ServiceOwner s'.link s'.started) ∨
      (¬ KeepsStream s a ∧ ¬ StreamSafe s'.link) := by
  obtain ⟨listens, accepts, rfl, hstarted, hstarted', hlink⟩ |
    ⟨data, w, rfl, hstarted', hlink⟩ := step_cases h
  · have hnone := hs.idle hstarted
    have hrun {l : Link} (hl : Owner l) : ServiceOwner l s'.started :=
      ⟨hl, fun hcontra => by simp [hstarted'] at hcontra⟩
    obtain ⟨-, hlink⟩ | ⟨-, hlink⟩ := hlink
    · exact .inl ⟨trivial, hrun (hlink ▸ hs.owner)⟩
    · exact .inl ⟨trivial, hrun (hlink ▸ hs.owner.accept hnone accepts)⟩
  · rw [hlink, hstarted']
    exact (sendData_exchange s.link data w).serviceOwner hs

/-- The guard that `GpsdataGet` has in `writeData` is there for both attempts. -/
theorem GpsdataGet.writeData_nonNull {l : Link} (hl : .use none ∉ l.calls) (data : QString)
    (beyond : Nat → UInt8) (stat : Int) : .use none ∉ (writeData l data beyond stat).2.calls := by
  cases hstream : l.m_stream with
  | none => simpa [writeData, hstream] using hl
  | some k => simpa [writeData, hstream, Link.writeFully_some hstream] using hl

theorem accept_nonNull {l : Link} (hl : .use none ∉ l.calls) (accepts : Bool) :
    .use none ∉ (l.accept accepts).calls := by
  cases accepts <;> simpa [Link.accept] using hl

theorem GpsdataGet.sendData_nonNull {l : Link} (hl : .use none ∉ l.calls) (data : QString)
    (w : World) : .use none ∉ (GpsdataGet.sendData l data w).calls := by
  have hfirst := writeData_nonNull hl data w.beyond₁ w.answers.first
  have haccept := accept_nonNull hfirst w.answers.accepts
  unfold GpsdataGet.sendData updateSocket
  dsimp only
  split
  · split
    · exact writeData_nonNull haccept data w.beyond₂ w.answers.second
    · exact haccept
  · exact hfirst

/-- **The location service never writes through null**, whatever its socket
answers. -/
theorem GpsdataGet.run_nonNull {actions : List GpsdataGet.Action} {g : GpsdataGet}
    (h : run GpsdataGet.step {} actions = some g) : .use none ∉ g.link.calls := by
  refine run_invariant (I := fun g : GpsdataGet => .use none ∉ g.link.calls) ?_ (by simp) h
  intro s a s' hs ha
  obtain ⟨listens, accepts, w, rfl, -, -, hlink⟩ | ⟨gpsdata, w, rfl, -, hlink⟩ := step_cases ha
  · obtain ⟨-, hlink⟩ | ⟨-, -, hlink⟩ | ⟨-, -, hlink⟩ := hlink
    · exact hlink ▸ hs
    · exact hlink ▸ accept_nonNull hs false
    · exact hlink ▸ sendData_nonNull (accept_nonNull hs true) _ w
  · exact hlink ▸ sendData_nonNull hs gpsdata w

/-- The sensor service does so whenever a `send` fails and nobody connects. -/
theorem SensordataGet.sendData_null {l : Link} {data : QString} {w : World}
    (hstream : l.m_stream.isSome) (hfirst : w.answers.first.val < 0)
    (haccepts : w.answers.accepts = false) :
    .use none ∈ (SensordataGet.sendData l data w).calls := by
  simp [SensordataGet.sendData, writeData, updateSocket, hstream, hfirst, haccepts,
    Link.accept_false, Link.writeFully_none]

/-- **The stream pointer.** In a run of either service every stream is released
before the pointer to it is overwritten, and nothing is written through null, at
every moment exactly when the first `send` of no `sendData` fails. -/
theorem stream_safe_iff {gps : List GpsdataGet.Action} {sensor : List SensordataGet.Action}
    {g : GpsdataGet} {s : SensordataGet} (hgps : run GpsdataGet.step {} gps = some g)
    (hsensor : run SensordataGet.step {} sensor = some s) :
    (Guarded GpsdataGet.step GpsdataGet.KeepsStream {} gps ↔
        ∀ before t, before <+: gps → run GpsdataGet.step {} before = some t →
          StreamSafe t.link) ∧
      (Guarded SensordataGet.step SensordataGet.KeepsStream {} sensor ↔
        ∀ before t, before <+: sensor → run SensordataGet.step {} before = some t →
          StreamSafe t.link) :=
  ⟨Guarded.iff_of_step (I := fun g => ServiceOwner g.link g.started)
      (P := fun g => StreamSafe g.link) (fun _ hg => hg.owner.streamSafe)
      (fun _ _ _ hg h => GpsdataGet.step_owner hg h) .init hgps,
    Guarded.iff_of_step (I := fun s => ServiceOwner s.link s.started)
      (P := fun s => StreamSafe s.link) (fun _ hs => hs.owner.streamSafe)
      (fun _ _ _ hs h => SensordataGet.step_owner hs h) .init hsensor⟩

/-- A world in which every `send` has this result. -/
def GpsdataGet.World.always (stat : SSize frameSize) (accepts : Bool) : World :=
  ⟨⟨stat, accepts, stat⟩, fun _ => 0, fun _ => 0⟩

/-- A world in which every `send` has this result. -/
def SensordataGet.World.always (stat : SSize frameSize) (accepts : Bool) : World :=
  ⟨⟨stat, accepts, stat⟩, ⟨fun _ => 0, [], 0⟩, ⟨fun _ => 0, [], 0⟩⟩

theorem stream_safe_iff_no_failure :
    (∀ before t,
        before <+: [.initData true true (.always (.full _) true),
          .passGpsData [] (.always (.full _) true)] →
        run GpsdataGet.step {} before = some t → StreamSafe t.link) ∧
      ∀ before t,
        before <+: [.initData true true, .sendData [] (.always (.full _) true)] →
        run SensordataGet.step {} before = some t → StreamSafe t.link := by
  have hgps : run GpsdataGet.step {}
    [.initData true true (.always (.full _) true),
      .passGpsData [] (.always (.full _) true)] = some _ := rfl
  have hsensor : run SensordataGet.step {}
    [.initData true true, .sendData [] (.always (.full _) true)] = some _ := rfl
  obtain ⟨hgps, hsensor⟩ := stream_safe_iff hgps hsensor
  exact ⟨hgps.mp (by decide +kernel), hsensor.mp (by decide +kernel)⟩

/-- The location service loses the stream to which it could not send, and the
sensor service, left without a new client, writes through null. -/
theorem stream_unsafe_after_failure :
    (¬ ∀ gps g, run GpsdataGet.step {} gps = some g → StreamSafe g.link) ∧
      (¬ ∀ sensor s, run SensordataGet.step {} sensor = some s → StreamSafe s.link) ∧
      ∃ sensor s, run SensordataGet.step {} sensor = some s ∧ .use none ∈ s.link.calls := by
  have hsensor : SensordataGet.step ⟨Link.accept {} true, true⟩
    (.sendData [] (.always .failed false)) = some _ := rfl
  have hsensorRun : run SensordataGet.step {}
    [.initData true true, .sendData [] (.always .failed false)] = some _ :=
    run_cons_some.mpr ⟨_, rfl, run_cons_some.mpr ⟨_, hsensor, rfl⟩⟩
  have hnull : .use none ∈ (SensordataGet.sendData (Link.accept {} true) []
      (.always .failed false)).calls :=
    SensordataGet.sendData_null rfl (by decide) rfl
  refine ⟨fun hall => ?_, fun hall => (hall _ _ hsensorRun).nonNull hnull,
    _, _, hsensorRun, hnull⟩
  have hgps : GpsdataGet.step {} (.initData true true (.always .failed true)) = some _ := rfl
  obtain ⟨hkeeps, -⟩ | ⟨-, hunsafe⟩ := GpsdataGet.step_owner .init hgps
  · exact absurd (hkeeps rfl rfl) (by decide)
  · exact hunsafe (hall [_] _ (run_cons_some.mpr ⟨_, hgps, rfl⟩))

end KmreManager.DataSocket
