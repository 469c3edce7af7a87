import KmreManager.DataSocket.GpsdataGet
import KmreManager.DataSocket.SensordataGet

/-! # Whole frames on every connection

`writeFully` of these services makes one `send` and hands its result up, where
only a negative one is looked at. A short count leaves a part of a frame on the
connection, and the next frame follows it. -/
namespace KmreManager.DataSocket

open Lib.Runs Lib.BlockWrites

/-- Every connection was sent whole frames only, out of those handed over to it. -/
def Delivered (l : Link) : Prop := ∀ k, Whole (l.writes k)

/-- `send` takes all bytes, or none (as when it fails). -/
def SSize.Complete {size : Nat} (stat : SSize size) : Prop := stat.val ≤ 0 ∨ stat.val = size

instance {size : Nat} (stat : SSize size) : Decidable stat.Complete :=
  inferInstanceAs (Decidable (_ ∨ _))

/-- Every `send` that a `sendData` with a client makes is complete. -/
def Answers.Complete {size : Nat} (a : Answers size) : Prop :=
  a.first.Complete ∧ (a.first.val < 0 → a.accepts = true → a.second.Complete)

instance {size : Nat} (a : Answers size) : Decidable a.Complete :=
  inferInstanceAs (Decidable (_ ∧ (_ → _)))

/-- What was delivered, and that all that was handed over were frames. -/
structure Intact (size : Nat) (l : Link) : Prop where
  fits : ∀ k, ∀ w ∈ l.writes k, w.Fits size
  whole : Delivered l

section Links

variable {size k : Nat} {l l' : Link} {frame : Frame} {stat : SSize size}

theorem Intact.init : Intact size {} :=
  ⟨fun _ _ hw => by simp [Link.writes] at hw, fun _ => .nil⟩

theorem Intact.of_sends (hl : Intact size l) (hsends : l'.sends = l.sends) : Intact size l' := by
  have hwrites : l'.writes = l.writes := by
    funext k
    rw [Link.writes, Link.writes, hsends]
  exact ⟨hwrites ▸ hl.fits, fun k => hwrites ▸ hl.whole k⟩

theorem fits_of_frame (hframe : frame.length = size) (stat : SSize size) :
    Write.Fits size ⟨frame, stat.val.toNat⟩ := by
  have hle := stat.property
  exact ⟨hframe, Int.toNat_le.mpr hle⟩

theorem allOrNone_iff (hframe : frame.length = size) (stat : SSize size) :
    Write.AllOrNone ⟨frame, stat.val.toNat⟩ ↔ stat.Complete := by
  simp only [Write.AllOrNone, SSize.Complete, hframe]
  omega

/-- A complete `send` delivers a whole frame or nothing. -/
theorem Intact.writeFully (hl : Intact size l) (hframe : frame.length = size)
    (hstream : l.m_stream = some k) (hstat : stat.Complete) :
    Intact size (l.writeFully frame stat) := by
  constructor
  · intro j w hw
    rw [Link.writes_writeFully hstream] at hw
    obtain hw | hw := List.mem_append.mp hw
    · exact hl.fits j w hw
    · obtain rfl := List.mem_singleton.mp ((List.mem_ite_nil_right.mp hw).2)
      exact fits_of_frame hframe stat
  · intro j
    rw [Link.writes_writeFully hstream]
    by_cases hj : k = j
    · rw [if_pos hj]
      exact (hl.whole j).concat ((allOrNone_iff hframe stat).mpr hstat)
    · rw [if_neg hj, List.append_nil]
      exact hl.whole j

/-- A short count breaks the frames of its connection. -/
theorem Intact.not_delivered_writeFully (hl : Intact size l) (hframe : frame.length = size)
    (hstream : l.m_stream = some k) (hstat : ¬ stat.Complete) :
    ¬ Delivered (l.writeFully frame stat) := by
  intro hwhole
  have hk := hwhole k
  rw [Link.writes_writeFully hstream, if_pos rfl] at hk
  refine (hl.whole k).not_concat (hl.fits k) (fits_of_frame hframe stat) ?_ hk
  exact mt (allOrNone_iff hframe stat).mp hstat

theorem Intact.accept (hl : Intact size l) (accepts : Bool) : Intact size (l.accept accepts) :=
  hl.of_sends (l.accept_sends accepts)

theorem complete_of_neg (hneg : stat.val < 0) : stat.Complete := .inl (Int.le_of_lt hneg)

variable {frame₁ frame₂ : Frame} {a : Answers size}

/-- **Step lemma.** A `sendData` all of whose sends are complete keeps the frames
whole; any other one breaks them. -/
theorem Exchange.intact (h : Exchange frame₁ frame₂ a l l') (hframe₁ : frame₁.length = size)
    (hframe₂ : frame₂.length = size) (hl : Intact size l) :
    ((l.m_stream.isSome → a.Complete) ∧ Intact size l') ∨
      (¬ (l.m_stream.isSome → a.Complete) ∧ ¬ Delivered l') := by
  cases h with
  | idle hstream => exact .inl ⟨by simp [hstream], hl⟩
  | sent hstream hfirst =>
    have hsome : l.m_stream.isSome := by simp [hstream]
    by_cases hstat : a.first.Complete
    · refine .inl ⟨fun _ => ⟨hstat, fun hneg => ?_⟩, hl.writeFully hframe₁ hstream hstat⟩
      exact absurd hfirst (Int.not_le.mpr hneg)
    · exact .inr ⟨fun hall => hstat (hall hsome).1,
        hl.not_delivered_writeFully hframe₁ hstream hstat⟩
  | resent hstream hfirst haccepts =>
    have hsome : l.m_stream.isSome := by simp [hstream]
    have hagain := (hl.writeFully hframe₁ hstream (complete_of_neg hfirst)).accept true
    by_cases hstat : a.second.Complete
    · exact .inl ⟨fun _ => ⟨complete_of_neg hfirst, fun _ _ => hstat⟩,
        hagain.writeFully hframe₂ rfl hstat⟩
    · exact .inr ⟨fun hall => hstat ((hall hsome).2 hfirst haccepts),
        hagain.not_delivered_writeFully hframe₂ rfl hstat⟩
  | gaveUp hstream hfirst haccepts =>
    have hagain := (hl.writeFully hframe₁ hstream (complete_of_neg hfirst)).accept false
    exact .inl ⟨fun _ => ⟨complete_of_neg hfirst, fun _ => by simp [haccepts]⟩, hagain⟩
  | crashed hstream hfirst haccepts =>
    have hagain := (hl.writeFully hframe₁ hstream (complete_of_neg hfirst)).accept false
    refine .inl ⟨fun _ => ⟨complete_of_neg hfirst, fun _ => by simp [haccepts]⟩, ?_⟩
    exact hagain.of_sends (by rw [Link.writeFully_none rfl])

end Links

/-! ## The two services -/

/-- Every `send` of the action is complete. -/
def GpsdataGet.SendsComplete (g : GpsdataGet) : GpsdataGet.Action → Prop
  | .initData listens accepts w => listens = true → accepts = true → w.answers.Complete
  | .passGpsData _ w => g.link.m_stream.isSome → w.answers.Complete

/-- Every `send` of the action is complete. -/
def SensordataGet.SendsComplete (s : SensordataGet) : SensordataGet.Action → Prop
  | .initData _ _ => True
  | .sendData _ w => s.link.m_stream.isSome → w.answers.Complete

instance (g : GpsdataGet) : ∀ a, Decidable (g.SendsComplete a)
  | .initData listens accepts w =>
    inferInstanceAs (Decidable (listens = true → accepts = true → w.answers.Complete))
  | .passGpsData _ w => inferInstanceAs (Decidable (_ → w.answers.Complete))

instance (s : SensordataGet) : ∀ a, Decidable (s.SendsComplete a)
  | .initData _ _ => .isTrue trivial
  | .sendData _ w => inferInstanceAs (Decidable (_ → w.answers.Complete))

theorem GpsdataGet.step_intact {g g' : GpsdataGet} {a : GpsdataGet.Action}
    (hg : Intact frameSize g.link) (h : step g a = some g') :
    (SendsComplete g a ∧ Intact frameSize g'.link) ∨
      (¬ SendsComplete g a ∧ ¬ Delivered g'.link) := by
  obtain ⟨listens, accepts, w, rfl, -, -, hlink⟩ | ⟨gpsdata, w, rfl, -, hlink⟩ := step_cases h
  · obtain ⟨rfl, hlink⟩ | ⟨rfl, rfl, hlink⟩ | ⟨rfl, rfl, hlink⟩ := hlink
    · exact .inl ⟨fun hcontra => by simp at hcontra, hlink ▸ hg⟩
    · exact .inl ⟨fun _ hcontra => by simp at hcontra, hlink ▸ hg.accept false⟩
    · have hsend := (sendData_exchange (g.link.accept true) g.gpsdata w).intact
        (frame_length _ _) (frame_length _ _) (hg.accept true)
      rw [hlink]
      simpa [SendsComplete, Link.accept_true] using hsend
  · rw [hlink]
    exact (sendData_exchange g.link gpsdata w).intact (frame_length _ _) (frame_length _ _) hg

theorem SensordataGet.step_intact {s s' : SensordataGet} {a : SensordataGet.Action}
    (hs : Intact frameSize s.link) (h : step s a = some s') :
    (SendsComplete s a ∧ Intact frameSize s'.link) ∨
      (¬ SendsComplete s a ∧ ¬ Delivered s'.link) := by
  obtain ⟨listens, accepts, rfl, -, -, hlink⟩ | ⟨data, w, rfl, -, hlink⟩ := step_cases h
  · obtain ⟨-, hlink⟩ | ⟨-, hlink⟩ := hlink
    · exact .inl ⟨trivial, hlink ▸ hs⟩
    · exact .inl ⟨trivial, hlink ▸ hs.accept accepts⟩
  · rw [hlink]
    exact (sendData_exchange s.link data w).intact (frame_length _ _) (frame_length _ _) hs

/-- **Whole frames.** In a run of either service every connection carries whole
frames at every moment exactly when every `send` is complete or fails. -/
theorem whole_frames_iff {gps : List GpsdataGet.Action} {sensor : List SensordataGet.Action}
    {g : GpsdataGet} {s : SensordataGet} (hgps : run GpsdataGet.step {} gps = some g)
    (hsensor : run SensordataGet.step {} sensor = some s) :
    (Guarded GpsdataGet.step GpsdataGet.SendsComplete {} gps ↔
        ∀ before t, before <+: gps → run GpsdataGet.step {} before = some t →
          Delivered t.link) ∧
      (Guarded SensordataGet.step SensordataGet.SendsComplete {} sensor ↔
        ∀ before t, before <+: sensor → run SensordataGet.step {} before = some t →
          Delivered t.link) :=
  ⟨Guarded.iff_of_step (I := fun g => Intact GpsdataGet.frameSize g.link)
      (P := fun g => Delivered g.link) (fun _ hg => hg.whole)
      (fun _ _ _ hg h => GpsdataGet.step_intact hg h) .init hgps,
    Guarded.iff_of_step (I := fun s => Intact SensordataGet.frameSize s.link)
      (P := fun s => Delivered s.link) (fun _ hs => hs.whole)
      (fun _ _ _ hs h => SensordataGet.step_intact hs h) .init hsensor⟩

/-- A world in which the first `send` has this result and a second one fails. -/
def GpsdataGet.World.of (stat : SSize frameSize) : World :=
  ⟨⟨stat, false, .failed⟩, fun _ => 0, fun _ => 0⟩

/-- A world in which the first `send` has this result and a second one fails. -/
def SensordataGet.World.of (stat : SSize frameSize) : World :=
  ⟨⟨stat, false, .failed⟩, ⟨fun _ => 0, [], 0⟩, ⟨fun _ => 0, [], 0⟩⟩

theorem whole_frames_iff_two_sends :
    (∀ before t, before <+: [.initData true true (.of (.full _)), .passGpsData [] (.of .failed)] →
        run GpsdataGet.step {} before = some t → Delivered t.link) ∧
      ∀ before t, before <+: [.initData true true, .sendData [] (.of (.full _))] →
        run SensordataGet.step {} before = some t → Delivered t.link := by
  have hgps : run GpsdataGet.step {}
    [.initData true true (.of (.full _)), .passGpsData [] (.of .failed)] = some _ := rfl
  have hsensor : run SensordataGet.step {}
    [.initData true true, .sendData [] (.of (.full _))] = some _ := rfl
  obtain ⟨hgps, hsensor⟩ := whole_frames_iff hgps hsensor
  exact ⟨hgps.mp (by decide +kernel), hsensor.mp (by decide +kernel)⟩

/-- Thirty bytes of the first frame are taken, in either service. -/
theorem short_send_splits_frame :
    (¬ ∀ gps g, run GpsdataGet.step {} gps = some g → Delivered g.link) ∧
      ¬ ∀ sensor s, run SensordataGet.step {} sensor = some s → Delivered s.link := by
  constructor
  · intro hall
    have hstep : GpsdataGet.step {} (.initData true true (.of ⟨30, by decide⟩)) = some _ := rfl
    obtain ⟨hcomplete, -⟩ | ⟨-, hsplit⟩ := GpsdataGet.step_intact .init hstep
    · exact absurd (hcomplete rfl rfl).1 (by decide)
    · exact hsplit (hall [_] _ (run_cons_some.mpr ⟨_, hstep, rfl⟩))
  · intro hall
    have hclient : Intact SensordataGet.frameSize (Link.accept {} true) := Intact.init.accept true
    have hstep : SensordataGet.step ⟨Link.accept {} true, true⟩
      (.sendData [] (.of ⟨30, by decide⟩)) = some _ := rfl
    obtain ⟨hcomplete, -⟩ | ⟨-, hsplit⟩ := SensordataGet.step_intact hclient hstep
    · exact absurd (hcomplete rfl).1 (by decide)
    · exact hsplit (hall [.initData true true, _] _
        (run_cons_some.mpr ⟨_, rfl, run_cons_some.mpr ⟨_, hstep, rfl⟩⟩))

end KmreManager.DataSocket
