import KmreManager.CameraService.Descriptors
import Mathlib.Logic.Function.Iterate

/-! # The selected camera

A connection is served the device named by `m_cameraDeviceName`, or another
one that the probing loop finds. The name is cut to 23 bytes, it is replaced by
the device that was sent, and `useSelectedCamera` outlives the connection. -/
namespace KmreManager.CameraService

open Lib.Runs

/-! ## One connection -/

/-- What the kernel answers on a connection: to `accept`, to the first `open`
and to those of the probing loop. -/
structure Connection where
  com : Int
  com_nonneg : 0 ≤ com
  selected : List UInt8 → Int × QueryCap
  probes : Nat → Int × QueryCap

/-- The service within a connection, with the paths it has opened and what
`open` returned for them. -/
structure Progress where
  state : State
  opened : List (List UInt8 × Int) := []

/-- The path that the service is in `open` of, and the answer. -/
def Connection.reply (c : Connection) (s : State) : Option (List UInt8 × Int × QueryCap) :=
  match s.control with
  | .selecting => some (s.devName, c.selected s.devName)
  | .probing i => some (videoDevice i, c.probes i)
  | _ => none

/-- `open` returns. -/
def State.openDevice (qt : Qt) (s : State) (fd : Int) (videoIn : QueryCap) : State :=
  match s.control with
  | .selecting => s.selected qt fd videoIn
  | .probing i => s.probed qt i fd videoIn
  | _ => s

def Connection.answer (qt : Qt) (c : Connection) (p : Progress) : Progress :=
  match c.reply p.state with
  | some (path, fd, videoIn) => ⟨p.state.openDevice qt fd videoIn, p.opened ++ [(path, fd)]⟩
  | none => p

/-- The whole connection: the configured device and the loop are opened at most. -/
def Connection.serve (qt : Qt) (c : Connection) (s : State) : Progress :=
  (c.answer qt)^[videoDevices + 1] ⟨s.accepted qt c.com, []⟩

/-- The device whose descriptor a call sends: the path that the descriptor was
opened from last. -/
def sentDevice (opened : List (List UInt8 × Int)) : FdCall → Option (List UInt8)
  | .sendFd _ fd => (opened.reverse.find? (·.2 = fd)).map Prod.fst
  | _ => none

/-- The device that was sent since `s`. -/
def Progress.sent (p : Progress) (s : State) : Option (List UInt8) :=
  (p.state.calls.drop s.calls.length).findSome? (sentDevice p.opened)

/-- The path that `m_cameraDeviceName` stands for as a C string. -/
def State.named (qt : Qt) (s : State) : List UInt8 :=
  (qt.toStdString s.mCameraDeviceName).takeWhile (· ≠ 0)

/-- A device opens and is a camera. -/
def Works (answer : Int × QueryCap) : Prop :=
  0 ≤ answer.1 ∧ isAvailableCamera answer.2 = 0

instance (answer : Int × QueryCap) : Decidable (Works answer) :=
  inferInstanceAs (Decidable (_ ∧ _))

/-- A working device named at the start of the connection is what is sent, and
stays the name. The signal says that the named device was sent. -/
structure Honoured (qt : Qt) (s : State) (c : Connection) : Prop where
  kept : Works (c.selected (s.named qt)) → (c.serve qt s).sent s = some (s.named qt) ∧
    (c.serve qt s).state.mCameraDeviceName = s.mCameraDeviceName
  signalled : (c.serve qt s).state.emitted ≠ s.emitted ↔
    (c.serve qt s).sent s = some (s.named qt)

/-! ## The device that is sent -/

/-- A device that the service takes. -/
def Taken (answer : Int × QueryCap) : Prop :=
  0 < answer.1 ∧ isAvailableCamera answer.2 = 0

instance (answer : Int × QueryCap) : Decidable (Taken answer) :=
  inferInstanceAs (Decidable (_ ∧ _))

/-- The device that the probing loop leaves in `fd_to_send`, from `i` on: the
first camera, else the last device if it opens at all. -/
def foundFrom (probes : Nat → Int × QueryCap) (i : Nat) : Option Nat :=
  (List.range' i (videoDevices - i)).find? (fun j => Taken (probes j)) <|>
    if 0 < (probes (videoDevices - 1)).1 then some (videoDevices - 1) else none

/-- The loop passes over the configured device when it is the first one. -/
def found (devName : List UInt8) (probes : Nat → Int × QueryCap) : Option Nat :=
  foundFrom probes (if videoDevice 0 = devName then 1 else 0)

variable {qt : Qt} {s t : State} {c : Connection} {flag : Bool} {fd : Int} {videoIn : QueryCap}
  {dev : Option (List UInt8)} {opened : List (List UInt8 × Int)} {p : Progress}

/-- A connection that began in `s` and has sent nothing yet. -/
structure Pending (s : State) (flag : Bool) (t : State) : Prop where
  name : t.mCameraDeviceName = s.mCameraDeviceName
  flag : t.useSelectedCamera = flag
  emitted : t.emitted = s.emitted
  silent : ∃ more, t.calls = s.calls ++ more ∧ ∀ opened, more.findSome? (sentDevice opened) = none

/-- A connection that began in `s` and is over; `dev` was sent. -/
structure Served (qt : Qt) (s : State) (flag : Bool) (dev : Option (List UInt8)) (p : Progress) :
    Prop where
  control : p.state.control = .accepting
  name : p.state.mCameraDeviceName = dev.elim s.mCameraDeviceName qt.fromUtf8
  useSelectedCamera : p.state.useSelectedCamera = flag
  emitted : p.state.emitted = s.emitted ++ if flag then (dev.map qt.fromUtf8).toList else []
  sent : p.sent s = dev

theorem Pending.call (h : Pending s flag t) {call : FdCall}
    (hcall : ∀ opened, sentDevice opened call = none) : Pending s flag (t.call call) := by
  obtain ⟨more, hmore, hsilent⟩ := h.silent
  refine ⟨h.name, h.flag, h.emitted, more ++ [call], ?_, fun opened => ?_⟩
  · show t.calls ++ [call] = _
    rw [hmore, List.append_assoc]
  · rw [List.findSome?_append, hsilent opened]
    simp [hcall opened]

theorem Pending.of_eq (h : Pending s flag t) {u : State}
    (hname : u.mCameraDeviceName = t.mCameraDeviceName)
    (hflag : u.useSelectedCamera = t.useSelectedCamera) (hemitted : u.emitted = t.emitted)
    (hcalls : u.calls = t.calls) : Pending s flag u :=
  ⟨hname.trans h.name, hflag.trans h.flag, hemitted.trans h.emitted, hcalls ▸ h.silent⟩

theorem Pending.returned (h : Pending s flag t) (fd : Int) : Pending s flag (t.returned fd) :=
  (h.of_eq (u := { t with fdToSend := fd }) rfl rfl rfl rfl).call fun _ => rfl

theorem Pending.accepted (qt : Qt) (s : State) (c : Connection) :
    Pending s s.useSelectedCamera (s.accepted qt c.com) ∧
      (s.accepted qt c.com).control = .selecting ∧
      (s.accepted qt c.com).devName = devNameOf (qt.toStdString s.mCameraDeviceName) := by
  have hcom : ¬ c.com < 0 := Int.not_lt.mpr c.com_nonneg
  rw [State.accepted, if_neg hcom]
  exact ⟨⟨rfl, rfl, rfl, [.accept c.com], rfl, fun _ => rfl⟩, rfl, rfl⟩

/-- The next device of the loop. -/
theorem Pending.probe {n : Nat} (h : Pending s flag t) (qt : Qt)
    (hname : videoDevice (videoDevices - (n + 1)) ≠ t.devName) :
    Pending s flag (t.probe qt (n + 1)) ∧
      (t.probe qt (n + 1)).control = .probing (videoDevices - (n + 1)) := by
  by_cases hpos : 0 < t.fdToSend
  · rw [probe_succ_pos n hpos, if_neg hname]
    exact ⟨((h.call fun _ => rfl).call fun _ => rfl).of_eq rfl rfl rfl rfl, rfl⟩
  · rw [probe_succ_not_pos n hpos, if_neg hname]
    exact ⟨(h.call fun _ => rfl).of_eq rfl rfl rfl rfl, rfl⟩

/-- The service is about to test what `open` returned for `path`. -/
structure Opens (s : State) (flag : Bool) (path : List UInt8) (fd : Int) (t : State) : Prop
    extends Pending s flag t where
  devName : t.devName = path
  fdToSend : t.fdToSend = fd

/-- The end of the connection sends the device opened last. -/
theorem Opens.serve {path : List UInt8} (h : Opens s flag path fd t) (qt : Qt)
    (opened : List (List UInt8 × Int)) :
    Served qt s flag (if 0 < fd then some path else none)
      ⟨t.serve qt, opened ++ [(path, fd)]⟩ := by
  obtain ⟨h, rfl, rfl⟩ := h
  obtain ⟨more, hmore, hsilent⟩ := h.silent
  by_cases hpos : 0 < t.fdToSend
  · have hcalls : (t.serve qt).calls = s.calls ++ (more ++ [.sendFd t.comFd t.fdToSend,
        .close t.fdToSend, .close t.comFd]) := by
      obtain ⟨hsend, -⟩ := send_pos qt hpos
      obtain ⟨hfd, hcom, -⟩ := send_fields t qt
      simp [State.serve, State.call, hsend, hfd, hcom, hmore]
    rw [if_pos hpos]
    refine ⟨rfl, ?_, ?_, ?_, ?_⟩
    · simp [State.serve, State.send, State.call, hpos]
    · simpa [State.serve, State.send, State.call, hpos] using h.flag
    · have hflag := h.flag
      cases flag <;> simp [State.serve, State.send, State.call, hpos, hflag, h.emitted]
    · rw [Progress.sent, hcalls, List.drop_left, List.findSome?_append, hsilent]
      simp [sentDevice]
  · have hcalls : (t.serve qt).calls =
        s.calls ++ (more ++ [.close t.fdToSend, .close t.comFd]) := by
      simp [State.serve, State.call, send_of_not_pos hpos, hmore]
    rw [if_neg hpos]
    refine ⟨rfl, ?_, ?_, ?_, ?_⟩
    · simpa [State.serve, State.call, send_of_not_pos hpos] using h.name
    · simpa [State.serve, State.call, send_of_not_pos hpos] using h.flag
    · simpa [State.serve, State.call, send_of_not_pos hpos] using h.emitted
    · rw [Progress.sent, hcalls, List.drop_left, List.findSome?_append, hsilent]
      simp [sentDevice]

/-- Nothing is opened after the connection. -/
theorem Served.iterate (h : Served qt s flag dev p) (m : Nat) :
    Served qt s flag dev ((c.answer qt)^[m] p) := by
  have hidle : c.answer qt p = p := by
    simp [Connection.answer, Connection.reply, h.control]
  rw [Function.iterate_fixed hidle]
  exact h

theorem Opens.test {path : List UInt8} (h : Opens s flag path fd t) (videoIn : QueryCap) :
    ∃ u, t.test videoIn = (decide (Taken (fd, videoIn)), u) ∧ Opens s flag path fd u := by
  obtain ⟨h, rfl, rfl⟩ := h
  by_cases hpos : 0 < t.fdToSend
  · refine ⟨tested t videoIn, ?_, h.call fun _ => rfl, rfl, rfl⟩
    rw [test_pos hpos]
    simp [Taken, hpos, tested]
  · refine ⟨t, ?_, h, rfl, rfl⟩
    rw [test_not_pos hpos]
    simp [Taken, hpos]

/-- **The loop.** -/
theorem Pending.loop {i m : Nat} (h : Pending s flag p.state) (hi : i < videoDevices)
    (hcontrol : p.state.control = .probing i) (hm : videoDevices - i ≤ m) :
    Served qt s flag ((foundFrom c.probes i).map videoDevice) ((c.answer qt)^[m] p) := by
  induction m generalizing i p with
  | zero => omega
  | succ m ih =>
    rcases hprobe : c.probes i with ⟨fd, videoIn⟩
    have hanswer : c.answer qt p =
        ⟨p.state.probed qt i fd videoIn, p.opened ++ [(videoDevice i, fd)]⟩ := by
      simp [Connection.answer, Connection.reply, State.openDevice, hcontrol, hprobe]
    have hopened : Opens s flag (videoDevice i) fd
        { p.state.returned fd with devName := videoDevice i } :=
      ⟨(h.returned fd).of_eq rfl rfl rfl rfl, rfl, rfl⟩
    have hrange : List.range' i (videoDevices - i) =
        i :: List.range' (i + 1) (videoDevices - (i + 1)) := by
      rw [show videoDevices - i = videoDevices - (i + 1) + 1 by omega, List.range'_succ]
    rw [Function.iterate_succ_apply, hanswer]
    obtain ⟨u, htest, hu⟩ := hopened.test videoIn
    by_cases htaken : Taken (fd, videoIn)
    · have hdev : foundFrom c.probes i = some i := by
        simp [foundFrom, hrange, hprobe, htaken]
      have hserved := hu.serve qt p.opened
      rw [if_pos htaken.1] at hserved
      rw [decide_eq_true htaken] at htest
      rw [probed_true htest, hdev]
      exact hserved.iterate m
    · rw [decide_eq_false htaken] at htest
      rw [probed_false htest]
      rcases Nat.lt_or_ge (i + 1) videoDevices with hnext | hend
      · obtain ⟨n, hn⟩ : ∃ n, videoDevices - (i + 1) = n + 1 := ⟨videoDevices - (i + 2), by omega⟩
        have hindex : videoDevices - (n + 1) = i + 1 := by omega
        have hother : videoDevice (videoDevices - (n + 1)) ≠ u.devName := by
          intro hsame
          have heq := videoDevice_inj _ (by omega) i hi (hsame.trans hu.devName)
          omega
        have hdev : foundFrom c.probes i = foundFrom c.probes (i + 1) := by
          simp [foundFrom, hrange, hprobe, htaken]
        obtain ⟨hpending, hprobing⟩ := hu.toPending.probe qt hother
        rw [hn, hdev]
        exact ih hpending hnext (hindex ▸ hprobing) (by omega)
      · obtain rfl : i = videoDevices - 1 := by omega
        have hdev : (foundFrom c.probes (videoDevices - 1)).map videoDevice =
            if 0 < fd then some (videoDevice (videoDevices - 1)) else none := by
          rw [foundFrom, hrange, Nat.sub_eq_zero_of_le hend, List.range'_zero,
            List.find?_cons_of_neg (by simpa [hprobe] using htaken), List.find?_nil, hprobe]
          by_cases hpos : 0 < fd <;> simp [hpos]
        rw [hdev]
        exact (hu.serve qt p.opened).iterate m

theorem Opens.skip {path : List UInt8} (h : Opens s flag path fd t) (qt : Qt)
    (hfirst : videoDevice 0 = path) :
    ∃ u, Opens s flag path fd u ∧ t.probe qt videoDevices = u.probe qt 11 := by
  have hname : videoDevice (videoDevices - (11 + 1)) = t.devName := hfirst.trans h.devName.symm
  by_cases hpos : 0 < t.fdToSend
  · refine ⟨t.call (.close t.fdToSend), ⟨h.toPending.call fun _ => rfl, h.devName, h.fdToSend⟩, ?_⟩
    rw [videoDevices, probe_succ_pos 11 hpos, if_pos hname]
  · exact ⟨t, h, probe_skip 11 hpos hname⟩

/-- **The connection.** The configured device is sent, or what the loop finds. -/
theorem connection_served (qt : Qt) (c : Connection) (s : State) :
    let path := devNameOf (qt.toStdString s.mCameraDeviceName)
    (Taken (c.selected path) → Served qt s true (some path) (c.serve qt s)) ∧
    (¬ Taken (c.selected path) →
      Served qt s s.useSelectedCamera ((found path c.probes).map videoDevice) (c.serve qt s)) := by
  intro path
  obtain ⟨haccepted, hcontrol, hname⟩ := Pending.accepted qt s c
  rcases hselected : c.selected path with ⟨fd, videoIn⟩
  have hanswer : c.answer qt ⟨s.accepted qt c.com, []⟩ =
      ⟨(s.accepted qt c.com).selected qt fd videoIn, [] ++ [(path, fd)]⟩ := by
    simp [Connection.answer, Connection.reply, State.openDevice, hcontrol, hname, path, hselected]
  have hopened : Opens s s.useSelectedCamera path fd ((s.accepted qt c.com).returned fd) :=
    ⟨haccepted.returned fd, hname, rfl⟩
  obtain ⟨u, htest, hu⟩ := hopened.test videoIn
  rw [Connection.serve, Function.iterate_succ_apply, hanswer]
  constructor
  · intro htaken
    rw [decide_eq_true htaken] at htest
    have hselects : Opens s true path fd { u with useSelectedCamera := true } :=
      ⟨⟨hu.name, rfl, hu.emitted, hu.silent⟩, hu.devName, hu.fdToSend⟩
    have hserved := hselects.serve qt []
    rw [if_pos htaken.1] at hserved
    rw [selected_true htest]
    exact hserved.iterate videoDevices
  · intro htaken
    rw [decide_eq_false htaken] at htest
    rw [selected_false htest, found]
    by_cases hfirst : videoDevice 0 = path
    · -- the loop closes the configured device and goes on to the next one
      obtain ⟨v, hv, hskip⟩ := hu.skip qt hfirst
      have hother : videoDevice (videoDevices - (10 + 1)) ≠ v.devName := by
        rw [hv.devName, ← hfirst]
        exact fun hsame => absurd (videoDevice_inj _ (by decide) _ (by decide) hsame) (by decide)
      obtain ⟨hpending, hprobing⟩ := hv.toPending.probe qt hother
      rw [if_pos hfirst, hskip]
      exact Pending.loop hpending (by decide) hprobing (by decide)
    · have hother : videoDevice (videoDevices - (11 + 1)) ≠ u.devName := hu.devName ▸ hfirst
      obtain ⟨hpending, hprobing⟩ := hu.toPending.probe qt hother
      rw [if_neg hfirst]
      exact Pending.loop hpending (by decide) hprobing (by decide)

/-- `useSelectedCamera` stays true from the first connection on that is sent its
configured device. -/
theorem serve_useSelectedCamera (qt : Qt) (c : Connection) (s : State) :
    (c.serve qt s).state.useSelectedCamera = (s.useSelectedCamera ||
      decide (Taken (c.selected (devNameOf (qt.toStdString s.mCameraDeviceName))))) := by
  obtain ⟨htaken, hnot⟩ := connection_served qt c s
  by_cases htake : Taken (c.selected (devNameOf (qt.toStdString s.mCameraDeviceName)))
  · rw [(htaken htake).useSelectedCamera, decide_eq_true htake, Bool.or_true]
  · rw [(hnot htake).useSelectedCamera, decide_eq_false htake, Bool.or_false]

/-- A connection is a run of the service, if the kernel grants its descriptors. -/
theorem answers_run (hgrants : ∀ k path fd videoIn,
      c.reply ((c.answer qt)^[k] p).state = some (path, fd, videoIn) →
      ((c.answer qt)^[k] p).state.Grants fd) (m : Nat) :
    ∃ as, run (step qt) p.state as = some ((c.answer qt)^[m] p).state := by
  induction m with
  | zero => exact ⟨[], rfl⟩
  | succ m ih =>
    obtain ⟨as, hrun⟩ := ih
    rw [Function.iterate_succ_apply']
    cases hreply : c.reply ((c.answer qt)^[m] p).state with
    | none => exact ⟨as, by rw [hrun, Connection.answer, hreply]⟩
    | some reply =>
      obtain ⟨path, fd, videoIn⟩ := reply
      have hgrant := hgrants m path fd videoIn hreply
      refine ⟨as ++ [.openDevice fd videoIn], run_append_some.mpr ⟨_, hrun, ?_⟩⟩
      rw [run_cons, Connection.answer, hreply, step, if_pos hgrant]
      cases hcontrol : ((c.answer qt)^[m] p).state.control with
      | selecting => simp [State.openDevice, hcontrol]
      | probing i => simp [State.openDevice, hcontrol]
      | idle => simp [Connection.reply, hcontrol] at hreply
      | accepting => simp [Connection.reply, hcontrol] at hreply
      | left => simp [Connection.reply, hcontrol] at hreply

/-! ## When it is the selected one -/

/-- What a connection needs: a device that is taken has a name that fits
`dev_name`. Otherwise the named device does not work, and the one that the loop
finds is another one as long as `useSelectedCamera` is false, or that very
device after it has become true. -/
structure Fitting (qt : Qt) (s : State) (c : Connection) : Prop where
  taken : Taken (c.selected (devNameOf (qt.toStdString s.mCameraDeviceName))) →
    devNameOf (qt.toStdString s.mCameraDeviceName) = s.named qt ∧
      qt.fromUtf8 (s.named qt) = s.mCameraDeviceName
  missing : ¬ Taken (c.selected (devNameOf (qt.toStdString s.mCameraDeviceName))) →
    found (devNameOf (qt.toStdString s.mCameraDeviceName)) c.probes = none →
    ¬ Works (c.selected (s.named qt))
  other : ¬ Taken (c.selected (devNameOf (qt.toStdString s.mCameraDeviceName))) →
    ∀ i, found (devNameOf (qt.toStdString s.mCameraDeviceName)) c.probes = some i →
    videoDevice i ≠ s.named qt →
    s.useSelectedCamera = false ∧ ¬ Works (c.selected (s.named qt))
  again : ¬ Taken (c.selected (devNameOf (qt.toStdString s.mCameraDeviceName))) →
    ∀ i, found (devNameOf (qt.toStdString s.mCameraDeviceName)) c.probes = some i →
    videoDevice i = s.named qt →
    s.useSelectedCamera = true ∧
      (Works (c.selected (s.named qt)) → qt.fromUtf8 (s.named qt) = s.mCameraDeviceName)

theorem Served.honoured_iff (h : Served qt s flag dev (c.serve qt s)) : Honoured qt s c ↔
    (Works (c.selected (s.named qt)) → dev = some (s.named qt) ∧
      dev.elim s.mCameraDeviceName qt.fromUtf8 = s.mCameraDeviceName) ∧
    ((flag = true ∧ dev ≠ none) ↔ dev = some (s.named qt)) := by
  have hemitted : (c.serve qt s).state.emitted ≠ s.emitted ↔ flag = true ∧ dev ≠ none := by
    rw [h.emitted]
    cases flag <;> cases dev <;> simp
  constructor
  · intro hh
    obtain ⟨hkept, hsignalled⟩ := hh
    rw [h.sent, h.name] at hkept
    rw [hemitted, h.sent] at hsignalled
    exact ⟨hkept, hsignalled⟩
  · intro ⟨hkept, hsignalled⟩
    refine ⟨?_, ?_⟩
    · rw [h.sent, h.name]
      exact hkept
    · rw [hemitted, h.sent]
      exact hsignalled

/-! Each connection needs one of the four only. -/

section Fitting

variable {i : Nat}

theorem fitting_iff_of_taken
    (htaken : Taken (c.selected (devNameOf (qt.toStdString s.mCameraDeviceName)))) :
    Fitting qt s c ↔ devNameOf (qt.toStdString s.mCameraDeviceName) = s.named qt ∧
      qt.fromUtf8 (s.named qt) = s.mCameraDeviceName :=
  ⟨fun h => h.taken htaken, fun h => ⟨fun _ => h, fun hnot => absurd htaken hnot,
    fun hnot => absurd htaken hnot, fun hnot => absurd htaken hnot⟩⟩

theorem fitting_iff_of_none
    (htaken : ¬ Taken (c.selected (devNameOf (qt.toStdString s.mCameraDeviceName))))
    (hfound : found (devNameOf (qt.toStdString s.mCameraDeviceName)) c.probes = none) :
    Fitting qt s c ↔ ¬ Works (c.selected (s.named qt)) := by
  refine ⟨fun h => h.missing htaken hfound, fun h => ⟨fun htake => absurd htake htaken,
    fun _ _ => h, fun _ i hi => ?_, fun _ i hi => ?_⟩⟩
  · cases hfound.symm.trans hi
  · cases hfound.symm.trans hi

theorem fitting_iff_of_other
    (htaken : ¬ Taken (c.selected (devNameOf (qt.toStdString s.mCameraDeviceName))))
    (hfound : found (devNameOf (qt.toStdString s.mCameraDeviceName)) c.probes = some i)
    (hother : videoDevice i ≠ s.named qt) :
    Fitting qt s c ↔ s.useSelectedCamera = false ∧ ¬ Works (c.selected (s.named qt)) := by
  refine ⟨fun h => h.other htaken i hfound hother, fun h => ⟨fun htake => absurd htake htaken,
    fun _ hnone => ?_, fun _ _ _ _ => h, fun _ j hj hsame => ?_⟩⟩
  · cases hfound.symm.trans hnone
  · obtain rfl := Option.some.inj (hfound.symm.trans hj)
    exact absurd hsame hother

theorem fitting_iff_of_again
    (htaken : ¬ Taken (c.selected (devNameOf (qt.toStdString s.mCameraDeviceName))))
    (hfound : found (devNameOf (qt.toStdString s.mCameraDeviceName)) c.probes = some i)
    (hsame : videoDevice i = s.named qt) :
    Fitting qt s c ↔ s.useSelectedCamera = true ∧
      (Works (c.selected (s.named qt)) → qt.fromUtf8 (s.named qt) = s.mCameraDeviceName) := by
  refine ⟨fun h => h.again htaken i hfound hsame, fun h => ⟨fun htake => absurd htake htaken,
    fun _ hnone => ?_, fun _ j hj hother => ?_, fun _ _ _ _ => h⟩⟩
  · cases hfound.symm.trans hnone
  · obtain rfl := Option.some.inj (hfound.symm.trans hj)
    exact absurd hsame hother

end Fitting

theorem honoured_iff : Honoured qt s c ↔ Fitting qt s c := by
  obtain ⟨htaken, hnot⟩ := connection_served qt c s
  by_cases htake : Taken (c.selected (devNameOf (qt.toStdString s.mCameraDeviceName)))
  · rw [(htaken htake).honoured_iff, fitting_iff_of_taken htake]
    constructor
    · intro ⟨hkept, hsignalled⟩
      have hname := Option.some.inj (hsignalled.mp ⟨rfl, Option.some_ne_none _⟩)
      have hworks : Works (c.selected (s.named qt)) := hname ▸ ⟨htake.1.le, htake.2⟩
      exact ⟨hname, hname ▸ (hkept hworks).2⟩
    · intro ⟨hname, hback⟩
      rw [hname]
      exact ⟨fun _ => ⟨rfl, hback⟩, ⟨fun _ => rfl, fun _ => ⟨rfl, Option.some_ne_none _⟩⟩⟩
  · rw [(hnot htake).honoured_iff]
    cases hfound : found (devNameOf (qt.toStdString s.mCameraDeviceName)) c.probes with
    | none =>
      rw [fitting_iff_of_none htake hfound]
      simp
    | some i =>
      by_cases hsame : videoDevice i = s.named qt
      · rw [fitting_iff_of_again htake hfound hsame]
        simp [hsame, and_comm]
      · rw [fitting_iff_of_other htake hfound hsame]
        simp [hsame, and_comm]

/-! ## Every run -/

/-- What happens at the service, one connection after the other. -/
inductive Event
  | connection (c : Connection)
  | setCameraDevice (device : QString)

def serveEvent (qt : Qt) (s : State) : Event → Option State
  | .connection c => some (c.serve qt s).state
  | .setCameraDevice device => step qt s (.setCameraDevice device)

/-- A demand on the connections. -/
def Event.Meets (demand : State → Connection → Prop) (s : State) : Event → Prop
  | .connection c => demand s c
  | .setCameraDevice _ => True

/-- **The selected camera.** Every connection of a run honours it if and only if
every connection has what that takes in the state it starts from. -/
theorem selection_honoured_iff (qt : Qt) (s : State) (events : List Event) :
    Guarded (serveEvent qt) (Event.Meets (Honoured qt)) s events ↔
      Guarded (serveEvent qt) (Event.Meets (Fitting qt)) s events := by
  refine Guarded.congr (fun _ => True) (fun _ _ => True) ?_ (fun _ _ _ _ _ _ _ => trivial) trivial
    (Guarded.of_forall (fun _ _ => trivial) s events)
  intro s e _ _
  cases e with
  | connection c => exact honoured_iff
  | setCameraDevice device => exact Iff.rfl

/-- /dev/video2 is there, and nothing else. -/
def plugged : Connection where
  com := 4
  com_nonneg := by decide
  selected path := if path = videoDevice 2 then (5, webcam) else (-1, webcam)
  probes _ := (-1, webcam)

/-- /dev/video0 is there, and nothing else. -/
def unplugged : Connection where
  com := 4
  com_nonneg := by decide
  selected _ := (-1, webcam)
  probes i := if i = 0 then (5, webcam) else (-1, webcam)

/-- After /dev/video2 was sent once, it is announced as the selected camera
that /dev/video0 was found in its place. -/
theorem selection_outlives_connection : ¬ ∀ (qt : Qt) (device : QString) (events : List Event),
    Guarded (serveEvent qt) (Event.Meets (Honoured qt))
      (State.startWorker { mCameraDeviceName := device } 3 0 0) events := by
  intro h
  have hall := h ascii "/dev/video2".toList [.connection plugged, .connection unplugged]
  have hfit := honoured_iff.mp (hall.cons rfl).2.1
  have hflag := (hfit.other (by decide) 0 (by decide) (by decide)).1
  revert hflag
  decide

end KmreManager.CameraService
