import KmreManager.CameraService

/-! # The descriptors of CameraService

Two monitors watch the calls: one the descriptors the service owns, the other
the cameras that passed `isAvailableCamera` on the connection. Between two
system calls the service owns the listening socket, and the client's socket
while it serves one, and nothing else. -/
namespace KmreManager.CameraService

open Lib.Runs Lib.Ownership

/-- The descriptors that have passed `isAvailableCamera` on this connection and
have not been closed since; `none` once another one is sent. -/
def track (passed : List Int) : FdCall → Option (List Int)
  | .accept _ => some []
  | .isAvailableCamera fd ret => some (if ret = 0 then fd :: passed else passed)
  | .close fd => some (passed.filter (· ≠ fd))
  | .sendFd _ fd => if fd ∈ passed then some passed else none
  | _ => some passed

/-- Every descriptor sent is of an available camera. -/
def SendsAvailable (calls : List FdCall) : Prop :=
  (run track [] calls).isSome

instance (calls : List FdCall) : Decidable (SendsAvailable calls) :=
  inferInstanceAs (Decidable ((run track [] calls).isSome = true))

/-- No call closes, sends or tests a number the service does not own, none that
it owns is lost, and what is sent is available; between two connections only
the listening socket is open, and in the end nothing. -/
structure FdDiscipline (s : State) : Prop where
  disciplined : Disciplined (effects s.calls)
  sends : SendsAvailable s.calls
  accepting : s.control = .accepting → Holds (effects s.calls) {s.listenFd}
  left : s.control = .left → Holds (effects s.calls) ∅

variable {qt : Qt} {s s' t : State} {held held' : Finset Int} {passed passed' : List Int}
  {c : FdCall} {fd : Int} {videoIn : QueryCap}

/-- Between two connections every number but the listening socket's has been
closed as often as it was returned. -/
theorem FdDiscipline.closed_once (h : FdDiscipline s) (hc : s.control = .accepting)
    (hfd : fd ≠ s.listenFd) :
    (effects s.calls).count (.acquire fd) = (effects s.calls).count (.release fd) := by
  simpa [hfd] using (h.accepting hc).count fd

@[simp] theorem effects_append (calls more : List FdCall) :
    effects (calls ++ more) = effects calls ++ effects more :=
  List.flatMap_append

/-- What both monitors have seen, and the kernel's table. -/
structure Watch (s : State) (held : Finset Int) (passed : List Int) : Prop where
  holds : Holds (effects s.calls) held
  owned : s.owned = held
  tracked : run track [] s.calls = some passed
  passed_held : ∀ fd ∈ passed, fd ∈ held

/-- A call that both monitors let pass. -/
theorem Watch.call (h : Watch s held passed) (hheld : run check held c.effect = some held')
    (htable : c.table held = held') (htrack : track passed c = some passed')
    (hsub : ∀ fd ∈ passed', fd ∈ held') : Watch (s.call c) held' passed' := by
  refine ⟨?_, ?_, ?_, hsub⟩
  · show Holds (effects (s.calls ++ [c])) held'
    rw [effects_append]
    exact h.holds.append (by simpa [effects] using hheld)
  · show c.table s.owned = held'
    rw [h.owned, htable]
  · exact run_append_some.mpr ⟨passed, h.tracked, run_cons_some.mpr ⟨passed', htrack, rfl⟩⟩

theorem Watch.openDevice (h : Watch s held passed) (hpos : 0 ≤ fd) (hnew : fd ∉ held) :
    Watch (s.call (.openDevice fd)) (insert fd held) passed :=
  h.call (by simp [FdCall.effect, acquired, hpos, run, check, hnew])
    (by simp [FdCall.table, hpos]) rfl
    (fun f hf => Finset.mem_insert_of_mem (h.passed_held f hf))

theorem Watch.openDevice_failed (h : Watch s held passed) (hneg : fd < 0) :
    Watch (s.call (.openDevice fd)) held passed :=
  h.call (by simp [FdCall.effect, acquired, Int.not_le.mpr hneg])
    (by simp [FdCall.table, Int.not_le.mpr hneg]) rfl h.passed_held

theorem Watch.accept (h : Watch s held passed) (hpos : 0 ≤ fd) (hnew : fd ∉ held) :
    Watch (s.call (.accept fd)) (insert fd held) [] :=
  h.call (by simp [FdCall.effect, acquired, hpos, run, check, hnew])
    (by simp [FdCall.table, hpos]) rfl (by simp)

theorem Watch.isAvailableCamera (h : Watch s held passed) (hfd : fd ∈ held) (ret : Int) :
    Watch (s.call (.isAvailableCamera fd ret)) held (if ret = 0 then fd :: passed else passed) := by
  refine h.call (by simp [FdCall.effect, run, check, hfd]) rfl rfl ?_
  split
  · exact List.forall_mem_cons.mpr ⟨hfd, h.passed_held⟩
  · exact h.passed_held

theorem Watch.sendFd {com : Int} (h : Watch s held passed) (hcom : com ∈ held)
    (hfd : fd ∈ passed) : Watch (s.call (.sendFd com fd)) held passed :=
  h.call (by simp [FdCall.effect, run, check, hcom, h.passed_held fd hfd]) rfl
    (by simp [track, hfd]) h.passed_held

theorem Watch.close (h : Watch s held passed) (hfd : fd ∈ held) :
    Watch (s.call (.close fd)) (held.erase fd) (passed.filter (· ≠ fd)) := by
  refine h.call (by simp [FdCall.effect, run, check, hfd]) rfl rfl ?_
  intro f hf
  obtain ⟨hmem, hne⟩ := List.mem_filter.mp hf
  exact Finset.mem_erase.mpr ⟨by simpa using hne, h.passed_held f hmem⟩

theorem Watch.overwrite (h : Watch s held passed) (hfd : fd ∉ held) :
    Watch (s.call (.overwrite fd)) held passed :=
  h.call (by simp [FdCall.effect, run, check, hfd]) rfl rfl h.passed_held

/-! ## Calls that break a rule -/

/-- One of the monitors has stopped. -/
def Broken (s : State) : Prop :=
  ¬ Disciplined (effects s.calls) ∨ ¬ SendsAvailable s.calls

theorem Broken.not_discipline (h : Broken s) : ¬ FdDiscipline s := by
  intro hs
  obtain hd | hsend := h
  · exact hd hs.disciplined
  · exact hsend hs.sends

/-- What is broken stays broken. -/
theorem Broken.more (h : Broken s) (more : List FdCall) (ht : t.calls = s.calls ++ more) :
    Broken t := by
  unfold Broken
  rw [ht, effects_append]
  obtain hd | hsend := h
  · exact .inl fun hcontra => hd hcontra.of_append
  · refine .inr fun hcontra => hsend ?_
    obtain ⟨passed, hrun⟩ := Option.isSome_iff_exists.mp hcontra
    obtain ⟨mid, hmid, -⟩ := run_append_some.mp hrun
    exact Option.isSome_iff_exists.mpr ⟨mid, hmid⟩

theorem Watch.broken (h : Watch s held passed) (hbad : run check held c.effect = none) :
    Broken (s.call c) := by
  refine .inl ?_
  show ¬ Disciplined (effects (s.calls ++ [c]))
  rw [effects_append]
  exact h.holds.not_disciplined_append (by simpa [effects] using hbad)

theorem Watch.close_broken (h : Watch s held passed) (hfd : fd ∉ held) :
    Broken (s.call (.close fd)) :=
  h.broken (by simp [FdCall.effect, run, check, hfd])

theorem Watch.overwrite_broken (h : Watch s held passed) (hfd : fd ∈ held) :
    Broken (s.call (.overwrite fd)) :=
  h.broken (by simp [FdCall.effect, run, check, hfd])

theorem Watch.sendFd_broken {com : Int} (h : Watch s held passed) (hfd : fd ∉ passed) :
    Broken (s.call (.sendFd com fd)) := by
  refine .inr fun hcontra => ?_
  obtain ⟨last, hrun⟩ := Option.isSome_iff_exists.mp hcontra
  obtain ⟨mid, hmid, hsend⟩ := run_append_some.mp hrun
  obtain rfl := Option.some.inj (h.tracked.symm.trans hmid)
  simp [run, track, hfd] at hsend

/-! ## The end of a connection and the probing loop -/

theorem Watch.of_eq (h : Watch s held passed) (hcalls : t.calls = s.calls)
    (howned : t.owned = s.owned) : Watch t held passed :=
  ⟨hcalls ▸ h.holds, howned.trans h.owned, hcalls ▸ h.tracked, h.passed_held⟩

theorem send_pos (qt : Qt) (hpos : 0 < s.fdToSend) :
    (s.send qt).calls = (s.call (.sendFd s.comFd s.fdToSend)).calls ∧
    (s.send qt).owned = s.owned := by
  unfold State.send
  rw [if_pos hpos]
  exact ⟨rfl, rfl⟩

theorem send_of_not_pos (hneg : ¬ 0 < s.fdToSend) : s.send qt = s := by
  unfold State.send
  rw [if_neg hneg]

theorem send_fields (s : State) (qt : Qt) : (s.send qt).fdToSend = s.fdToSend ∧
    (s.send qt).comFd = s.comFd ∧ (s.send qt).listenFd = s.listenFd := by
  unfold State.send
  split <;> exact ⟨rfl, rfl, rfl⟩

/-- The descriptors of the service while it serves a client. -/
def sockets (s : State) : Finset Int := {s.listenFd, s.comFd}

theorem erase_comFd (hne : s.listenFd ≠ s.comFd) : (sockets s).erase s.comFd = {s.listenFd} := by
  rw [sockets, Finset.pair_comm]
  exact Finset.erase_insert (by simpa using hne.symm)

/-- Between two connections. -/
structure Rests (t s : State) : Prop where
  control : t.control = .accepting
  listenFd : t.listenFd = s.listenFd
  watch : ∃ passed, Watch t {t.listenFd} passed

/-- Both descriptors of the connection are closed. -/
theorem closes_rest {t : State} (h : Watch t (insert s.fdToSend (sockets s)) passed)
    (hnew : s.fdToSend ∉ sockets s) (hne : s.listenFd ≠ s.comFd)
    (hlisten : t.listenFd = s.listenFd) :
    Rests { (t.call (.close s.fdToSend)).call (.close s.comFd) with control := .accepting } s := by
  have hfirst := h.close (Finset.mem_insert_self _ _)
  rw [Finset.erase_insert hnew] at hfirst
  have hcom : s.comFd ∈ sockets s := by simp [sockets]
  have hsecond := hfirst.close hcom
  rw [erase_comFd hne] at hsecond
  refine ⟨rfl, hlisten, (passed.filter (· ≠ s.fdToSend)).filter (· ≠ s.comFd), ?_⟩
  show Watch _ {t.listenFd} _
  rw [hlisten]
  exact hsecond.of_eq rfl rfl

/-- An available camera is sent and closed. -/
theorem serve_available (h : Watch s (insert s.fdToSend (sockets s)) passed)
    (hpos : 0 < s.fdToSend) (hnew : s.fdToSend ∉ sockets s) (hne : s.listenFd ≠ s.comFd)
    (hpassed : s.fdToSend ∈ passed) : Rests (s.serve qt) s := by
  obtain ⟨hcalls, howned⟩ := send_pos qt hpos
  obtain ⟨hfd, hcom, hlisten⟩ := send_fields s qt
  have hsent : Watch (s.send qt) (insert s.fdToSend (sockets s)) passed :=
    (h.sendFd (by simp [sockets]) hpassed).of_eq hcalls howned
  unfold State.serve
  simp only [hfd, hcom]
  exact closes_rest hsent hnew hne hlisten

/-- Descriptor 0 is closed, not sent. -/
theorem serve_zero (h : Watch s (insert s.fdToSend (sockets s)) passed) (hzero : s.fdToSend = 0)
    (hnew : s.fdToSend ∉ sockets s) (hne : s.listenFd ≠ s.comFd) : Rests (s.serve qt) s := by
  unfold State.serve
  rw [send_of_not_pos (by omega)]
  exact closes_rest h hnew hne rfl

theorem serve_more (s : State) : ∃ more, (s.serve qt).calls = s.calls ++ more := by
  unfold State.serve
  by_cases hpos : 0 < s.fdToSend
  · refine ⟨[.sendFd s.comFd s.fdToSend, .close (s.send qt).fdToSend, .close (s.send qt).comFd], ?_⟩
    simp [State.call, (send_pos qt hpos).1]
  · rw [send_of_not_pos hpos]
    exact ⟨[.close s.fdToSend, .close s.comFd], by simp [State.call]⟩

theorem probe_succ_pos (n : Nat) (hpos : 0 < s.fdToSend) : s.probe qt (n + 1) =
    if videoDevice (videoDevices - (n + 1)) = s.devName then
      (s.call (.close s.fdToSend)).probe qt n
    else { (s.call (.close s.fdToSend)).call (.overwrite s.fdToSend) with
      control := .probing (videoDevices - (n + 1)) } := by
  rw [State.probe]
  simp only [gt_iff_lt, if_pos hpos]
  rfl

theorem probe_succ_not_pos (n : Nat) (hneg : ¬ 0 < s.fdToSend) : s.probe qt (n + 1) =
    if videoDevice (videoDevices - (n + 1)) = s.devName then s.probe qt n
    else { s.call (.overwrite s.fdToSend) with
      control := .probing (videoDevices - (n + 1)) } := by
  rw [State.probe]
  simp only [gt_iff_lt, if_neg hneg]

/-- The device under the name of the last one is skipped. -/
theorem probe_skip (n : Nat) (hneg : ¬ 0 < s.fdToSend)
    (hname : videoDevice (videoDevices - (n + 1)) = s.devName) :
    s.probe qt (n + 1) = s.probe qt n := by
  rw [probe_succ_not_pos n hneg, if_pos hname]

theorem probe_more (qt : Qt) (n : Nat) (s : State) :
    ∃ more, (s.probe qt n).calls = s.calls ++ more := by
  induction n generalizing s with
  | zero => exact serve_more s
  | succ n ih =>
    by_cases hpos : 0 < s.fdToSend
    · rw [probe_succ_pos n hpos]
      split
      · obtain ⟨more, hmore⟩ := ih (s.call (.close s.fdToSend))
        refine ⟨.close s.fdToSend :: more, ?_⟩
        rw [hmore]
        simp [State.call]
      · exact ⟨[.close s.fdToSend, .overwrite s.fdToSend], by simp [State.call]⟩
    · rw [probe_succ_not_pos n hpos]
      split
      · exact ih s
      · exact ⟨[.overwrite s.fdToSend], by simp [State.call]⟩

/-! ## One answer of the kernel -/

theorem videoDevice_inj : ∀ i < videoDevices, ∀ j < videoDevices,
    videoDevice i = videoDevice j → i = j := by
  decide +kernel

/-- The loop starts with /dev/video0, or with /dev/video1 if the first one is
the device that was configured. -/
theorem probe_start (qt : Qt) (hneg : ¬ 0 < s.fdToSend) : ∃ n < videoDevices,
    s.probe qt videoDevices = s.probe qt (n + 1) ∧
      videoDevice (videoDevices - (n + 1)) ≠ s.devName := by
  by_cases hname : videoDevice 0 = s.devName
  · refine ⟨10, by decide, probe_skip 11 hneg hname, ?_⟩
    rw [← hname]
    decide +kernel
  · exact ⟨11, by decide, rfl, hname⟩

/-- In the probing loop, in `open` of /dev/video`i`. -/
structure Probes (t s : State) (i : Nat) : Prop where
  control : t.control = .probing i
  listenFd : t.listenFd = s.listenFd
  comFd : t.comFd = s.comFd
  watch : ∃ passed, Watch t (sockets t) passed

/-- A camera that is not available is closed, and the next device probed. -/
theorem probe_next {n : Nat} (h : Watch s (insert s.fdToSend (sockets s)) passed)
    (hpos : 0 < s.fdToSend) (hnew : s.fdToSend ∉ sockets s)
    (hname : videoDevice (videoDevices - (n + 1)) ≠ s.devName) :
    Probes (s.probe qt (n + 1)) s (videoDevices - (n + 1)) := by
  have hclosed := h.close (Finset.mem_insert_self _ _)
  rw [Finset.erase_insert hnew] at hclosed
  rw [probe_succ_pos n hpos, if_neg hname]
  exact ⟨rfl, rfl, rfl, _, (hclosed.overwrite hnew).of_eq rfl rfl⟩

/-- A device that does not open is skipped, as is the one that was configured. -/
theorem probe_failed {n : Nat} (h : Watch s (sockets s) passed) (hneg : s.fdToSend < 0)
    (hnew : s.fdToSend ∉ sockets s)
    (hname : videoDevice (videoDevices - (n + 1)) ≠ s.devName) :
    Probes (s.probe qt (n + 1)) s (videoDevices - (n + 1)) := by
  rw [probe_succ_not_pos n (by omega), if_neg hname]
  exact ⟨rfl, rfl, rfl, _, (h.overwrite hnew).of_eq rfl rfl⟩

/-- The configured device is skipped after it was closed: it is closed again. -/
theorem probe_skipped_broken {n : Nat} (h : Watch s (insert s.fdToSend (sockets s)) passed)
    (hpos : 0 < s.fdToSend) (hnew : s.fdToSend ∉ sockets s)
    (hname : videoDevice (videoDevices - (n + 2)) = s.devName) :
    Broken (s.probe qt (n + 2)) := by
  have hclosed := h.close (Finset.mem_insert_self _ _)
  rw [Finset.erase_insert hnew] at hclosed
  have hbroken : Broken ((s.call (.close s.fdToSend)).call (.close s.fdToSend)) :=
    hclosed.close_broken hnew
  rw [probe_succ_pos (n + 1) hpos, if_pos hname, probe_succ_pos n (s := s.call _) hpos]
  split
  · obtain ⟨more, hmore⟩ := probe_more qt n
      ((s.call (.close s.fdToSend)).call (.close s.fdToSend))
    exact hbroken.more more hmore
  · exact hbroken.more [.overwrite s.fdToSend] rfl

/-- Descriptor 0 is not closed before the next `open`. -/
theorem probe_zero_broken {n : Nat} (h : Watch s (insert s.fdToSend (sockets s)) passed)
    (hzero : s.fdToSend = 0) (hname : videoDevice (videoDevices - (n + 1)) ≠ s.devName) :
    Broken (s.probe qt (n + 1)) := by
  have hbroken : Broken (s.call (.overwrite s.fdToSend)) :=
    h.overwrite_broken (Finset.mem_insert_self _ _)
  rw [probe_succ_not_pos n (by omega), if_neg hname]
  exact hbroken.more [] (by simp)

/-- `open` has returned to a service that owns its two sockets. -/
structure Opened (s : State) (passed : List Int) : Prop where
  apart : s.listenFd ≠ s.comFd
  fresh : s.fdToSend ∉ sockets s
  notPassed : s.fdToSend ∉ passed
  held : 0 ≤ s.fdToSend → Watch s (insert s.fdToSend (sockets s)) passed
  failed : s.fdToSend < 0 → Watch s (sockets s) passed

theorem Opened.openDevice (h : Watch s (sockets s) passed) (hne : s.listenFd ≠ s.comFd)
    (hgrant : s.Grants fd) :
    Opened (s.returned fd) passed := by
  have hnew : fd ∉ sockets s := by
    rw [← h.owned]
    exact hgrant
  have hbefore : Watch { s with fdToSend := fd } (sockets s) passed := h.of_eq rfl rfl
  refine ⟨hne, hnew, fun hpassed => hnew (h.passed_held fd hpassed), fun hpos => ?_, fun hneg => ?_⟩
  · exact hbefore.openDevice hpos hnew
  · exact hbefore.openDevice_failed hneg

theorem Opened.of_devName (h : Opened s passed) (name : List UInt8) :
    Opened { s with devName := name } passed :=
  ⟨h.apart, h.fresh, h.notPassed, fun hpos => (h.held hpos).of_eq rfl rfl,
    fun hneg => (h.failed hneg).of_eq rfl rfl⟩

theorem test_not_pos (hneg : ¬ 0 < s.fdToSend) : s.test videoIn = (false, s) := by
  unfold State.test
  rw [if_neg hneg]

theorem test_pos (hpos : 0 < s.fdToSend) : s.test videoIn =
    (decide (isAvailableCamera videoIn = 0),
      s.call (.isAvailableCamera s.fdToSend (isAvailableCamera videoIn))) := by
  unfold State.test
  rw [if_pos hpos]

/-- The state after the test of a descriptor that was opened. -/
def tested (s : State) (videoIn : QueryCap) : State :=
  s.call (.isAvailableCamera s.fdToSend (isAvailableCamera videoIn))

theorem Opened.available (h : Opened s passed) (videoIn : QueryCap) (hpos : 0 < s.fdToSend)
    (hav : isAvailableCamera videoIn = 0) : s.test videoIn = (true, tested s videoIn) ∧
      Watch (tested s videoIn) (insert s.fdToSend (sockets s)) (s.fdToSend :: passed) := by
  refine ⟨by rw [test_pos hpos, hav]; simp [tested, hav], ?_⟩
  have hwatch := (h.held (by omega)).isAvailableCamera (Finset.mem_insert_self _ _)
    (isAvailableCamera videoIn)
  rw [if_pos hav] at hwatch
  exact hwatch

theorem Opened.unavailable (h : Opened s passed) (videoIn : QueryCap) (hpos : 0 < s.fdToSend)
    (hav : isAvailableCamera videoIn ≠ 0) : s.test videoIn = (false, tested s videoIn) ∧
      Watch (tested s videoIn) (insert s.fdToSend (sockets s)) passed := by
  refine ⟨by rw [test_pos hpos]; simp [tested, hav], ?_⟩
  have hwatch := (h.held (by omega)).isAvailableCamera (Finset.mem_insert_self _ _)
    (isAvailableCamera videoIn)
  rw [if_neg hav] at hwatch
  exact hwatch

/-- The last device probed is sent whatever it is. -/
theorem serve_unavailable_broken (h : Watch s held passed) (hpos : 0 < s.fdToSend)
    (hpassed : s.fdToSend ∉ passed) : Broken (s.serve qt) := by
  have hbroken : Broken (s.call (.sendFd s.comFd s.fdToSend)) := h.sendFd_broken hpassed
  obtain ⟨hcalls, -⟩ := send_pos qt hpos
  refine hbroken.more [.close (s.send qt).fdToSend, .close (s.send qt).comFd] ?_
  rw [← hcalls]
  simp [State.serve, State.call]

/-- The last device does not open: -1 is closed. -/
theorem serve_failed_broken (h : Watch s (sockets s) passed) (hneg : s.fdToSend < 0)
    (hnew : s.fdToSend ∉ sockets s) : Broken (s.serve qt) := by
  have hbroken : Broken (s.call (.close s.fdToSend)) := h.close_broken hnew
  refine hbroken.more [.close s.comFd] ?_
  unfold State.serve
  rw [send_of_not_pos (by omega)]
  simp [State.call]

/-! ## Runs -/

/-- What the service owns between two system calls. -/
structure Safe (s : State) : Prop where
  outside : s.control = .idle ∨ s.control = .left → ∃ passed, Watch s ∅ passed
  accepting : s.control = .accepting → ∃ passed, Watch s {s.listenFd} passed
  serving : s.control = .selecting ∨ (∃ i, s.control = .probing i) →
    s.listenFd ≠ s.comFd ∧ ∃ passed, Watch s (sockets s) passed
  probing : ∀ i, s.control = .probing i → i < videoDevices

theorem Watch.sends (h : Watch s held passed) : SendsAvailable s.calls :=
  Option.isSome_iff_exists.mpr ⟨passed, h.tracked⟩

theorem Safe.discipline (hs : Safe s) : FdDiscipline s := by
  have hwatch : ∃ held passed, Watch s held passed := by
    cases hc : s.control with
    | idle => exact ⟨∅, hs.outside (.inl hc)⟩
    | left => exact ⟨∅, hs.outside (.inr hc)⟩
    | accepting => exact ⟨_, hs.accepting hc⟩
    | selecting => exact ⟨_, (hs.serving (.inl hc)).2⟩
    | probing i => exact ⟨_, (hs.serving (.inr ⟨i, hc⟩)).2⟩
  obtain ⟨held, passed, h⟩ := hwatch
  refine ⟨h.holds.disciplined, h.sends, fun hc => ?_, fun hc => ?_⟩
  · obtain ⟨_, hacc⟩ := hs.accepting hc
    exact hacc.holds
  · obtain ⟨_, hleft⟩ := hs.outside (.inr hc)
    exact hleft.holds

theorem Safe.init (device : QString) : Safe { mCameraDeviceName := device } := by
  refine ⟨fun _ => ⟨[], holds_nil, rfl, rfl, by simp⟩, ?_, ?_, ?_⟩
  · intro hc
    cases hc
  · rintro (hc | ⟨i, hc⟩) <;> cases hc
  · intro i hc
    cases hc

theorem Rests.safe (h : Rests t s) : Safe t := by
  have hc := h.control
  exact ⟨fun hout => by simp [hc] at hout, fun _ => h.watch, fun hser => by simp [hc] at hser,
    fun i hi => by simp [hc] at hi⟩

theorem Probes.safe {i : Nat} (h : Probes t s i) (hne : s.listenFd ≠ s.comFd)
    (hi : i < videoDevices) : Safe t := by
  have hc := h.control
  refine ⟨fun hout => by simp [hc] at hout, fun hacc => by simp [hc] at hacc,
    fun _ => ⟨by rw [h.listenFd, h.comFd]; exact hne, h.watch⟩, fun j hj => ?_⟩
  rw [hc] at hj
  cases hj
  exact hi

/-- The condition on what `open` returns. The configured device: not 0, and not
an unavailable camera under the name the probing starts with. A device probed:
not 0, or, for the last one, 0 or an available camera. -/
def OpensWell (s : State) : Action → Prop
  | .openDevice fd videoIn =>
    match s.control with
    | .selecting =>
      fd ≠ 0 ∧ (0 < fd → isAvailableCamera videoIn ≠ 0 → s.devName ≠ videoDevice 0)
    | .probing i =>
      if i + 1 < videoDevices then fd ≠ 0
      else fd = 0 ∨ (0 < fd ∧ isAvailableCamera videoIn = 0)
    | _ => True
  | _ => True

instance (s : State) (a : Action) : Decidable (OpensWell s a) := by
  unfold OpensWell
  split
  · split <;> infer_instance
  · infer_instance

theorem selected_true {u : State} (h : (s.returned fd).test videoIn = (true, u)) :
    s.selected qt fd videoIn = { u with useSelectedCamera := true }.serve qt := by
  unfold State.selected
  rw [h]

theorem selected_false {u : State} (h : (s.returned fd).test videoIn = (false, u)) :
    s.selected qt fd videoIn = u.probe qt videoDevices := by
  unfold State.selected
  rw [h]

theorem probed_true {i : Nat} {u : State}
    (h : State.test { s.returned fd with devName := videoDevice i } videoIn = (true, u)) :
    s.probed qt i fd videoIn = u.serve qt := by
  unfold State.probed
  rw [h]

theorem probed_false {i : Nat} {u : State}
    (h : State.test { s.returned fd with devName := videoDevice i } videoIn = (false, u)) :
    s.probed qt i fd videoIn = u.probe qt (videoDevices - (i + 1)) := by
  unfold State.probed
  rw [h]

/-- The configured device. -/
theorem selected_step (hs : Safe s) (hc : s.control = .selecting) (hgrant : s.Grants fd) :
    (OpensWell s (.openDevice fd videoIn) ∧ Safe (s.selected qt fd videoIn)) ∨
    (¬ OpensWell s (.openDevice fd videoIn) ∧ Broken (s.selected qt fd videoIn)) := by
  obtain ⟨hne, passed, hwatch⟩ := hs.serving (.inl hc)
  have hopened : Opened (s.returned fd) passed := .openDevice hwatch hne hgrant
  unfold OpensWell
  simp only [hc]
  obtain hneg | rfl | hpos := Int.lt_trichotomy fd 0
  · have hfd : ¬ 0 < (s.returned fd).fdToSend := hneg.not_gt
    obtain ⟨n, hn, hprobe, hname⟩ := probe_start qt hfd
    rw [selected_false (test_not_pos hfd), hprobe]
    refine .inl ⟨⟨hneg.ne, fun hcontra => absurd hcontra hneg.not_gt⟩, ?_⟩
    exact (probe_failed (hopened.failed hneg) hneg hopened.fresh hname).safe hne (by omega)
  · have hfd : ¬ 0 < (s.returned 0).fdToSend := lt_irrefl _
    obtain ⟨n, hn, hprobe, hname⟩ := probe_start qt hfd
    rw [selected_false (test_not_pos hfd), hprobe]
    refine .inr ⟨fun hcontra => hcontra.1 rfl, ?_⟩
    exact probe_zero_broken (hopened.held (le_refl 0)) rfl hname
  · by_cases hav : isAvailableCamera videoIn = 0
    · obtain ⟨htest, hpassed⟩ := hopened.available videoIn hpos hav
      rw [selected_true htest]
      refine .inl ⟨⟨hpos.ne', fun _ hcontra => absurd hav hcontra⟩, ?_⟩
      exact (serve_available (s := { tested (s.returned fd) videoIn with
        useSelectedCamera := true }) (hpassed.of_eq rfl rfl) hpos hopened.fresh hne
        List.mem_cons_self).safe
    · obtain ⟨htest, hheld⟩ := hopened.unavailable videoIn hpos hav
      rw [selected_false htest]
      by_cases hname : videoDevice 0 = s.devName
      · -- the loop skips /dev/video0 after it has closed it
        refine .inr ⟨fun hcontra => hcontra.2 hpos hav hname.symm, ?_⟩
        exact probe_skipped_broken (n := 10) hheld hpos hopened.fresh hname
      · refine .inl ⟨⟨hpos.ne', fun _ _ hcontra => hname hcontra.symm⟩, ?_⟩
        exact (probe_next (n := 11) hheld hpos hopened.fresh hname).safe hne (by decide)

/-- The last device of the loop is sent or closed, whatever it is. -/
theorem probed_last {i : Nat} (hi : videoDevices - (i + 1) = 0) (hne : s.listenFd ≠ s.comFd)
    (hopened : Opened { s.returned fd with devName := videoDevice i } passed) :
    ((fd = 0 ∨ (0 < fd ∧ isAvailableCamera videoIn = 0)) ∧ Safe (s.probed qt i fd videoIn)) ∨
    (¬ (fd = 0 ∨ (0 < fd ∧ isAvailableCamera videoIn = 0)) ∧
      Broken (s.probed qt i fd videoIn)) := by
  obtain hneg | rfl | hpos := Int.lt_trichotomy fd 0
  · rw [probed_false (test_not_pos (show ¬ 0 < (s.returned fd).fdToSend from hneg.not_gt)), hi]
    refine .inr ⟨?_, serve_failed_broken (hopened.failed hneg) hneg hopened.fresh⟩
    rintro (hcontra | ⟨hcontra, -⟩)
    · exact hneg.ne hcontra
    · exact hneg.not_gt hcontra
  · rw [probed_false (test_not_pos (show ¬ 0 < (s.returned 0).fdToSend from lt_irrefl _)), hi]
    exact .inl ⟨.inl rfl, (serve_zero (hopened.held (le_refl 0)) rfl hopened.fresh hne).safe⟩
  · by_cases hav : isAvailableCamera videoIn = 0
    · obtain ⟨htest, hpassed⟩ := hopened.available videoIn hpos hav
      rw [probed_true htest]
      refine .inl ⟨.inr ⟨hpos, hav⟩, ?_⟩
      exact (serve_available hpassed hpos hopened.fresh hne List.mem_cons_self).safe
    · obtain ⟨htest, hheld⟩ := hopened.unavailable videoIn hpos hav
      rw [probed_false htest, hi]
      refine .inr ⟨?_, serve_unavailable_broken hheld hpos hopened.notPassed⟩
      rintro (hcontra | ⟨-, hcontra⟩)
      · exact hpos.ne' hcontra
      · exact hav hcontra

/-- Any other device of the loop; the next one has another name. -/
theorem probed_before {i n : Nat} (hn : videoDevices - (i + 1) = n + 1)
    (hne : s.listenFd ≠ s.comFd)
    (hopened : Opened { s.returned fd with devName := videoDevice i } passed) :
    (fd ≠ 0 ∧ Safe (s.probed qt i fd videoIn)) ∨
    (¬ fd ≠ 0 ∧ Broken (s.probed qt i fd videoIn)) := by
  have hname : videoDevice (videoDevices - (n + 1)) ≠ videoDevice i := by
    intro hcontra
    have heq := videoDevice_inj _ (by omega) i (by omega) hcontra
    omega
  have hnext : videoDevices - (n + 1) < videoDevices := by omega
  obtain hneg | rfl | hpos := Int.lt_trichotomy fd 0
  · rw [probed_false (test_not_pos (show ¬ 0 < (s.returned fd).fdToSend from hneg.not_gt)), hn]
    refine .inl ⟨hneg.ne, ?_⟩
    exact (probe_failed (hopened.failed hneg) hneg hopened.fresh hname).safe hne hnext
  · rw [probed_false (test_not_pos (show ¬ 0 < (s.returned 0).fdToSend from lt_irrefl _)), hn]
    refine .inr ⟨fun hcontra => hcontra rfl, ?_⟩
    exact probe_zero_broken (hopened.held (le_refl 0)) rfl hname
  · by_cases hav : isAvailableCamera videoIn = 0
    · obtain ⟨htest, hpassed⟩ := hopened.available videoIn hpos hav
      rw [probed_true htest]
      refine .inl ⟨hpos.ne', ?_⟩
      exact (serve_available hpassed hpos hopened.fresh hne List.mem_cons_self).safe
    · obtain ⟨htest, hheld⟩ := hopened.unavailable videoIn hpos hav
      rw [probed_false htest, hn]
      refine .inl ⟨hpos.ne', ?_⟩
      exact (probe_next hheld hpos hopened.fresh hname).safe hne hnext

/-- A device of the loop. -/
theorem probed_step {i : Nat} (hs : Safe s) (hc : s.control = .probing i)
    (hgrant : s.Grants fd) :
    (OpensWell s (.openDevice fd videoIn) ∧ Safe (s.probed qt i fd videoIn)) ∨
    (¬ OpensWell s (.openDevice fd videoIn) ∧ Broken (s.probed qt i fd videoIn)) := by
  obtain ⟨hne, passed, hwatch⟩ := hs.serving (.inr ⟨i, hc⟩)
  have hopened : Opened { s.returned fd with devName := videoDevice i } passed :=
    (Opened.openDevice hwatch hne hgrant).of_devName _
  unfold OpensWell
  simp only [hc]
  cases hn : videoDevices - (i + 1) with
  | zero =>
    rw [if_neg (show ¬ i + 1 < videoDevices by omega)]
    exact probed_last hn hne hopened
  | succ n =>
    rw [if_pos (show i + 1 < videoDevices by omega)]
    exact probed_before hn hne hopened

theorem startWorker_safe {bind listen : Int} (hs : Safe s)
    (hc : s.control = .idle ∨ s.control = .left) : Safe (s.startWorker fd bind listen) := by
  obtain ⟨passed, hwatch⟩ := hs.outside hc
  have hleft : ∀ {t : State} {p : List Int}, Watch t ∅ p →
      Safe { t with control := .left } := fun {t p} h =>
    ⟨fun _ => ⟨p, h.of_eq rfl rfl⟩, (fun hcontra => by cases hcontra),
      (fun hcontra => by simp at hcontra), (fun i hi => by cases hi)⟩
  have hbefore : Watch { s with useSelectedCamera := false, listenFd := fd } ∅ passed :=
    hwatch.of_eq rfl rfl
  unfold State.startWorker
  by_cases hneg : fd < 0
  · simp only [if_pos hneg]
    exact hleft (hbefore.call (by simp [FdCall.effect, acquired, Int.not_le.mpr hneg])
      (by simp [FdCall.table, Int.not_le.mpr hneg]) rfl hbefore.passed_held)
  · have hpos : 0 ≤ fd := by omega
    have hopen : Watch ({ s with useSelectedCamera := false, listenFd := fd }.call (.socket fd))
        {fd} passed := hbefore.call (by simp [FdCall.effect, acquired, hpos, run, check])
        (by simp [FdCall.table, hpos]) rfl
        (fun f hf => absurd (hbefore.passed_held f hf) (Finset.notMem_empty f))
    have hclosed := hopen.close (Finset.mem_singleton_self fd)
    rw [Finset.erase_singleton] at hclosed
    simp only [if_neg hneg]
    split
    · exact hleft hclosed
    split
    · exact hleft hclosed
    · exact ⟨fun hcontra => by simp at hcontra, fun _ => ⟨passed, hopen.of_eq rfl rfl⟩,
        (fun hcontra => by simp at hcontra), (fun i hi => by cases hi)⟩

theorem accepted_safe (hs : Safe s) (hc : s.control = .accepting) (hgrant : s.Grants fd) :
    Safe (s.accepted qt fd) := by
  obtain ⟨passed, hwatch⟩ := hs.accepting hc
  have hbefore : Watch { s with comFd := fd } {s.listenFd} passed := hwatch.of_eq rfl rfl
  unfold State.accepted
  by_cases hneg : fd < 0
  · have hfailed : Watch ({ s with comFd := fd }.call (.accept fd)) {s.listenFd} [] :=
      hbefore.call (by simp [FdCall.effect, acquired, Int.not_le.mpr hneg])
        (by simp [FdCall.table, Int.not_le.mpr hneg]) rfl (by simp)
    have hclosed := hfailed.close (Finset.mem_singleton_self _)
    rw [Finset.erase_singleton] at hclosed
    simp only [if_pos hneg]
    exact ⟨fun _ => ⟨_, hclosed.of_eq rfl rfl⟩, (fun hcontra => by cases hcontra),
      (fun hcontra => by simp at hcontra), (fun i hi => by cases hi)⟩
  · have hnew : fd ∉ ({s.listenFd} : Finset Int) := by
      rw [← hwatch.owned]
      exact hgrant
    have hopen := hbefore.accept (by omega) hnew
    simp only [if_neg hneg]
    refine ⟨fun hcontra => by simp at hcontra, (fun hcontra => by cases hcontra),
      fun _ => ⟨?_, [], ?_⟩, (fun i hi => by cases hi)⟩
    · exact fun heq => hnew (Finset.mem_singleton.mpr (Eq.symm heq))
    · show Watch _ {s.listenFd, fd} []
      rw [Finset.pair_comm]
      exact hopen.of_eq rfl rfl

/-- The step lemma. -/
theorem Safe.step (hs : Safe s) {a : Action} (hstep : step qt s a = some s') :
    (OpensWell s a ∧ Safe s') ∨ (¬ OpensWell s a ∧ ¬ FdDiscipline s') := by
  cases a with
  | startWorker fd bind listen =>
    obtain ⟨⟨hc, -⟩, heq⟩ := Option.ite_none_right_eq_some.mp hstep
    obtain rfl := Option.some.inj heq
    exact .inl ⟨trivial, startWorker_safe hs hc⟩
  | accept fd =>
    obtain ⟨⟨hc, hgrant⟩, heq⟩ := Option.ite_none_right_eq_some.mp hstep
    obtain rfl := Option.some.inj heq
    exact .inl ⟨trivial, accepted_safe hs hc hgrant⟩
  | openDevice fd videoIn =>
    obtain ⟨hgrant, heq⟩ := Option.ite_none_right_eq_some.mp hstep
    cases hc : s.control with
    | selecting =>
      simp only [hc, Option.some.injEq] at heq
      obtain rfl := heq
      exact (selected_step hs hc hgrant).imp_right (And.imp_right Broken.not_discipline)
    | probing i =>
      simp only [hc, Option.some.injEq] at heq
      obtain rfl := heq
      exact (probed_step hs hc hgrant).imp_right (And.imp_right Broken.not_discipline)
    | idle => simp [hc] at heq
    | accepting => simp [hc] at heq
    | left => simp [hc] at heq
  | setCameraDevice device =>
    obtain rfl := Option.some.inj hstep
    refine .inl ⟨trivial, ?_⟩
    split
    · exact hs
    · exact ⟨fun hc => (hs.outside hc).imp fun _ h => h.of_eq rfl rfl,
        fun hc => (hs.accepting hc).imp fun _ h => h.of_eq rfl rfl,
        fun hc => (hs.serving hc).imp_right fun hw => hw.imp fun _ h => h.of_eq rfl rfl,
        hs.probing⟩

/-- For any configured device and any sequence of connections, the service
keeps the descriptor discipline in every state it reaches exactly when every
`open` meets the condition `OpensWell`. -/
theorem descriptor_discipline (qt : Qt) (device : QString) {actions : List Action}
    (hrun : run (CameraService.step qt) { mCameraDeviceName := device } actions = some s) :
    (∀ before t, before <+: actions →
        run (CameraService.step qt) { mCameraDeviceName := device } before = some t →
        FdDiscipline t) ↔
      Guarded (CameraService.step qt) OpensWell { mCameraDeviceName := device } actions :=
  (Guarded.iff_of_step (fun _ ht => ht.discipline) (fun _ _ _ ht => ht.step) (Safe.init device)
    hrun).symm

/-- The configured device is gone: /dev/video0 is no camera, /dev/video1 is. The
kernel gives the number that was closed again. -/
def fallbackRun : List Action :=
  [.startWorker 5 0 0, .accept 6, .openDevice (-1) metadataNode, .openDevice 7 metadataNode,
    .openDevice 7 webcam, .setCameraDevice "/dev/video1".toList, .accept 6, .openDevice 7 webcam]

theorem descriptor_discipline_fallback :
    ∃ s, run (CameraService.step ascii) { mCameraDeviceName := "/dev/video7".toList } fallbackRun
        = some s ∧ s.control = .accepting ∧ FdDiscipline s ∧
      (effects s.calls).count (.release 7) = 3 := by
  have hdone : (run (CameraService.step ascii) { mCameraDeviceName := "/dev/video7".toList }
      fallbackRun).map (fun s => (s.control, (effects s.calls).count (.release 7)))
        = some (.accepting, 3) := by decide +kernel
  obtain ⟨s, hrun, hend⟩ := Option.map_eq_some_iff.mp hdone
  obtain ⟨hc, hcount⟩ := Prod.mk.inj hend
  have hgood := (descriptor_discipline ascii "/dev/video7".toList hrun).mpr (by decide +kernel)
  exact ⟨s, hrun, hc, hgood _ s List.prefix_rfl hrun, hcount⟩

/-- /dev/video0 is configured and opens, but is no camera: number 7 is closed
before the name is skipped and again before the next device is opened. -/
theorem descriptor_closed_twice :
    ∃ s, run (CameraService.step ascii) { mCameraDeviceName := "/dev/video0".toList }
        [.startWorker 5 0 0, .accept 6, .openDevice 7 metadataNode] = some s ∧
      s.calls = [.socket 5, .accept 6, .openDevice 7, .isAvailableCamera 7 (-1), .close 7,
        .close 7, .overwrite 7] ∧
      ¬ Disciplined (effects s.calls) ∧ ¬ FdDiscipline s := by
  have hdone : (run (CameraService.step ascii) { mCameraDeviceName := "/dev/video0".toList }
      [.startWorker 5 0 0, .accept 6, .openDevice 7 metadataNode]).map (·.calls) =
        some [.socket 5, .accept 6, .openDevice 7, .isAvailableCamera 7 (-1), .close 7,
          .close 7, .overwrite 7] := by decide +kernel
  obtain ⟨s, hrun, hcalls⟩ := Option.map_eq_some_iff.mp hdone
  have hbroken : ¬ Disciplined (effects s.calls) := by
    rw [hcalls]
    decide +kernel
  exact ⟨s, hrun, hcalls, hbroken, fun hgood => hbroken hgood.disciplined⟩

end KmreManager.CameraService
