import Mathlib.Algebra.Group.Nat.Defs
import Mathlib.Algebra.Group.Int.Defs
import KmreManager.FileInotifyService

/-! # The list thread and the manager

`loopList` goes through `mFileList` every 100 ms: a file whose size has not
changed since the last pass is reported to cn.kylinos.Kmre.Manager and leaves
the list. `DBusClient` asks the bus who owns that name until the answer is yes,
and never again. -/
namespace KmreManager.FileInotifyService.LoopList

open KmreManager.Lib.Runs

/-- What a pass finds out about one entry: `st_size`, if `stat` succeeds, the
type of its content, and whether NameHasOwner is answered by a reply. -/
structure Answer where
  stat : Option Int
  mimeType : QString
  replies : Bool
  deriving DecidableEq

/-- A call of `addOneRecord`. -/
structure Record where
  path : QString
  mimeType : QString
  deriving DecidableEq

def isMedia (mimeType : QString) : Bool :=
  "image/".toList.isPrefixOf mimeType || "video/".toList.isPrefixOf mimeType

/-- `DBusClient::queryService`: the result and the new `mServiceNameOwned`. -/
def queryService (mServiceNameOwned nameOwned replies : Bool) : Bool × Bool :=
  if mServiceNameOwned then (true, true)
  else
    let owned := if replies then nameOwned else false
    (owned, owned)

/-- The directory of the host's files in the container. -/
def containerDir : QString := "/storage/emulated/0/0-麒麟文件/".toList

/-- `path.replace(0, homeDirPath.length(), containerDir)` -/
def containerPath (env : Env) (path : QString) : QString :=
  containerDir ++ path.drop env.homeDirPath.length

/-- The calls that a file of this type is reported by. -/
def records (env : Env) (info : NotifyFileInfo) (mimeType : QString) : List Record :=
  if isMedia mimeType then [⟨containerPath env info.path, mimeType⟩] else []

/-- The int that an `off_t` is stored in. -/
def int32 (size : Int) : Int := Int.bmod size (2 ^ 32)

/-- An entry that has left the list: what the pass found out, whether the name
was owned during the pass, and the calls made for it. -/
structure Departure where
  info : NotifyFileInfo
  answer : Answer
  nameOwned : Bool
  calls : List Record
  deriving DecidableEq

structure State where
  mFileList : List NotifyFileInfo := []
  mServiceNameOwned : Bool := false
  /-- the bus: does somebody own cn.kylinos.Kmre.Manager? -/
  nameOwned : Bool := false
  departed : List Departure := []
  /-- the entries that `notifyFile` was called for -/
  notified : List NotifyFileInfo := []
  deriving DecidableEq

/-- The entry stays in the list as `info`. -/
def State.keep (s : State) (info : NotifyFileInfo) : State :=
  { s with mFileList := s.mFileList ++ [info] }

/-- The entry leaves the list. -/
def State.remove (s : State) (info : NotifyFileInfo) (answer : Answer) (calls : List Record) :
    State :=
  { s with departed := s.departed ++ [⟨info, answer, s.nameOwned, calls⟩] }

/-- `notifyFile`, and `i.remove()` if it returns true. -/
def State.notifyFile (env : Env) (s : State) (info : NotifyFileInfo) (answer : Answer) : State :=
  let (owned, mServiceNameOwned) := queryService s.mServiceNameOwned s.nameOwned answer.replies
  let s := { s with mServiceNameOwned, notified := s.notified ++ [info] }
  if owned then s.remove info answer (records env info answer.mimeType) else s.keep info

/-- One turn of the inner loop of `loopList`. -/
def State.visit (env : Env) (s : State) (info : NotifyFileInfo) (answer : Answer) : State :=
  match answer.stat with
  | none => s.remove info answer []
  | some size =>
    if size ≠ info.size then s.keep { info with size := int32 size }
    else s.notifyFile env info answer

/-- The inner loop; the entries visited and kept are in `s` already. -/
def State.visitAll (env : Env) : State → List (NotifyFileInfo × Answer) → State
  | s, [] => s
  | s, (info, answer) :: rest => (s.visit env info answer).visitAll env rest

/-- One pass over the list; the lock is held throughout. -/
def State.pass (env : Env) (s : State) (answers : List Answer) : State :=
  { s with mFileList := [] }.visitAll env (s.mFileList.zip answers)

inductive Action
  /-- `addNotifyFile` on the watcher thread -/
  | addNotifyFile (path : QString)
  /-- the name is acquired or lost -/
  | nameOwnerChanged (owned : Bool)
  | pass (answers : List Answer)
  deriving DecidableEq

def step (env : Env) (s : State) : Action → Option State
  | .addNotifyFile path =>
    some (if env.notifies path then s.keep ⟨path, -1⟩ else s)
  | .nameOwnerChanged owned => some { s with nameOwned := owned }
  | .pass answers =>
    if answers.length = s.mFileList.length then some (s.pass env answers) else none

/-! ## Why an entry leaves the list -/

/-- `stat` failed, the file is no picture and no video, or it was reported while
the name was owned. -/
def Departure.Justified (env : Env) (d : Departure) : Prop :=
  d.answer.stat = none ∨ isMedia d.answer.mimeType = false ∨
    (⟨containerPath env d.info.path, d.answer.mimeType⟩ ∈ d.calls ∧ d.nameOwned = true)

instance (env : Env) (d : Departure) : Decidable (d.Justified env) := by
  unfold Departure.Justified
  infer_instance

/-- No notification is lost. -/
def NothingLost (env : Env) (s : State) : Prop :=
  ∀ d ∈ s.departed, d.Justified env

instance (env : Env) (s : State) : Decidable (NothingLost env s) := by
  unfold NothingLost
  infer_instance

/-- A picture or video that has kept its size since the last pass. -/
def Ready (entry : NotifyFileInfo × Answer) : Prop :=
  entry.2.stat = some entry.1.size ∧ isMedia entry.2.mimeType = true

instance (entry : NotifyFileInfo × Answer) : Decidable (Ready entry) := by
  unfold Ready
  infer_instance

/-- A pass that finds such a file finds the name owned, or has not seen it owned
in an earlier one. -/
def AsksOwner (s : State) : Action → Prop
  | .pass answers => s.mServiceNameOwned = true → s.nameOwned = false →
    ∀ entry ∈ s.mFileList.zip answers, ¬ Ready entry
  | _ => True

instance (s : State) (a : Action) : Decidable (AsksOwner s a) := by
  cases a <;> unfold AsksOwner <;> infer_instance

section Pass

variable {env : Env} {s s' : State} {info : NotifyFileInfo} {answer : Answer}

theorem NothingLost.remove (hs : NothingLost env s) {calls : List Record}
    (hd : Departure.Justified env ⟨info, answer, s.nameOwned, calls⟩) :
    NothingLost env (s.remove info answer calls) := by
  intro d hmem
  obtain hmem | hmem := List.mem_append.mp hmem
  · exact hs d hmem
  · rw [List.mem_singleton.mp hmem]
    exact hd

/-- The calls made for a file the thread reports: it is reported, or no media. -/
theorem justified_records (howned : s.nameOwned = true) : Departure.Justified env
    ⟨info, answer, s.nameOwned, records env info answer.mimeType⟩ := by
  cases hm : isMedia answer.mimeType with
  | false => exact .inr (.inl hm)
  | true => exact .inr (.inr ⟨by simp [records, hm], howned⟩)

/-- The thread takes the manager to be there if it was there once. -/
theorem queryService_eq (mServiceNameOwned nameOwned replies : Bool) :
    queryService mServiceNameOwned nameOwned replies =
      (mServiceNameOwned || (replies && nameOwned),
        mServiceNameOwned || (replies && nameOwned)) := by
  cases mServiceNameOwned <;> cases replies <;> simp [queryService]

/-- `notifyFile` is called; what it learns of the owner is remembered. -/
def State.asked (s : State) (info : NotifyFileInfo) (mServiceNameOwned : Bool) : State :=
  { s with mServiceNameOwned, notified := s.notified ++ [info] }

theorem notifyFile_eq : s.notifyFile env info answer =
    if s.mServiceNameOwned || (answer.replies && s.nameOwned) then
      (s.asked info true).remove info answer (records env info answer.mimeType)
    else (s.asked info false).keep info := by
  unfold State.notifyFile
  rw [queryService_eq]
  cases hq : s.mServiceNameOwned || (answer.replies && s.nameOwned) <;> simp [State.asked]

/-- `notifyFile` is called for an entry whose file has the size that is
remembered, and for no other. -/
theorem visit_notified : (s.visit env info answer).notified =
    if answer.stat = some info.size then s.notified ++ [info] else s.notified := by
  unfold State.visit
  rw [notifyFile_eq]
  cases answer.stat with
  | none => rfl
  | some size =>
    by_cases hsize : size = info.size
    · simp only [hsize, ne_eq, not_true, if_false, if_true]
      split <;> rfl
    · simp only [hsize, ne_eq, not_false_eq_true, if_true, Option.some.injEq, if_false]
      rfl

theorem visit_nameOwned : (s.visit env info answer).nameOwned = s.nameOwned := by
  unfold State.visit
  rw [notifyFile_eq]
  split
  · rfl
  · split
    · rfl
    · split <;> rfl

/-- Without the owner the flag does not change. -/
theorem visit_mServiceNameOwned (hown : s.nameOwned = false) :
    (s.visit env info answer).mServiceNameOwned = s.mServiceNameOwned := by
  unfold State.visit
  rw [notifyFile_eq, hown]
  split
  · rfl
  · split
    · rfl
    · cases hflag : s.mServiceNameOwned <;> simp [State.asked, State.remove, State.keep]

/-- One entry, if the name is owned, or the thread has not seen it owned, or the
entry is not ready. -/
theorem NothingLost.visit (hs : NothingLost env s)
    (hok : s.mServiceNameOwned = true → s.nameOwned = false → ¬ Ready (info, answer)) :
    NothingLost env (s.visit env info answer) := by
  unfold State.visit
  cases hstat : answer.stat with
  | none => exact hs.remove (.inl hstat)
  | some size =>
    simp only
    by_cases hsize : size = info.size
    swap
    · rw [if_pos hsize]
      exact hs
    rw [if_neg (not_not.mpr hsize), notifyFile_eq]
    have hflag : NothingLost env (s.asked info true) := hs
    split
    · refine hflag.remove ?_
      cases hown : s.nameOwned with
      | true => exact hown ▸ justified_records hown
      | false =>
        -- not asked in this pass
        have hcached : s.mServiceNameOwned = true := by simp_all
        have hmedia : isMedia answer.mimeType = false := by
          by_contra hcontra
          exact hok hcached hown ⟨by rw [hstat, hsize], by simpa using hcontra⟩
        exact .inr (.inl hmedia)
    · exact hs

/-- A ready entry is lost to a manager that has gone. -/
theorem visit_lost (hflag : s.mServiceNameOwned = true) (hown : s.nameOwned = false)
    (hready : Ready (info, answer)) : ¬ NothingLost env (s.visit env info answer) := by
  obtain ⟨hstat, hmedia⟩ := hready
  intro hcontra
  have hd := hcontra ⟨info, answer, false, records env info answer.mimeType⟩ (by
    unfold State.visit
    rw [hstat, notifyFile_eq]
    simp [hflag, hown, State.asked, State.remove])
  obtain hbad | hbad | ⟨-, hbad⟩ := hd
  · cases hstat.symm.trans hbad
  · cases hmedia.symm.trans hbad
  · cases hbad

/-- What has left the list stays on record. -/
theorem visit_departed : s.departed <+: (s.visit env info answer).departed := by
  unfold State.visit
  rw [notifyFile_eq]
  split
  · exact List.prefix_append _ _
  · split
    · exact List.prefix_rfl
    · split
      · exact List.prefix_append _ _
      · exact List.prefix_rfl

variable {entries : List (NotifyFileInfo × Answer)}

theorem visitAll_departed : s.departed <+: (s.visitAll env entries).departed := by
  induction entries generalizing s with
  | nil => exact List.prefix_rfl
  | cons entry rest ih =>
    obtain ⟨info, answer⟩ := entry
    exact visit_departed.trans ih

/-- The inner loop loses nothing exactly when it meets no ready entry without
asking. -/
theorem visitAll_nothingLost (hs : NothingLost env s) :
    NothingLost env (s.visitAll env entries) ↔
      (s.mServiceNameOwned = true → s.nameOwned = false → ∀ entry ∈ entries, ¬ Ready entry) := by
  induction entries generalizing s with
  | nil => exact ⟨(fun _ _ _ _ hmem => by cases hmem), fun _ => hs⟩
  | cons entry rest ih =>
    obtain ⟨info, answer⟩ := entry
    by_cases hok : s.mServiceNameOwned = true → s.nameOwned = false → ¬ Ready (info, answer)
    · refine (ih (hs.visit hok)).trans ?_
      rw [visit_nameOwned]
      constructor
      · intro hrest hflag hown
        refine List.forall_mem_cons.mpr ⟨hok hflag hown, hrest ?_ hown⟩
        rwa [visit_mServiceNameOwned hown]
      · intro hall hflag hown
        rw [visit_mServiceNameOwned hown] at hflag
        exact (List.forall_mem_cons.mp (hall hflag hown)).2
    · simp only [not_forall, not_not] at hok
      obtain ⟨hflag, hown, hready⟩ := hok
      constructor
      · intro hcontra
        have hvisit : NothingLost env (s.visit env info answer) :=
          fun d hd => hcontra d ((visitAll_departed (s := s.visit env info answer)).subset hd)
        exact absurd hvisit (visit_lost hflag hown hready)
      · intro hcontra
        exact absurd hready (hcontra hflag hown _ List.mem_cons_self)

end Pass

/-- The step lemma. -/
theorem NothingLost.step {env : Env} {s s' : State} {a : Action} (hs : NothingLost env s)
    (hstep : step env s a = some s') : NothingLost env s' ↔ AsksOwner s a := by
  cases a with
  | addNotifyFile path =>
    obtain rfl := Option.some.inj hstep
    refine iff_of_true ?_ trivial
    split <;> exact hs
  | nameOwnerChanged owned =>
    obtain rfl := Option.some.inj hstep
    exact iff_of_true hs trivial
  | pass answers =>
    obtain ⟨-, heq⟩ := Option.ite_none_right_eq_some.mp hstep
    obtain rfl := Option.some.inj heq
    have hbefore : NothingLost env { s with mFileList := [] } := hs
    exact visitAll_nothingLost hbefore

/-- Over any run of passes, arrivals of files, and arrivals and departures of
the manager: every entry that has left the list was gone, no media, or reported
to an owner, exactly when no pass meets a ready entry while the name is not
owned and the thread remembers an owner. -/
theorem no_notification_lost (env : Env) {actions : List Action} {s : State}
    (hrun : run (LoopList.step env) {} actions = some s) :
    (∀ before t, before <+: actions → run (LoopList.step env) {} before = some t →
        NothingLost env t) ↔
      Guarded (LoopList.step env) AsksOwner {} actions :=
  (Guarded.iff_forall_prefix (fun _ hs => hs) (fun _ _ _ hs hstep => hs.step hstep)
    (fun _ _ _ hs hok hstep => (hs.step hstep).mpr hok) (fun _ hd => by cases hd) hrun).symm

/-- A home directory in which every file is a picture. -/
def pictureEnv : Env := ⟨fun _ => "image/png".toList, "/home/kylin/".toList⟩

/-- A picture that is there, of 5 bytes; the bus answers. -/
def picture : Answer := ⟨some 5, "image/png".toList, true⟩

/-- One picture is reported to the manager. -/
def reportRun : List Action :=
  [.nameOwnerChanged true, .addNotifyFile "/home/kylin/a.png".toList, .pass [picture],
    .pass [picture]]

theorem no_notification_lost_report :
    ∃ s, run (LoopList.step pictureEnv) {} reportRun = some s ∧ s.mFileList = [] ∧
      s.departed.length = 1 ∧ NothingLost pictureEnv s := by
  have hdone : (run (LoopList.step pictureEnv) {} reportRun).map
      (fun s => (s.mFileList, s.departed.length)) = some ([], 1) := by decide +kernel
  obtain ⟨s, hrun, hend⟩ := Option.map_eq_some_iff.mp hdone
  obtain ⟨hlist, hlen⟩ := Prod.mk.inj hend
  have hkept := (no_notification_lost pictureEnv hrun).mpr (by decide +kernel)
  exact ⟨s, hrun, hlist, hlen, hkept _ s List.prefix_rfl hrun⟩

/-- The manager goes, and the next picture leaves the list with nobody to hear
of it. -/
theorem notification_lost :
    ∃ s, run (LoopList.step pictureEnv) {} (reportRun ++
        [.nameOwnerChanged false, .addNotifyFile "/home/kylin/b.png".toList, .pass [picture],
          .pass [picture]]) = some s ∧
      s.nameOwned = false ∧ s.mFileList = [] ∧ ¬ NothingLost pictureEnv s := by
  have hdone : (run (LoopList.step pictureEnv) {} (reportRun ++
      [.nameOwnerChanged false, .addNotifyFile "/home/kylin/b.png".toList, .pass [picture],
        .pass [picture]])).map (fun s => (s.nameOwned, s.mFileList,
          decide (NothingLost pictureEnv s))) = some (false, [], false) := by
    decide +kernel
  obtain ⟨s, hrun, hend⟩ := Option.map_eq_some_iff.mp hdone
  obtain ⟨hown, hrest⟩ := Prod.mk.inj hend
  obtain ⟨hlist, hlost⟩ := Prod.mk.inj hrest
  exact ⟨s, hrun, hown, hlist, of_decide_eq_false hlost⟩

end KmreManager.FileInotifyService.LoopList
