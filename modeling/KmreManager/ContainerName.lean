import KmreManager.QStringArg
import KmreManager.Lib.Runs

/-! # The container of a user

Each user has one container, and a set of services of his own beside it. They
put its name together from the number and the name of the user, in two ways, and
know their sockets and the end of the container by it. The functions are those
of common/utils.cpp, which audio, gps and sensors have copies of, myutils.h,
camera_service.cpp and file-watcher.cpp. -/
namespace KmreManager.ContainerName

open Lib.Runs

/-- What a process sees of the user who runs it. -/
structure User where
  uid : UInt32
  /-- of the password entry, if there is one -/
  pw_name : Option QString
  USER : Option QString
deriving DecidableEq

def getUserName (u : User) : QString :=
  ((u.pw_name.or u.USER).getD []).map fun c => if c = '\\' then '_' else c

/-- `getuid` as the `int` that all services keep it in. -/
def User.id (u : User) : Int := u.uid.toInt32.toInt

/-- `QString::number` -/
def number : Int → QString
  | .ofNat n => Nat.toDigits 10 n
  | .negSucc n => '-' :: Nat.toDigits 10 (n + 1)

def getUid (u : User) : QString := number u.id

def containerName (uid : Int) (userName : QString) : QString :=
  "kmre-".toList ++ number uid ++ "-".toList ++ userName

/-- The name as the manager, audio, gps and sensors compare it. -/
def containerOf (u : User) : QString :=
  QString.arg (QString.arg "kmre-%1-%2".toList (getUid u)) (getUserName u)

/-! ## Sockets -/

def KMRE_PATH : QString := "/var/lib/kmre".toList

def containerPath (uid : Int) (userName : QString) : QString :=
  KMRE_PATH ++ "/".toList ++ containerName uid userName

inductive Socket
  | kmre_audio_playback
  | kmre_audio_recording
  | kmre_gps
  | kmre_sensors
  | kmre_camera
deriving DecidableEq

def Socket.fileName : Socket → QString
  | kmre_audio_playback => "kmre_audio_playback".toList
  | kmre_audio_recording => "kmre_audio_recording".toList
  | kmre_gps => "kmre_gps".toList
  | kmre_sensors => "kmre_sensors".toList
  | kmre_camera => "kmre_camera".toList

/-- `getUnixDomainSocketPath`, and the path that the camera service makes
itself. -/
def socketPath (u : User) : Socket → QString
  | .kmre_camera =>
    QString.arg (QString.arg "/var/lib/kmre/kmre-%1-%2".toList (getUid u)) (getUserName u) ++
      "/sockets/kmre_camera".toList
  | socket =>
    if getUserName u ≠ [] then
      containerPath u.id (getUserName u) ++ "/sockets/".toList ++ socket.fileName
    else []

/-! ## Services -/

inductive Service
  | manager
  | audio
  | gps
  | sensors
  | filewatcher
deriving DecidableEq

/-- A service that is told that a container has stopped ends. The file watcher
does not listen if its user has no name. -/
def Service.ends (u : User) (container : QString) : Service → Bool
  | .filewatcher => getUserName u ≠ [] && container = containerName u.id (getUserName u)
  | _ => container = containerOf u

inductive Action
  | start (s : Service) (u : User)
  | quit (s : Service) (u : User)
  | stopped (container : QString)
deriving DecidableEq

/-- The services that run. -/
abbrev Host := Service → User → Bool

def step (h : Host) : Action → Option Host
  | .start s u => some fun s' u' => h s' u' || (s' = s && u' = u)
  | .quit s u => some fun s' u' => h s' u' && !(s' = s && u' = u)
  | .stopped container => some fun s u => h s u && !s.ends u container

variable {h h' : Host} {s s' : Service} {u v : User} {m n : Int} {p q : QString}

/-! ## Names -/

theorem minus_not_mem_toDigits (n : Nat) : '-' ∉ Nat.toDigits 10 n := fun hmem =>
  absurd (Nat.isDigit_of_mem_toDigits (by decide) (by decide) hmem) (by decide)

theorem toDigits_inj {m n : Nat} (h : Nat.toDigits 10 m = Nat.toDigits 10 n) : m = n := by
  rw [← Nat.ofDigitChars_ten_toDigits (n := m), h, Nat.ofDigitChars_ten_toDigits]

/-- A number does not start with the minus of another one. -/
theorem toDigits_ne_minus (m : Nat) (p q : QString) :
    Nat.toDigits 10 m ++ p ≠ '-' :: q := fun heq => by
  cases hdigits : Nat.toDigits 10 m with
  | nil => exact Nat.toDigits_ne_nil hdigits
  | cons c digits =>
    rw [hdigits] at heq
    refine minus_not_mem_toDigits m ?_
    rw [hdigits, (List.cons.inj heq).1]
    exact List.mem_cons_self

theorem number_field (h : number m ++ '-' :: p = number n ++ '-' :: q) : m = n ∧ p = q := by
  have hdigits : ∀ {m n : Nat} {p q : QString},
      Nat.toDigits 10 m ++ '-' :: p = Nat.toDigits 10 n ++ '-' :: q → m = n ∧ p = q :=
    fun {m n} _ _ heq => by
      obtain ⟨hsame, hrest⟩ :=
        QString.field_cancel (minus_not_mem_toDigits m) (minus_not_mem_toDigits n) heq
      exact ⟨toDigits_inj hsame, hrest⟩
  cases m with
  | ofNat m =>
    cases n with
    | ofNat n =>
      obtain ⟨rfl, hrest⟩ := hdigits h
      exact ⟨rfl, hrest⟩
    | negSucc n => exact absurd h (toDigits_ne_minus m _ _)
  | negSucc m =>
    cases n with
    | ofNat n => exact absurd h.symm (toDigits_ne_minus n _ _)
    | negSucc n =>
      obtain ⟨hsame, hrest⟩ := hdigits (List.cons.inj h).2
      obtain rfl := Nat.succ.inj hsame
      exact ⟨rfl, hrest⟩

theorem containerName_eq (uid : Int) (userName : QString) :
    containerName uid userName = "kmre-".toList ++ (number uid ++ '-' :: userName) := by
  have hassoc : "kmre-".toList ++ number uid ++ "-".toList ++ userName =
      "kmre-".toList ++ (number uid ++ ("-".toList ++ userName)) := by
    rw [List.append_assoc, List.append_assoc]
  exact hassoc

theorem containerName_inj : containerName m p = containerName n q ↔ m = n ∧ p = q := by
  constructor
  · intro hname
    rw [containerName_eq, containerName_eq] at hname
    exact number_field (List.append_cancel_left hname)
  · rintro ⟨rfl, rfl⟩
    rfl

theorem id_inj : u.id = v.id ↔ u.uid = v.uid := by
  constructor
  · intro hid
    exact UInt32.toBitVec_inj.mp (BitVec.eq_of_toInt_eq hid)
  · intro huid
    rw [User.id, huid, User.id]

theorem percent_not_mem_number (n : Int) : '%' ∉ number n := by
  have hdigits : ∀ n, '%' ∉ Nat.toDigits 10 n := fun n hmem =>
    absurd (Nat.isDigit_of_mem_toDigits (by decide) (by decide) hmem) (by decide)
  cases n with
  | ofNat n => exact hdigits n
  | negSucc n => exact List.not_mem_cons_of_ne_of_not_mem (by decide) (hdigits (n + 1))

/-- Filling in the number leaves the marker of the name, whatever the name
looks like. -/
theorem arg_arg (pre : QString) (hpre : '%' ∉ pre)
    (hnumber : ∀ a, QString.arg (pre ++ "%1-%2".toList) a = pre ++ (a ++ "-%2".toList)) :
    QString.arg (QString.arg (pre ++ "%1-%2".toList) (getUid u)) (getUserName u) =
      pre ++ (number u.id ++ '-' :: getUserName u) := by
  have hletters : '%' ∉ pre ++ (number u.id ++ ['-']) := by
    simp [hpre, percent_not_mem_number]
  have hsplit : pre ++ (getUid u ++ "-%2".toList) =
      (pre ++ (number u.id ++ ['-'])) ++ ("%2".toList ++ []) := by
    simp [getUid]
  have hmarker : QString.pieces 0 ("%2".toList ++ []) =
      .marker "%2".toList 2 :: ([] : QString).map .letter := rfl
  rw [hnumber, hsplit, QString.arg_marker hletters hmarker]
  simp

theorem containerOf_eq (u : User) : containerOf u = containerName u.id (getUserName u) := by
  rw [containerName_eq]
  exact arg_arg "kmre-".toList (by decide) fun _ => rfl

theorem containerOf_inj : containerOf u = containerOf v ↔
    u.uid = v.uid ∧ getUserName u = getUserName v := by
  rw [containerOf_eq, containerOf_eq, containerName_inj, id_inj]

/-! ## Sockets of several users -/

theorem containerPath_socket (uid : Int) (userName fileName : QString) :
    containerPath uid userName ++ "/sockets/".toList ++ fileName =
      "/var/lib/kmre/kmre-".toList ++ (number uid ++ '-' ::
        (userName ++ "/sockets".toList ++ '/' :: fileName)) := by
  have hpre : KMRE_PATH ++ "/".toList ++ "kmre-".toList = "/var/lib/kmre/kmre-".toList := rfl
  have hsplit : "/sockets/".toList ++ fileName = "/sockets".toList ++ '/' :: fileName := rfl
  rw [containerPath, containerName_eq, ← hpre]
  simp only [List.append_assoc, List.cons_append, hsplit]

theorem socketPath_eq {socket : Socket} (h : socketPath u socket ≠ []) :
    socketPath u socket = "/var/lib/kmre/kmre-".toList ++ (number u.id ++ '-' ::
      (getUserName u ++ "/sockets".toList ++ '/' :: socket.fileName)) := by
  cases socket with
  | kmre_camera =>
    have hcamera := arg_arg (u := u) "/var/lib/kmre/kmre-".toList (by decide) fun _ => rfl
    have hsplit : "/sockets/kmre_camera".toList =
        "/sockets".toList ++ '/' :: Socket.kmre_camera.fileName := rfl
    refine (congrArg (· ++ "/sockets/kmre_camera".toList) hcamera).trans ?_
    simp only [List.append_assoc, List.cons_append, hsplit]
  | kmre_audio_playback | kmre_audio_recording | kmre_gps | kmre_sensors =>
    dsimp only [socketPath] at h ⊢
    rw [ite_ne_right_iff] at h
    rw [if_pos h.1, containerPath_socket]

theorem fileName_inj {socket socket' : Socket} (h : socket.fileName = socket'.fileName) :
    socket = socket' := by
  revert h
  cases socket <;> cases socket' <;> decide

theorem slash_not_mem_fileName (socket : Socket) : '/' ∉ socket.fileName := by
  cases socket <;> decide

/-- **No two sockets share a path.** Two sockets with a path have the same one
only if they are the same socket of the same user, by number and by name. The
name may hold percent signs, slashes or digits. -/
theorem socketPath_inj (u v : User) (s t : Socket) : socketPath u s = socketPath v t ↔
    socketPath u s = [] ∧ socketPath v t = [] ∨
      s = t ∧ u.uid = v.uid ∧ getUserName u = getUserName v := by
  constructor
  · intro hpath
    by_cases hempty : socketPath u s = []
    · exact .inl ⟨hempty, hpath ▸ hempty⟩
    · have hsame := hpath
      rw [socketPath_eq hempty, socketPath_eq (hpath ▸ hempty)] at hsame
      obtain ⟨hid, hrest⟩ := number_field (List.append_cancel_left hsame)
      obtain ⟨hname, hfile⟩ := QString.lastField_cancel (slash_not_mem_fileName s)
        (slash_not_mem_fileName t) hrest
      exact .inr ⟨fileName_inj hfile, id_inj.mp hid, List.append_cancel_right hname⟩
  · rintro (⟨hu, hv⟩ | ⟨rfl, huid, hname⟩)
    · rw [hu, hv]
    · have hid := id_inj.mpr huid
      unfold socketPath
      rw [getUid, getUid, hid, hname]

/-! ## Services of several users -/

/-- A service ends with the container of its user, and with no other one. -/
theorem ends_iff {container : QString} : s.ends u container = true ↔
    container = containerName u.id (getUserName u) ∧
      ¬ (s = .filewatcher ∧ getUserName u = []) := by
  cases s with
  | filewatcher => simp [Service.ends, and_comm]
  | manager | audio | gps | sensors => simp [Service.ends, containerOf_eq]

/-- What ends a service. -/
def Ends (s : Service) (u : User) : Action → Prop
  | .start _ _ => False
  | .quit s' u' => s' = s ∧ u' = u
  | .stopped container => s.ends u container = true

theorem step_running {a : Action} (ha : step h a = some h') :
    h' s u = true ↔ a = .start s u ∨ (h s u = true ∧ ¬ Ends s u a) := by
  cases a with
  | start s' u' =>
    obtain rfl := Option.some.inj ha
    rw [Bool.or_eq_true, Bool.and_eq_true, decide_eq_true_eq, decide_eq_true_eq, or_comm]
    simp [Ends, eq_comm (a := s) (b := s'), eq_comm (a := u) (b := u')]
  | quit s' u' =>
    obtain rfl := Option.some.inj ha
    rw [Bool.and_eq_true, Bool.not_eq_true', Bool.and_eq_false_iff]
    simp [Ends, eq_comm (a := s) (b := s'), eq_comm (a := u) (b := u'), imp_iff_not_or]
  | stopped container =>
    obtain rfl := Option.some.inj ha
    rw [Bool.and_eq_true, Bool.not_eq_true', Ends, Bool.not_eq_true]
    simp

/-- **Each user's services stop with his container.** Over any number of users,
services that start and end, and containers that stop: a service runs if and
only if it was started and has neither ended since nor been told that a
container of its own user's number and name has stopped. Only a file watcher
without a name is not told. -/
theorem running_iff {actions : List Action} (hrun : run step (fun _ _ => false) actions = some h) :
    h s u = true ↔ ∃ as bs, actions = as ++ .start s u :: bs ∧ .quit s u ∉ bs ∧
      ∀ v, .stopped (containerOf v) ∈ bs → u.uid = v.uid → getUserName u = getUserName v →
        s = .filewatcher ∧ getUserName u = [] := by
  have hnothing : ¬ (fun _ _ => false : Host) s u = true := Bool.false_ne_true
  have hsince : h s u = true ↔ ∃ as a bs, actions = as ++ a :: bs ∧ a = .start s u ∧
      ∀ b ∈ bs, ¬ Ends s u b :=
    run_since (P := fun h : Host => h s u = true) (· = .start s u) (Ends s u)
      (fun _ _ _ => step_running) hnothing hrun
  rw [hsince]
  refine exists_congr fun as => ?_
  constructor
  · rintro ⟨a, bs, hsplit, rfl, hbs⟩
    refine ⟨bs, hsplit, fun hquit => hbs _ hquit ⟨rfl, rfl⟩, fun v hv huid hname => ?_⟩
    by_contra hlistens
    refine hbs _ hv (ends_iff.mpr ⟨?_, hlistens⟩)
    rw [← containerOf_eq]
    exact containerOf_inj.mpr ⟨huid.symm, hname.symm⟩
  · rintro ⟨bs, hsplit, hquit, hstopped⟩
    refine ⟨.start s u, bs, hsplit, rfl, fun a ha hends => ?_⟩
    cases a with
    | start s' u' => exact hends
    | quit s' u' =>
      obtain ⟨rfl, rfl⟩ := hends
      exact hquit ha
    | stopped container =>
      obtain ⟨hname, hlistens⟩ := ends_iff.mp hends
      rw [← containerOf_eq] at hname
      exact hlistens (hstopped u (hname ▸ ha) rfl rfl)

/-! Two users of one name, one of whom has no password entry. -/

def kylin : User := ⟨1000, some "kylin".toList, none⟩

def twin : User := ⟨4294966296, none, some "kylin".toList⟩

def logout : List Action :=
  [.start .audio kylin, .start .audio twin, .stopped (containerOf twin)]

theorem logout_running : ∃ h, run step (fun _ _ => false) logout = some h ∧
    h .audio kylin = true := by
  have hend : (run step (fun _ _ => false) logout).isSome = true := rfl
  obtain ⟨h, hrun⟩ := Option.isSome_iff_exists.mp hend
  refine ⟨h, hrun, (running_iff hrun).mpr ⟨[], _, rfl, by decide, fun v hv huid hname => ?_⟩⟩
  have hsame : containerOf kylin = containerOf twin := by
    have hcontainer : containerOf v = containerOf twin := by simpa using hv
    rw [← hcontainer]
    exact containerOf_inj.mpr ⟨huid, hname⟩
  exact absurd hsame (by decide +kernel)

end KmreManager.ContainerName
