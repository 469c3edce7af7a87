import Mathlib.Data.Fintype.Basic
import KmreManager.Lib.Runs
import KmreManager.UnixStream

/-! # Who listens at a path

The streams of a service listen at one path, one after the other or at the same
time. `listen` takes the name from the socket that has it, whoever listens
there, and the destructor takes it from whatever socket has it by then. -/
namespace KmreManager.UnixStream

open Lib.PathWalk Lib.PathWalk.FileSystem Lib.Runs

/-- `strlen` of the path as it is passed to the system. -/
def strlen (path : QString) : Nat := path.foldr (fun c n => c.utf8Size + n) 0

/-- `sizeof(local.sun_path)`. -/
def sun_path : Nat := 108

/-- `setAddr` and `initFromUnixPath` take the path. -/
def Usable (path : QString) : Prop := path ≠ [] ∧ strlen path < sun_path

instance (path : QString) : Decidable (Usable path) :=
  inferInstanceAs (Decidable (_ ∧ _))

/-- What `socket` and `listen` answer. -/
structure Answers where
  socket : Bool
  listens : Bool
deriving DecidableEq

/-- `socketLocalServer` with `socketBindInternal`, which closes what it cannot
bind; `s` is the socket that the system would make. -/
def socketLocalServer (v : SocketFiles) (path : QString) (s : Nat) (w : Answers) :
    SocketFiles × Option Nat :=
  if path = [] ∨ strlen path ≥ sun_path then (v, none)
  else if w.socket then
    match bind v path s with
    | some v => (v, if w.listens then some s else none)
    | none => (v, none)
  else (v, none)

structure Stream where
  m_sock : Option Nat := none
  bound_socket_path : QString := []

/-- The streams of all processes, by any name, and the sockets that are open. -/
structure Host (ι : Type) where
  files : SocketFiles
  streams : ι → Stream
  sockets : List Nat := []
  next : Nat := 0

inductive Action (ι : Type)
  | listen (i : ι) (w : Answers)
  | destroyed (i : ι)
  | killed (i : ι)
deriving DecidableEq

namespace Host

variable {ι : Type} [DecidableEq ι] (h : Host ι) (i : ι) (path : QString)

def listen (w : Answers) : Host ι :=
  if strlen path ≥ sun_path then h
  else
    let server := socketLocalServer (mkpath h.files path) path h.next w
    { files := server.1
      streams := Function.update h.streams i ⟨server.2, path⟩
      sockets := server.2.toList ++ h.sockets
      next := h.next + 1 }

/-- The end of a stream closes its socket. -/
def close : Host ι :=
  { h with
    streams := Function.update h.streams i {}
    sockets := h.sockets.filter fun s => (h.streams i).m_sock ≠ some s }

def destroyed : Host ι :=
  let bound_socket_path := (h.streams i).bound_socket_path
  if bound_socket_path ≠ [] then
    { h with files := h.files.unlink bound_socket_path.pathname }.close i
  else h.close i

end Host

variable {ι : Type} [DecidableEq ι]

def step (path : QString) (h : Host ι) : Action ι → Option (Host ι)
  | .listen i w => some (h.listen i path w)
  | .destroyed i => some (h.destroyed i)
  | .killed i => some (h.close i)

/-- No stream listens when one begins to, and none that has the path is
destroyed while another one listens. -/
def Alone (h : Host ι) : Action ι → Prop
  | .listen _ _ => ∀ j, (h.streams j).m_sock = none
  | .destroyed i =>
    (h.streams i).bound_socket_path ≠ [] → ∀ j, j ≠ i → (h.streams j).m_sock = none
  | .killed _ => True

instance [Fintype ι] : ∀ (h : Host ι) (a : Action ι), Decidable (Alone h a)
  | _, .listen _ _ => inferInstanceAs (Decidable (∀ _, _ = none))
  | _, .destroyed i => inferInstanceAs (Decidable (_ ≠ _ → ∀ j, j ≠ i → _ = none))
  | _, .killed _ => .isTrue trivial

/-- Every stream that listens is reached by its path, and every open socket
belongs to a stream that will close it. -/
structure Served (path : QString) (h : Host ι) : Prop where
  reached : ∀ i s, (h.streams i).m_sock = some s →
    h.files.lstat path.pathname = some (.file s)
  owned : ∀ s ∈ h.sockets, ∃ i, (h.streams i).m_sock = some s

structure Sound (path : QString) (h : Host ι) : Prop extends Served path h where
  usable : ∀ i s, (h.streams i).m_sock = some s → Usable path
  opened : ∀ i s, (h.streams i).m_sock = some s → s ∈ h.sockets
  alone : ∀ i j s t, (h.streams i).m_sock = some s → (h.streams j).m_sock = some t → i = j
  bound : ∀ i s, (h.streams i).m_sock = some s → (h.streams i).bound_socket_path = path
  paths : ∀ i, (h.streams i).bound_socket_path = [] ∨ (h.streams i).bound_socket_path = path
  old : ∀ s ∈ h.sockets, s < h.next

variable {h h' : Host ι} {i j : ι} {path : QString} {v : SocketFiles} {s old : Nat} {w : Answers}

/-! ## The name and the socket that has it -/

theorem lstat_make {n : QString} {dir : Place QString}
    (hplace : v.place path.pathname = some (n :: dir)) (hdir : v.node dir = some .dir)
    (hfree : v.node (n :: dir) = none) :
    (v.make n dir (.file s) hdir hfree).lstat path.pathname = some (.file s) := by
  have hthere : (v.make n dir (.file s) hdir hfree).place path.pathname = some (n :: dir) :=
    place_extends (extends_of_free hfree _) hplace
  rw [lstat, hthere, Option.bind_some]
  exact set_node_self _ _ _ _

theorem lstat_erase {n : QString} {dir : Place QString} {hempty : v.list (n :: dir) = []}
    (hplace : v.place path.pathname = some (n :: dir))
    (hnode : v.node (n :: dir) = some (.file s)) :
    (v.erase n dir hempty).lstat path.pathname = none := by
  have hthere : (v.erase n dir hempty).place path.pathname = some (n :: dir) :=
    place_erase hnode hplace
  rw [lstat, hthere, Option.bind_some]
  exact set_node_self _ _ _ _

theorem bind_lstat {v' : SocketFiles} (hbind : bind v path s = some v') :
    v'.lstat path.pathname = some (.file s) := by
  rw [bind] at hbind
  split at hbind
  next n dir hplace =>
    split at hbind
    next hfree =>
      obtain rfl := Option.some.inj hbind
      exact lstat_make hplace hfree.1 hfree.2
    next => cases hbind
  next => cases hbind

/-- A server that is made has the name, and a failed one may have left it. -/
theorem socketLocalServer_cases (v : SocketFiles) (path : QString) (s : Nat) (w : Answers) :
    (∃ v', socketLocalServer v path s w = (v', some s) ∧ Usable path ∧
        v'.lstat path.pathname = some (.file s)) ∨
      (∃ v', socketLocalServer v path s w = (v', none) ∧
        (v' = v ∨ v'.lstat path.pathname = some (.file s))) := by
  unfold socketLocalServer
  split
  next => exact .inr ⟨v, rfl, .inl rfl⟩
  next husable =>
    obtain ⟨hne, hlen⟩ := not_or.mp husable
    split
    next =>
      cases hbind : bind v path s with
      | none => exact .inr ⟨v, rfl, .inl rfl⟩
      | some v' =>
        cases w.listens with
        | true => exact .inl ⟨v', rfl, ⟨hne, Nat.lt_of_not_le hlen⟩, bind_lstat hbind⟩
        | false => exact .inr ⟨v', rfl, .inr (bind_lstat hbind)⟩
    next => exact .inr ⟨v, rfl, .inl rfl⟩

/-- The name of a socket that `listen` has met is free, or has a new socket. -/
theorem listen_takes (hpath : path ≠ []) (hold : v.lstat path.pathname = some (.file old))
    (hnew : s ≠ old) :
    (socketLocalServer (mkpath v path) path s w).1.lstat path.pathname ≠ some (.file old) := by
  obtain ⟨n, dir, hempty, hplace, hnode, hmkpath⟩ := mkpath_file hpath hold
  have hnone : (mkpath v path).lstat path.pathname = none := by
    rw [hmkpath]
    exact lstat_erase hplace hnode
  have hother : (some (.file s) : Option (Entry QString Nat)) ≠ some (.file old) := by
    simpa using hnew
  obtain ⟨v', hserver, -, hname⟩ | ⟨v', hserver, rfl | hname⟩ :=
    socketLocalServer_cases (mkpath v path) path s w
  · rw [hserver, hname]
    exact hother
  · rw [hserver, hnone]
    exact (Option.some_ne_none _).symm
  · rw [hserver, hname]
    exact hother

/-- `unlink` takes the name from the socket that has it. -/
theorem unlink_takes (hold : v.lstat path.pathname = some (.file old)) :
    (v.unlink path.pathname).lstat path.pathname = none := by
  obtain ⟨p, hplace, hnode⟩ := Option.bind_eq_some_iff.mp hold
  cases p with
  | nil =>
    rw [v.root] at hnode
    cases hnode
  | cons n dir =>
    have hempty : v.list (n :: dir) = [] := Volume.list_nil (by simp [hnode])
    have hunlink : v.unlink path.pathname = v.erase n dir hempty := by
      rw [Volume.unlink, hplace]
      exact dif_pos ⟨hempty, by simp [hnode]⟩
    rw [hunlink]
    exact lstat_erase hplace hnode

/-! ## Steps -/

omit [DecidableEq ι] in
theorem Sound.idle (hh : Sound path h) (hidle : ∀ i, (h.streams i).m_sock = none) :
    h.sockets = [] := by
  refine List.eq_nil_iff_forall_not_mem.mpr fun s hs => ?_
  obtain ⟨i, hi⟩ := hh.owned s hs
  rw [hidle i] at hi
  cases hi

omit [DecidableEq ι] in
/-- With nobody listening, any files and any paths of the streams will do. -/
theorem Sound.of_idle (hidle : ∀ i, (h.streams i).m_sock = none) (hsockets : h.sockets = [])
    (hpaths : ∀ i, (h.streams i).bound_socket_path = [] ∨ (h.streams i).bound_socket_path = path) :
    Sound path h := by
  have hno : ∀ i s, (h.streams i).m_sock ≠ some s := fun i s => by simp [hidle i]
  refine ⟨⟨fun i s hi => absurd hi (hno i s), fun s hs => ?_⟩, fun i s hi => absurd hi (hno i s),
    fun i s hi => absurd hi (hno i s), fun i _ s _ hi => absurd hi (hno i s),
    fun i s hi => absurd hi (hno i s), hpaths, fun s hs => ?_⟩
  · rw [hsockets] at hs
    cases hs
  · rw [hsockets] at hs
    cases hs

/-- The first one to listen, or the next one after all others. -/
theorem Sound.listen (hh : Sound path h) (hidle : ∀ j, (h.streams j).m_sock = none) :
    Sound path (h.listen i path w) := by
  unfold Host.listen
  split
  next => exact hh
  next hlen =>
    have hsockets := hh.idle hidle
    have hpaths : ∀ m_sock j,
        (Function.update h.streams i ⟨m_sock, path⟩ j).bound_socket_path = [] ∨
          (Function.update h.streams i ⟨m_sock, path⟩ j).bound_socket_path = path :=
        fun m_sock j => by
      by_cases hj : j = i
      · subst hj
        exact .inr (by rw [Function.update_self])
      · rw [Function.update_of_ne hj]
        exact hh.paths j
    obtain ⟨v', hserver, husable, hname⟩ | ⟨v', hserver, -⟩ :=
      socketLocalServer_cases (mkpath h.files path) path h.next w
    · rw [hserver, hsockets]
      have hself : Function.update h.streams i ⟨some h.next, path⟩ i = ⟨some h.next, path⟩ :=
        Function.update_self _ _ _
      have honly : ∀ j s, (Function.update h.streams i ⟨some h.next, path⟩ j).m_sock = some s →
          j = i ∧ s = h.next := fun j s hj => by
        by_cases hji : j = i
        · subst hji
          rw [Function.update_self] at hj
          exact ⟨rfl, (Option.some.inj hj).symm⟩
        · rw [Function.update_of_ne hji, hidle j] at hj
          cases hj
      refine ⟨⟨fun j s hj => ?_, fun s hs => ⟨i, ?_⟩⟩, fun _ _ _ => husable, fun j s hj => ?_,
        fun j k s t hj hk => ?_, fun j s hj => ?_, hpaths (some h.next), fun s hs => ?_⟩
      · obtain ⟨-, rfl⟩ := honly j s hj
        exact hname
      · obtain rfl := List.mem_singleton.mp hs
        exact congrArg Stream.m_sock hself
      · obtain ⟨-, rfl⟩ := honly j s hj
        exact List.mem_singleton_self _
      · rw [(honly j s hj).1, (honly k t hk).1]
      · obtain ⟨rfl, -⟩ := honly j s hj
        exact congrArg Stream.bound_socket_path hself
      · obtain rfl := List.mem_singleton.mp hs
        exact Nat.lt_succ_self _
    · rw [hserver, hsockets]
      refine Sound.of_idle (fun j => ?_) rfl (hpaths none)
      by_cases hj : j = i
      · have hself : Function.update h.streams i ⟨none, path⟩ i = ⟨none, path⟩ :=
          Function.update_self _ _ _
        rw [hj]
        exact congrArg Stream.m_sock hself
      · exact (congrArg Stream.m_sock (Function.update_of_ne hj _ _)).trans (hidle j)

/-- One that listens where another one does leaves it without its name, or its
own first socket without itself. -/
theorem Sound.listen_lost (hh : Sound path h) (hj : (h.streams j).m_sock = some s) :
    ¬ Served path (h.listen i path w) := by
  intro hserved
  obtain ⟨hne, hlen⟩ := hh.usable j s hj
  have hmem := hh.opened j s hj
  have hnew : h.next ≠ s := Nat.ne_of_gt (hh.old s hmem)
  have htakes := listen_takes (w := w) hne (hh.reached j s hj) hnew
  have hlisten : (h.listen i path w).files =
      (socketLocalServer (mkpath h.files path) path h.next w).1 := by
    rw [Host.listen, if_neg (Nat.not_le.mpr hlen)]
  have hsockets : s ∈ (h.listen i path w).sockets := by
    rw [Host.listen, if_neg (Nat.not_le.mpr hlen)]
    exact List.mem_append_right _ hmem
  by_cases hji : j = i
  · subst hji
    obtain ⟨k, hk⟩ := hserved.owned s hsockets
    have hreach := hserved.reached k s hk
    rw [hlisten] at hreach
    exact htakes hreach
  · have hstill : ((h.listen i path w).streams j).m_sock = some s := by
      rw [Host.listen, if_neg (Nat.not_le.mpr hlen)]
      exact (congrArg Stream.m_sock (Function.update_of_ne hji _ _)).trans hj
    have hreach := hserved.reached j s hstill
    rw [hlisten] at hreach
    exact htakes hreach

/-- A stream that ends, and leaves the others their names. -/
theorem Sound.close (hh : Sound path h)
    (hnames : ∀ j s, j ≠ i → (h.streams j).m_sock = some s →
      v.lstat path.pathname = some (.file s)) :
    Sound path ({ h with files := v }.close i) := by
  have hself : (Function.update h.streams i {}) i = {} := Function.update_self _ _ _
  have hother : ∀ j s, ((Function.update h.streams i {}) j).m_sock = some s →
      j ≠ i ∧ (h.streams j).m_sock = some s := fun j s hj => by
    by_cases hji : j = i
    · rw [hji, hself] at hj
      cases hj
    · rw [Function.update_of_ne hji] at hj
      exact ⟨hji, hj⟩
  have hkept : ∀ j, j ≠ i → (Function.update h.streams i {}) j = h.streams j :=
    fun j hj => Function.update_of_ne hj _ _
  refine ⟨⟨fun j s hj => ?_, fun s hs => ?_⟩, fun j s hj => ?_, fun j s hj => ?_,
    fun j k s t hj hk => ?_, fun j s hj => ?_, fun j => ?_, fun s hs => ?_⟩
  · obtain ⟨hji, hj⟩ := hother j s hj
    exact hnames j s hji hj
  · obtain ⟨hs, hnot⟩ := List.mem_filter.mp hs
    obtain ⟨k, hk⟩ := hh.owned s hs
    have hki : k ≠ i := fun hki => by
      rw [hki] at hk
      simp [hk] at hnot
    exact ⟨k, (congrArg Stream.m_sock (hkept k hki)).trans hk⟩
  · exact hh.usable j s (hother j s hj).2
  · obtain ⟨hji, hj⟩ := hother j s hj
    refine List.mem_filter.mpr ⟨hh.opened j s hj, ?_⟩
    have hne : (h.streams i).m_sock ≠ some s := fun hcontra => hji (hh.alone j i s s hj hcontra)
    simpa using hne
  · exact hh.alone j k s t (hother j s hj).2 (hother k t hk).2
  · obtain ⟨hji, hj⟩ := hother j s hj
    exact (congrArg Stream.bound_socket_path (hkept j hji)).trans (hh.bound j s hj)
  · by_cases hji : j = i
    · rw [hji]
      exact .inl (congrArg Stream.bound_socket_path hself)
    · have hbound := hh.paths j
      rwa [← hkept j hji] at hbound
  · exact hh.old s (List.mem_of_mem_filter hs)

/-- A destructor takes the name from another stream that listens. -/
theorem Sound.destroyed_lost (hh : Sound path h) (hpath : (h.streams i).bound_socket_path = path)
    (hne : path ≠ []) (hji : j ≠ i) (hj : (h.streams j).m_sock = some s) :
    ¬ Served path (h.destroyed i) := by
  intro hserved
  have hunlink := unlink_takes (hh.reached j s hj)
  have hdestroyed : h.destroyed i = { h with files := h.files.unlink path.pathname }.close i := by
    rw [Host.destroyed, hpath]
    exact if_pos hne
  have hstill : ((h.destroyed i).streams j).m_sock = some s := by
    rw [hdestroyed]
    exact (congrArg Stream.m_sock (Function.update_of_ne hji _ _)).trans hj
  have hreach := hserved.reached j s hstill
  rw [hdestroyed] at hreach
  exact absurd (hunlink.symm.trans hreach) (Option.some_ne_none _).symm

/-- **Step lemma.** A step keeps every listener served, or it is one that takes
the place of another. -/
theorem step_sound {a : Action ι} (hh : Sound path h) (ha : step path h a = some h') :
    (Alone h a ∧ Sound path h') ∨ (¬ Alone h a ∧ ¬ Served path h') := by
  cases a with
  | listen i w =>
    obtain rfl := Option.some.inj ha
    by_cases hidle : ∀ j, (h.streams j).m_sock = none
    · exact .inl ⟨hidle, hh.listen hidle⟩
    · obtain ⟨j, hj⟩ := not_forall.mp hidle
      obtain ⟨s, hs⟩ := Option.ne_none_iff_exists'.mp hj
      exact .inr ⟨hidle, hh.listen_lost hs⟩
  | destroyed i =>
    obtain rfl := Option.some.inj ha
    by_cases hbound : (h.streams i).bound_socket_path = []
    · refine .inl ⟨fun hcontra => absurd hbound hcontra, ?_⟩
      rw [Host.destroyed, if_neg (not_not.mpr hbound)]
      exact hh.close fun j s _ hj => hh.reached j s hj
    · have hpath := (hh.paths i).resolve_left hbound
      by_cases hidle : ∀ j, j ≠ i → (h.streams j).m_sock = none
      · refine .inl ⟨fun _ => hidle, ?_⟩
        rw [Host.destroyed, if_pos hbound]
        exact hh.close fun j s hji hj => by
          rw [hidle j hji] at hj
          cases hj
      · obtain ⟨j, hj⟩ := not_forall.mp hidle
        obtain ⟨hji, hsock⟩ := Classical.not_imp.mp hj
        obtain ⟨s, hs⟩ := Option.ne_none_iff_exists'.mp hsock
        exact .inr ⟨fun h => hidle (h hbound), hh.destroyed_lost hpath (hpath ▸ hbound) hji hs⟩
  | killed i =>
    obtain rfl := Option.some.inj ha
    exact .inl ⟨trivial, hh.close fun j s _ hj => hh.reached j s hj⟩

/-- No stream has listened yet. -/
def started (files : SocketFiles) : Host ι := { files := files, streams := fun _ => {} }

/-- **One listener at a time.** In a run over any files, every stream that
listens is reached by its path and every open socket has a stream to close it,
in every state, exactly if no stream begins to listen while one does, and none
that has the path is destroyed while another one listens. A stream that is
killed does no harm: the next one takes the name that was left. -/
theorem served_iff {files : SocketFiles} {actions : List (Action ι)}
    (hrun : run (step path) (started files) actions = some h) :
    Guarded (step path) Alone (started files) actions ↔
      ∀ before h, before <+: actions → run (step path) (started files) before = some h →
        Served path h := by
  refine Guarded.iff_of_step (I := Sound path) (fun _ hh => hh.toServed)
    (fun _ _ _ => step_sound) ?_ hrun
  exact Sound.of_idle (fun _ => rfl) rfl fun _ => .inl rfl

/-- The service is killed and starts again. -/
def restart : List (Action Bool) :=
  [.listen false ⟨true, true⟩, .killed false, .listen true ⟨true, true⟩]

def gpsPath : QString := "/run/kmre_gps".toList

theorem restart_served : ∃ h, run (step gpsPath) (started bare) restart = some h ∧
    Served gpsPath h ∧ (h.streams true).m_sock = some 1 := by
  have hend : (run (step gpsPath) (started bare) restart).map
      (fun h => (h.streams true).m_sock) = some (some 1) := by decide +kernel
  obtain ⟨h, hrun, hh⟩ := Option.map_eq_some_iff.mp hend
  exact ⟨h, hrun, (served_iff hrun).mp (by decide +kernel) restart h (List.prefix_refl _) hrun, hh⟩

end KmreManager.UnixStream
