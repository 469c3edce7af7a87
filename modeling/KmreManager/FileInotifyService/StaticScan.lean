import KmreManager.FileInotifyService.NoLoss
import KmreManager.Pathname
import KmreManager.Lib.Preorder

/-! # A scan of a tree that stands still

`addWatchRecursively` takes a path as a text, which may lead through symbolic
links. What it registers are the paths of `realpath`. The tree has entries of
every type, and the service may have registered anything before. -/
namespace KmreManager.FileInotifyService.StaticScan
open KmreManager.Lib KmreManager.Lib.PathWalk KmreManager.FileInotifyWatcher

/-- What is neither a directory nor a symbolic link. -/
inductive NodeKind
  | regular
  | fifo
  | socket
  | charDevice
  | blockDevice
  deriving DecidableEq, Repr

/-- What `st_mode & S_IFMT` tells apart. -/
inductive FileType
  | directory
  | symlink
  | node (kind : NodeKind)
  deriving DecidableEq, Repr

def fileType : Entry QString NodeKind → FileType
  | .dir => .directory
  | .symlink _ => .symlink
  | .file kind => .node kind

/-- A file system with finitely many entries, each under one name in a
directory. They are listed in the order in which `readdir` meets them. -/
structure Tree where
  entries : List (Place QString × Entry QString NodeKind)
  unique : (entries.map Prod.fst).Nodup
  root : ([], .dir) ∈ entries
  closed : ∀ name dir e, (name :: dir, e) ∈ entries → (dir, .dir) ∈ entries
  valid : ∀ name dir e, (name :: dir, e) ∈ entries → validName name = true
  cwd : Place QString

namespace Tree
variable (tree : Tree)

def node (p : Place QString) : Option (Entry QString NodeKind) :=
  (tree.entries.find? fun entry => entry.1 = p).map Prod.snd

/-- No place has more names. -/
def depth : Nat := (tree.entries.map fun entry => entry.1.length).foldr max 0

variable {tree} {p dir : Place QString} {e : Entry QString NodeKind} {name : QString}

theorem mem_of_node (h : tree.node p = some e) : (p, e) ∈ tree.entries := by
  obtain ⟨entry, hfind, rfl⟩ := Option.map_eq_some_iff.mp h
  have hplace : entry.1 = p := by simpa using List.find?_some hfind
  rw [← hplace]
  exact List.mem_of_find?_eq_some hfind

theorem node_eq_some : tree.node p = some e ↔ (p, e) ∈ tree.entries := by
  refine ⟨mem_of_node, fun hmem => ?_⟩
  have hsome : (tree.entries.find? fun entry => entry.1 = p).isSome := by
    rw [List.find?_isSome]
    exact ⟨_, hmem, by simp⟩
  obtain ⟨entry, hfind⟩ := Option.isSome_iff_exists.mp hsome
  have hplace : entry.1 = p := by simpa using List.find?_some hfind
  have hentry : entry = (p, e) :=
    List.inj_on_of_nodup_map tree.unique (List.mem_of_find?_eq_some hfind) hmem hplace
  rw [node, hfind, hentry, Option.map_some]

theorem node_root : tree.node [] = some .dir := node_eq_some.mpr tree.root

theorem length_le_depth (h : tree.node p = some e) : p.length ≤ tree.depth := by
  have hmem := mem_of_node h
  unfold depth
  generalize tree.entries = entries at hmem
  induction entries with
  | nil => cases hmem
  | cons entry entries ih =>
    simp only [List.map_cons, List.foldr_cons]
    rcases List.mem_cons.mp hmem with heq | hmem
    · rw [← heq]
      exact Nat.le_max_left _ _
    · exact (ih hmem).trans (Nat.le_max_right _ _)

variable (tree)

def fileSystem : HostFileSystem NodeKind := ⟨tree.node, node_root, tree.cwd⟩

@[simp] theorem fileSystem_node (p : Place QString) : tree.fileSystem.node p = tree.node p := rfl

theorem fileSystem_closed : tree.fileSystem.Closed := by
  intro name dir hnode
  obtain ⟨e, he⟩ := Option.ne_none_iff_exists'.mp hnode
  exact node_eq_some.mpr (tree.closed name dir e (node_eq_some.mp he))

/-! ## The system calls -/

def lstat (path : QString) : Option FileType :=
  if path = [] then none else (tree.fileSystem.lstat path.pathname).map fileType

def isPathFileType (path : QString) (fileType : FileType) : Bool := tree.lstat path = some fileType

def isPathDir (path : QString) : Bool := tree.isPathFileType path .directory

def isPathRegularFile (path : QString) : Bool := tree.isPathFileType path (.node .regular)

def realpath (path : QString) : Option QString :=
  if path = [] then none
  else (tree.fileSystem.target path.pathname).bind fun p => (tree.node p).map fun _ =>
    QString.ofPlace p

/-- The name of an entry of `dir`. -/
def nameIn (dir : Place QString) : Place QString → Option QString
  | [] => none
  | name :: parent => if parent = dir then some name else none

/-- What `readdir` returns, call by call. -/
def names (dir : Place QString) : List QString :=
  ".".toList :: "..".toList :: (tree.entries.map Prod.fst).filterMap (nameIn dir)

def opendir (path : QString) : Option (List QString) :=
  if path = [] then none
  else (tree.fileSystem.target path.pathname).bind fun p =>
    match tree.node p with
    | some .dir => some (tree.names p)
    | _ => none

end Tree

structure State (K : Type) where
  mInitialized : Bool
  mWatcher : Watcher K QString
  mFileList : List NotifyFileInfo

section Service
variable {K : Type} (env : Env) (sys : Inotify K QString) (tree : Tree)

def addWatchLocked (s : State K) (path : QString) : State K :=
  { s with mWatcher := (s.mWatcher.addWatch sys path watchMask).1 }

def addNotifyFileLocked (s : State K) (path : QString) : State K :=
  if env.notifies path then { s with mFileList := s.mFileList ++ [⟨path, -1⟩] } else s

/-- The round of the loop for one name, with the scan it calls. -/
def scanEntry (shouldNotifyFile : Bool) (scan : State K → QString → Option (State K))
    (resolvedPath : QString) (s : State K) (d_name : QString) : Option (State K) :=
  if d_name.length = 0 then some s
  else if d_name.head? = some '.' then some s
  else
    let filePath := resolvedPath ++ '/' :: d_name
    if tree.isPathRegularFile filePath && shouldNotifyFile then
      some (addNotifyFileLocked env s filePath)
    else if tree.isPathDir filePath then scan s filePath
    else some s

/-- The call may be `levels` deep; one that goes deeper has not returned. -/
def watchAndNotifyDirectoryRecursivelyLocked (shouldNotifyFile : Bool) :
    Nat → State K → QString → Option (State K)
  | 0, _, _ => none
  | levels + 1, s, path =>
    match tree.realpath path with
    | none => some s
    | some resolvedPath =>
      let s := addWatchLocked sys s resolvedPath
      match tree.opendir resolvedPath with
      | none => some s
      | some entries => entries.foldlM (scanEntry env tree shouldNotifyFile
          (watchAndNotifyDirectoryRecursivelyLocked shouldNotifyFile levels) resolvedPath) s

def addWatchRecursively (s : State K) (path : QString) (shouldNotifyFile : Bool) :
    Option (State K × Int) :=
  if !s.mInitialized then some (s, -1)
  else if !tree.isPathDir path then some (s, -1)
  else
    (watchAndNotifyDirectoryRecursivelyLocked env sys tree shouldNotifyFile (tree.depth + 1) s
      path).map fun s => (s, 0)

end Service

/-! ## Places and their paths -/

section Paths
variable {tree : Tree} {p dir : Place QString} {e : Entry QString NodeKind} {name : QString}

theorem step_of_valid (h : validName name = true) : name.step = .name name := by
  unfold validName at h
  obtain ⟨hne, hdot, hdots, -, -⟩ := of_decide_eq_true h
  rw [QString.step, if_neg (not_or.mpr ⟨hne, hdot⟩), if_neg hdots]

theorem not_mem_of_valid (h : validName name = true) : '/' ∉ name := by
  unfold validName at h
  exact (of_decide_eq_true h).2.2.2.1

/-- The names on the way to an entry are valid. -/
theorem Tree.valid_of_mem_place (h : tree.node p = some e) : ∀ n ∈ p, validName n = true := by
  induction p generalizing e with
  | nil => simp
  | cons n dir ih =>
    have hmem := Tree.mem_of_node h
    exact List.forall_mem_cons.mpr
      ⟨tree.valid n dir e hmem, ih (Tree.node_eq_some.mpr (tree.closed n dir e hmem))⟩

theorem filePath_cons (name : QString) (dir : Place QString) :
    filePath (name :: dir) = QString.ofPlace dir ++ '/' :: name := by
  cases dir with
  | nil => rfl
  | cons n dir => rfl

/-- `text` is the path of `p`, with any number of slashes at the front. -/
def Spells (text : QString) (p : Place QString) : Prop :=
  ∃ lead : List QString, (∀ n ∈ lead, n = []) ∧ lead ++ p.reverse ≠ [] ∧
    text = (lead ++ p.reverse).flatMap fun n => '/' :: n

theorem spells_ofPlace (p : Place QString) : Spells (QString.ofPlace p) p := by
  cases p with
  | nil => exact ⟨[[]], by simp, by simp, rfl⟩
  | cons n dir => exact ⟨[], by simp, by simp, rfl⟩

theorem spells_filePath (name : QString) (dir : Place QString) :
    Spells (filePath (name :: dir)) (name :: dir) := by
  cases dir with
  | nil => exact ⟨[[]], by simp, by simp, by simp [filePath]⟩
  | cons n dir => exact ⟨[], by simp, by simp, by simp [filePath]⟩

namespace Spells
variable {text : QString}

theorem ne_nil (h : Spells text p) : text ≠ [] := by
  obtain ⟨lead, -, hne, rfl⟩ := h
  obtain ⟨n, names, hnames⟩ := List.exists_cons_of_ne_nil hne
  rw [hnames]
  exact List.cons_ne_nil _ _

theorem walk (h : Spells text p) (hp : tree.node p = some e) {follow : Bool} {links : Nat}
    (hlink : follow = true → ∀ link, tree.node p ≠ some (.symlink link)) :
    text.pathname.absolute = true ∧
      tree.fileSystem.walk follow links [] text.pathname.steps = some p := by
  obtain ⟨lead, hlead, hne, rfl⟩ := h
  have hvalid := Tree.valid_of_mem_place hp
  have hslash : ∀ n ∈ lead ++ p.reverse, '/' ∉ n := by
    intro n hn
    rcases List.mem_append.mp hn with hn | hn
    · rw [hlead n hn]
      exact List.not_mem_nil
    · exact not_mem_of_valid (hvalid n (List.mem_reverse.mp hn))
  have hnames : p.reverse.map QString.step = p.reverse.map .name :=
    List.map_congr_left fun n hn => step_of_valid (hvalid n (List.mem_reverse.mp hn))
  have hplace : tree.fileSystem.walk follow links [] (p.reverse.map .name) = some p :=
    tree.fileSystem_closed.walk_place
      (by rw [Tree.fileSystem_node, hp]; exact Option.some_ne_none e) hlink
  rw [QString.pathname_flatMap hne hslash, List.map_append, hnames]
  refine ⟨rfl, ?_⟩
  rw [FileSystem.walk_here]
  clear hne hslash
  induction lead with
  | nil => exact hplace
  | cons n lead ih =>
    obtain rfl := hlead n List.mem_cons_self
    exact FileSystem.walk_here.trans (ih fun m hm => hlead m (List.mem_cons_of_mem _ hm))

theorem place (h : Spells text p) (hp : tree.node p = some e) :
    tree.fileSystem.place text.pathname = some p := by
  have hfollow : false = true → ∀ link, tree.node p ≠ some (.symlink link) := by simp
  obtain ⟨habsolute, hwalk⟩ := h.walk hp hfollow
  rw [FileSystem.place, habsolute]
  exact hwalk

theorem target (h : Spells text p) (hp : tree.node p = some .dir) :
    tree.fileSystem.target text.pathname = some p :=
  FileSystem.target_of_place (h.place hp) fun link hlink => by
    rw [Tree.fileSystem_node, hp] at hlink
    cases hlink

/-- A text is the path of one entry. -/
theorem unique {q : Place QString} {e' : Entry QString NodeKind} (h : Spells text p)
    (h' : Spells text q) (hp : tree.node p = some e) (hq : tree.node q = some e') : p = q :=
  Option.some.inj ((h.place hp).symm.trans (h'.place hq))

theorem lstat (h : Spells text p) (hp : tree.node p = some e) :
    tree.lstat text = some (fileType e) := by
  rw [Tree.lstat, if_neg h.ne_nil, FileSystem.lstat, h.place hp, Option.bind_some,
    Tree.fileSystem_node, hp, Option.map_some]

theorem isPathDir (h : Spells text p) (hp : tree.node p = some e) :
    tree.isPathDir text = true ↔ e = .dir := by
  rw [Tree.isPathDir, Tree.isPathFileType, h.lstat hp]
  cases e <;> simp [fileType]

theorem isPathRegularFile (h : Spells text p) (hp : tree.node p = some e) :
    tree.isPathRegularFile text = true ↔ e = .file .regular := by
  rw [Tree.isPathRegularFile, Tree.isPathFileType, h.lstat hp]
  cases e <;> simp [fileType]

theorem realpath (h : Spells text p) (hp : tree.node p = some .dir) :
    tree.realpath text = some (QString.ofPlace p) := by
  rw [Tree.realpath, if_neg h.ne_nil, h.target hp, Option.bind_some, hp, Option.map_some]

theorem opendir (h : Spells text p) (hp : tree.node p = some .dir) :
    tree.opendir text = some (tree.names p) := by
  simp only [Tree.opendir, if_neg h.ne_nil, h.target hp, Option.bind_some, hp]

end Spells
end Paths

/-! ## The scan as a visit of the tree -/

section Visit
variable {K : Type} (env : Env) (sys : Inotify K QString) (tree : Tree) (shouldNotifyFile : Bool)

/-- The entries of a directory that are not hidden. -/
def Tree.children (p : Place QString) : List (Place QString) :=
  match tree.node p with
  | some .dir => ((tree.names p).filter fun n => n.head? ≠ some '.').map fun n => n :: p
  | _ => []

/-- Does the scan tell of this entry? -/
def Tree.tells (p : Place QString) : Bool :=
  match tree.node p with
  | some (.file .regular) => shouldNotifyFile && env.notifies (filePath p)
  | _ => false

def Tree.isDir (p : Place QString) : Bool :=
  match tree.node p with
  | some .dir => true
  | _ => false

/-- What the scan does with one entry. -/
def visit (s : State K) (p : Place QString) : State K :=
  if tree.isDir p then addWatchLocked sys s (QString.ofPlace p)
  else if tree.tells env shouldNotifyFile p then
    { s with mFileList := s.mFileList ++ [⟨filePath p, -1⟩] }
  else s

variable {env sys tree shouldNotifyFile} {s : State K} {p dir : Place QString} {name : QString}
  {e : Entry QString NodeKind} {levels : Nat}

theorem Tree.isDir_iff : tree.isDir p = true ↔ tree.node p = some .dir := by
  unfold Tree.isDir
  split
  · rename_i h; simp [h]
  · rename_i h; simpa using h

theorem Tree.nameIn_eq_some : Tree.nameIn dir p = some name ↔ p = name :: dir := by
  cases p with
  | nil => simp [Tree.nameIn]
  | cons n parent =>
    simp only [Tree.nameIn, Option.ite_none_right_eq_some, Option.some_inj, List.cons.injEq]
    exact and_comm

/-- `readdir` returns `.`, `..` and the names of the entries. -/
theorem Tree.mem_names : name ∈ tree.names dir ↔
    name = ".".toList ∨ name = "..".toList ∨ ∃ e, tree.node (name :: dir) = some e := by
  have hentry : name :: dir ∈ tree.entries.map Prod.fst ↔
      ∃ e, tree.node (name :: dir) = some e := by
    simp only [List.mem_map, Prod.exists, exists_and_right, exists_eq_right, Tree.node_eq_some]
  simp only [Tree.names, List.mem_cons, List.mem_filterMap, Tree.nameIn_eq_some, exists_eq_right,
    hentry]

theorem Tree.children_of_dir (hdir : tree.node dir = some .dir) : tree.children dir =
    ((tree.names dir).filter fun n => n.head? ≠ some '.').map fun n => n :: dir := by
  simp only [Tree.children, hdir]

theorem Tree.children_of_not_dir (hdir : tree.node dir ≠ some .dir) : tree.children dir = [] := by
  unfold Tree.children
  split
  · rename_i h
    exact absurd h hdir
  · rfl

theorem Tree.mem_children : p ∈ tree.children dir ↔ tree.node dir = some .dir ∧
    ∃ name e, p = name :: dir ∧ name.head? ≠ some '.' ∧ tree.node p = some e := by
  by_cases hdir : tree.node dir = some .dir
  · simp only [Tree.children_of_dir hdir, List.mem_map, List.mem_filter, Tree.mem_names,
      decide_eq_true_eq, hdir, true_and]
    constructor
    · rintro ⟨name, ⟨rfl | rfl | ⟨e, he⟩, hdot⟩, rfl⟩
      · exact absurd rfl hdot
      · exact absurd rfl hdot
      · exact ⟨name, e, rfl, hdot, he⟩
    · rintro ⟨name, e, rfl, hdot, he⟩
      exact ⟨name, ⟨.inr (.inr ⟨e, he⟩), hdot⟩, rfl⟩
  · simp [Tree.children_of_not_dir hdir, hdir]

theorem Tree.nodup_children (dir : Place QString) : (tree.children dir).Nodup := by
  by_cases hdir : tree.node dir = some .dir
  · have hnames : ((tree.entries.map Prod.fst).filterMap (Tree.nameIn dir)).Nodup :=
      tree.unique.filterMap fun p q name hp hq =>
        (Tree.nameIn_eq_some.mp hp).trans (Tree.nameIn_eq_some.mp hq).symm
    rw [Tree.children_of_dir hdir, Tree.names, List.filter_cons_of_neg (by decide),
      List.filter_cons_of_neg (by decide)]
    exact (hnames.filter _).map fun n m heq => (List.cons.inj heq).1
  · rw [Tree.children_of_not_dir hdir]
    exact List.nodup_nil

/-- An entry stands one name below its directory, which lists it once. -/
theorem Tree.ranked : Preorder.Ranked tree.children List.length where
  rank_child dir p hp := by
    obtain ⟨-, name, e, rfl, -, -⟩ := Tree.mem_children.mp hp
    rfl
  parent_unique dir dir' p hp hp' := by
    obtain ⟨-, name, e, rfl, -, -⟩ := Tree.mem_children.mp hp
    obtain ⟨-, name', e', heq, -, -⟩ := Tree.mem_children.mp hp'
    exact (List.cons.inj heq).2
  nodup := Tree.nodup_children

theorem Tree.tells_iff : tree.tells env shouldNotifyFile p = true ↔
    tree.node p = some (.file .regular) ∧ shouldNotifyFile = true ∧
      env.notifies (filePath p) = true := by
  unfold Tree.tells
  split
  · rename_i h; simp [h]
  · rename_i h
    refine iff_of_false (by simp) fun hp => h hp.1

theorem visit_dir (hp : tree.node p = some .dir) :
    visit env sys tree shouldNotifyFile s p = addWatchLocked sys s (QString.ofPlace p) := by
  rw [visit, if_pos (Tree.isDir_iff.mpr hp)]

/-- What the loop does with an entry that is no directory. -/
theorem visit_leaf (hp : tree.node p = some e) (hdir : e ≠ .dir) {text : QString}
    (htext : Spells text p) (hfile : text = filePath p) :
    visit env sys tree shouldNotifyFile s p =
      if tree.isPathRegularFile text && shouldNotifyFile then addNotifyFileLocked env s text
      else s := by
  have hnot : ¬ tree.isDir p = true := by
    rw [Tree.isDir_iff, hp]
    simpa using hdir
  subst hfile
  rw [visit, if_neg hnot]
  by_cases hregular : e = .file .regular
  · subst hregular
    rw [(htext.isPathRegularFile hp).mpr rfl, Bool.true_and, addNotifyFileLocked]
    cases shouldNotifyFile with
    | true => simp [Tree.tells, hp]
    | false => simp [Tree.tells, hp]
  · have htells : ¬ tree.tells env shouldNotifyFile p = true := by
      rw [Tree.tells_iff, hp]
      exact fun h => hregular (Option.some.inj h.1)
    have hpath : ¬ (tree.isPathRegularFile (filePath p) && shouldNotifyFile) = true := by
      rw [Bool.and_eq_true, htext.isPathRegularFile hp]
      exact fun h => hregular h.1
    rw [if_neg htells, if_neg hpath]

/-- One round of the loop visits the entry and what is below it. -/
theorem scanEntry_eq {scan : State K → QString → Option (State K)}
    (hscan : ∀ name s, tree.node (name :: dir) = some .dir → scan s (filePath (name :: dir)) =
      some ((Preorder.preorder tree.children levels (name :: dir)).foldl
        (visit env sys tree shouldNotifyFile) s))
    (hlevels : tree.depth < dir.length + 1 + levels) (hname : name ∈ tree.names dir) :
    scanEntry env tree shouldNotifyFile scan (QString.ofPlace dir) s name = some
      (if name.head? = some '.' then s
      else (Preorder.preorder tree.children levels (name :: dir)).foldl
        (visit env sys tree shouldNotifyFile) s) := by
  unfold scanEntry
  by_cases hdot : name.head? = some '.'
  · rw [if_pos hdot, if_pos hdot, ite_self]
  · obtain ⟨e, he⟩ : ∃ e, tree.node (name :: dir) = some e := by
      rcases Tree.mem_names.mp hname with rfl | rfl | he
      · exact absurd rfl hdot
      · exact absurd rfl hdot
      · exact he
    have hne : name.length ≠ 0 := by
      have hvalid := Tree.valid_of_mem_place he name List.mem_cons_self
      intro hlen
      rw [List.length_eq_zero_iff.mp hlen] at hvalid
      cases hvalid
    have hspells := spells_filePath name dir
    rw [if_neg hne, if_neg hdot, if_neg hdot, ← filePath_cons]
    dsimp only
    by_cases hsub : e = .dir
    · subst hsub
      have hregular : tree.isPathRegularFile (filePath (name :: dir)) = false := by
        rw [← Bool.not_eq_true, hspells.isPathRegularFile he]
        simp
      rw [hregular, Bool.false_and, if_neg (by simp), if_pos ((hspells.isPathDir he).mpr rfl),
        hscan _ _ he]
    · obtain ⟨m, rfl⟩ : ∃ m, levels = m + 1 := by
        have hdepth := Tree.length_le_depth he
        rw [List.length_cons] at hdepth
        exact Nat.exists_eq_succ_of_ne_zero (by omega)
      have hleaf : tree.children (name :: dir) = [] :=
        Tree.children_of_not_dir (by rw [he]; simpa using hsub)
      have hpath : ¬ tree.isPathDir (filePath (name :: dir)) = true := by
        rwa [hspells.isPathDir he]
      rw [Preorder.preorder, hleaf, List.flatMap_nil, List.foldl_cons, List.foldl_nil, if_neg hpath,
        visit_leaf he hsub hspells rfl, apply_ite some]

theorem foldlM_eq {σ α : Type} {f : σ → α → Option σ} {g : σ → α → σ} {as : List α} {s : σ}
    (h : ∀ a ∈ as, ∀ s, f s a = some (g s a)) : as.foldlM f s = some (as.foldl g s) := by
  induction as generalizing s with
  | nil => rfl
  | cons a as ih =>
    rw [List.foldlM_cons, h a List.mem_cons_self, List.foldl_cons]
    exact ih fun b hb => h b (List.mem_cons_of_mem a hb)

/-- A scan that may go deep enough visits all that is below its directory, each
directory before its entries. -/
theorem scan_eq (levels : Nat) {path : QString} (hdir : tree.node dir = some .dir)
    (hpath : tree.realpath path = some (QString.ofPlace dir))
    (hlevels : tree.depth < dir.length + levels) :
    watchAndNotifyDirectoryRecursivelyLocked env sys tree shouldNotifyFile levels s path =
      some ((Preorder.preorder tree.children levels dir).foldl
        (visit env sys tree shouldNotifyFile) s) := by
  induction levels generalizing s path dir with
  | zero => exact absurd (Tree.length_le_depth hdir) (by omega)
  | succ levels ih =>
    have hround : ∀ name ∈ tree.names dir, ∀ s,
        scanEntry env tree shouldNotifyFile (watchAndNotifyDirectoryRecursivelyLocked env sys tree
          shouldNotifyFile levels) (QString.ofPlace dir) s name = some
        (if name.head? = some '.' then s
        else (Preorder.preorder tree.children levels (name :: dir)).foldl
          (visit env sys tree shouldNotifyFile) s) := fun name hname s =>
      scanEntry_eq (fun name s hsub => ih hsub ((spells_filePath name dir).realpath hsub) (by
        rw [List.length_cons]
        omega)) (by omega) hname
    rw [watchAndNotifyDirectoryRecursivelyLocked, hpath]
    dsimp only
    rw [(spells_ofPlace dir).opendir hdir]
    dsimp only
    rw [foldlM_eq hround, Preorder.preorder, List.foldl_cons, visit_dir hdir,
      Tree.children_of_dir hdir, List.foldl_flatMap, List.foldl_map, List.foldl_filter]
    simp

end Visit

/-! ## What a scan leaves behind -/

/-- The root of the scan and the directories that real, visible directories lead
to from there. -/
inductive Scanned (tree : Tree) (root : Place QString) : Place QString → Prop
  | root : Scanned tree root root
  | entry {name : QString} {dir : Place QString} (hdir : Scanned tree root dir)
      (hname : name.head? ≠ some '.') (hsub : tree.node (name :: dir) = some .dir) :
      Scanned tree root (name :: dir)

/-- `s'` is `s` after an exact scan from `root`: both tables have the scanned
directories, and each of their files of which the service tells is listed once. -/
structure ScannedExactly {K : Type} (env : Env) (tree : Tree) (shouldNotifyFile : Bool)
    (root : Place QString) (s s' : State K) : Prop where
  registered : ∀ path, (s'.mWatcher.mPathToWdMap path).isSome = true ↔
    (s.mWatcher.mPathToWdMap path).isSome = true ∨
      ∃ dir, Scanned tree root dir ∧ path = QString.ofPlace dir
  described : ∀ path, (∃ wd, (wd, path) ∈ s'.mWatcher.mWdToPathMap) ↔
    (∃ wd, (wd, path) ∈ s.mWatcher.mWdToPathMap) ∨
      s.mWatcher.mPathToWdMap path = none ∧
        ∃ dir, Scanned tree root dir ∧ path = QString.ofPlace dir
  listed : ∃ paths : List QString,
    s'.mFileList = s.mFileList ++ paths.map (fun path => ⟨path, -1⟩) ∧ paths.Nodup ∧
      ∀ path, path ∈ paths ↔ shouldNotifyFile = true ∧ ∃ name dir, Scanned tree root dir ∧
        name.head? ≠ some '.' ∧ tree.node (name :: dir) = some (.file .regular) ∧
          path = QString.ofPlace dir ++ '/' :: name ∧ env.notifies path = true
  unchanged : shouldNotifyFile = false → s'.mFileList = s.mFileList

section Results
variable {K : Type} {env : Env} {sys : Inotify K QString} {tree : Tree} {shouldNotifyFile : Bool}
  {s : State K} {p root : Place QString} {ok : K → Prop}

theorem below_node (hroot : tree.node root = some .dir)
    (h : Preorder.Below tree.children root p) : ∃ e, tree.node p = some e := by
  rcases Relation.ReflTransGen.cases_tail h with rfl | ⟨dir, -, hchild⟩
  · exact ⟨_, hroot⟩
  · obtain ⟨-, name, e, -, -, he⟩ := Tree.mem_children.mp hchild
    exact ⟨e, he⟩

theorem scanned_iff_below (hroot : tree.node root = some .dir) : Scanned tree root p ↔
    Preorder.Below tree.children root p ∧ tree.node p = some .dir := by
  constructor
  · intro h
    induction h with
    | root => exact ⟨.refl, hroot⟩
    | entry _ hname hsub ih =>
      exact ⟨ih.1.tail (Tree.mem_children.mpr ⟨ih.2, _, _, rfl, hname, hsub⟩), hsub⟩
  · rintro ⟨hbelow, hp⟩
    induction hbelow with
    | refl => exact .root
    | tail _ hchild ih =>
      obtain ⟨hdir, name, e, rfl, hname, -⟩ := Tree.mem_children.mp hchild
      exact .entry (ih hdir) hname hp

/-- What is below the root and no directory stands in a scanned one. -/
theorem below_file_iff (hroot : tree.node root = some .dir)
    (hp : tree.node p = some (.file .regular)) : Preorder.Below tree.children root p ↔
      ∃ name dir, p = name :: dir ∧ Scanned tree root dir ∧ name.head? ≠ some '.' := by
  constructor
  · intro hbelow
    rcases Relation.ReflTransGen.cases_tail hbelow with rfl | ⟨dir, hdir, hchild⟩
    · rw [hroot] at hp
      cases hp
    · obtain ⟨hd, name, e, rfl, hname, -⟩ := Tree.mem_children.mp hchild
      exact ⟨name, dir, rfl, (scanned_iff_below hroot).mpr ⟨hdir, hd⟩, hname⟩
  · rintro ⟨name, dir, rfl, hdir, hname⟩
    obtain ⟨hbelow, hd⟩ := (scanned_iff_below hroot).mp hdir
    exact hbelow.tail (Tree.mem_children.mpr ⟨hd, name, _, rfl, hname, hp⟩)

/-- `s'` is `s` after the entries `ps` have been visited. -/
structure Visited (env : Env) (tree : Tree) (shouldNotifyFile : Bool) (ps : List (Place QString))
    (s s' : State K) : Prop where
  initialized : s'.mWatcher.mInitialized = s.mWatcher.mInitialized
  registered : ∀ path, (s'.mWatcher.mPathToWdMap path).isSome = true ↔
    (s.mWatcher.mPathToWdMap path).isSome = true ∨
      ∃ p ∈ ps, tree.isDir p = true ∧ path = QString.ofPlace p
  described : ∀ path, (∃ wd, (wd, path) ∈ s'.mWatcher.mWdToPathMap) ↔
    (∃ wd, (wd, path) ∈ s.mWatcher.mWdToPathMap) ∨
      s.mWatcher.mPathToWdMap path = none ∧ ∃ p ∈ ps, tree.isDir p = true ∧ path = QString.ofPlace p
  listed : s'.mFileList = s.mFileList ++
    (ps.filter (tree.tells env shouldNotifyFile)).map fun p => ⟨filePath p, -1⟩

theorem Visited.nil : Visited env tree shouldNotifyFile [] s s :=
  ⟨rfl, by simp, by simp, by simp⟩

/-- A directory is registered unless it was. -/
theorem visited_dir (hinit : s.mWatcher.mInitialized = true) (hp : tree.isDir p = true)
    (hwatch : 0 ≤ (sys.inotify_add_watch s.mWatcher.kernel (QString.ofPlace p) watchMask).2 ∧
      ok (sys.inotify_add_watch s.mWatcher.kernel (QString.ofPlace p) watchMask).1)
    (hok : ok s.mWatcher.kernel) :
    Visited env tree shouldNotifyFile [p] s (addWatchLocked sys s (QString.ofPlace p)) ∧
      ok (addWatchLocked sys s (QString.ofPlace p)).mWatcher.kernel := by
  have htells : tree.tells env shouldNotifyFile p = false := by
    rw [← Bool.not_eq_true, Tree.tells_iff, Tree.isDir_iff.mp hp]
    simp
  generalize hw : s.mWatcher.addWatch sys (QString.ofPlace p) watchMask = result
  obtain ⟨w, ret⟩ := result
  rw [addWatchLocked, hw]
  rcases Watcher.addWatch_cases hw with ⟨-, -, hnot⟩ | ⟨rfl, -, wd, hwd⟩ |
    ⟨kernel, wd, hadd, -, hfree, ⟨hneg, -, -⟩ | ⟨-, -, rfl⟩⟩
  · rw [hinit] at hnot
    cases hnot
  · refine ⟨⟨rfl, fun path => ?_, fun path => ?_, by simp [htells]⟩, hok⟩
    · simp only [List.mem_singleton, exists_eq_left, hp, true_and, iff_self_or]
      rintro rfl
      rw [hwd]
      rfl
    · simp only [List.mem_singleton, exists_eq_left, hp, true_and, iff_self_or]
      rintro ⟨hnone, rfl⟩
      rw [hwd] at hnone
      cases hnone
  · rw [hadd] at hwatch
    omega
  · rw [hadd] at hwatch
    refine ⟨⟨rfl, fun path => ?_, fun path => ?_, by simp [htells]⟩, hwatch.2⟩
    · simp only [List.mem_singleton, exists_eq_left, hp, true_and]
      by_cases heq : path = QString.ofPlace p
      · simp [heq]
      · simp [heq]
    · constructor
      · rintro ⟨wd', hmem⟩
        rcases List.mem_cons.mp hmem with heq | hmem
        · obtain ⟨-, rfl⟩ := Prod.mk.inj heq
          exact .inr ⟨hfree, p, List.mem_singleton_self p, hp, rfl⟩
        · exact .inl ⟨wd', hmem⟩
      · rintro (⟨wd', hmem⟩ | ⟨-, q, hq, -, rfl⟩)
        · exact ⟨wd', List.mem_cons_of_mem _ hmem⟩
        · obtain rfl := List.mem_singleton.mp hq
          exact ⟨wd, List.mem_cons_self⟩

theorem visited_visit (hinit : s.mWatcher.mInitialized = true) (hok : ok s.mWatcher.kernel)
    (hwatch : tree.isDir p = true →
      0 ≤ (sys.inotify_add_watch s.mWatcher.kernel (QString.ofPlace p) watchMask).2 ∧
        ok (sys.inotify_add_watch s.mWatcher.kernel (QString.ofPlace p) watchMask).1) :
    Visited env tree shouldNotifyFile [p] s (visit env sys tree shouldNotifyFile s p) ∧
      ok (visit env sys tree shouldNotifyFile s p).mWatcher.kernel := by
  by_cases hp : tree.isDir p = true
  · rw [visit, if_pos hp]
    exact visited_dir hinit hp (hwatch hp) hok
  · rw [visit, if_neg hp]
    split
    · rename_i htells
      exact ⟨⟨rfl, by simp [hp], by simp [hp], by simp [htells]⟩, hok⟩
    · rename_i htells
      exact ⟨⟨rfl, by simp [hp], by simp [hp], by simp [htells]⟩, hok⟩

theorem Visited.cons {t u : State K} {ps : List (Place QString)}
    (h : Visited env tree shouldNotifyFile [p] s t)
    (h' : Visited env tree shouldNotifyFile ps t u) :
    Visited env tree shouldNotifyFile (p :: ps) s u where
  initialized := h'.initialized.trans h.initialized
  registered path := by
    rw [h'.registered, h.registered, or_assoc]
    simp only [List.mem_cons, List.not_mem_nil, or_false, or_and_right, exists_or]
  described path := by
    have hnone : t.mWatcher.mPathToWdMap path = none ↔ s.mWatcher.mPathToWdMap path = none ∧
        ¬ (tree.isDir p = true ∧ path = QString.ofPlace p) := by
      rw [← Option.not_isSome_iff_eq_none, h.registered path, not_or,
        Option.not_isSome_iff_eq_none]
      simp only [List.mem_singleton, exists_eq_left]
    rw [h'.described, h.described, hnone]
    simp only [List.mem_cons, List.not_mem_nil, or_false, or_and_right, exists_or, exists_eq_left]
    tauto
  listed := by
    rw [h'.listed, h.listed, ← List.singleton_append (l := ps), List.filter_append, List.map_append,
      List.append_assoc]

theorem visited_foldl {ps : List (Place QString)} (hinit : s.mWatcher.mInitialized = true)
    (hok : ok s.mWatcher.kernel)
    (hwatch : ∀ p ∈ ps, tree.isDir p = true → ∀ kernel, ok kernel →
      0 ≤ (sys.inotify_add_watch kernel (QString.ofPlace p) watchMask).2 ∧
        ok (sys.inotify_add_watch kernel (QString.ofPlace p) watchMask).1) :
    Visited env tree shouldNotifyFile ps s (ps.foldl (visit env sys tree shouldNotifyFile) s) := by
  induction ps generalizing s with
  | nil => exact .nil
  | cons p ps ih =>
    have hfirst : Visited env tree shouldNotifyFile [p] s
          (visit env sys tree shouldNotifyFile s p) ∧
        ok (visit env sys tree shouldNotifyFile s p).mWatcher.kernel :=
      visited_visit hinit hok fun hp => hwatch p List.mem_cons_self hp _ hok
    exact hfirst.1.cons (ih (hfirst.1.initialized.trans hinit) hfirst.2 fun q hq =>
      hwatch q (List.mem_cons_of_mem p hq))

/-- What a visit of all that is below the root leaves behind. -/
theorem Visited.exact {s' : State K} {ps : List (Place QString)}
    (hroot : tree.node root = some .dir) (h : Visited env tree shouldNotifyFile ps s s')
    (hnodup : ps.Nodup)
    (hps : ∀ p, p ∈ ps ↔ Preorder.Below tree.children root p) :
    ScannedExactly env tree shouldNotifyFile root s s' where
  registered path := by
    rw [h.registered]
    simp only [hps, Tree.isDir_iff, scanned_iff_below hroot, and_assoc]
  described path := by
    rw [h.described]
    simp only [hps, Tree.isDir_iff, scanned_iff_below hroot, and_assoc]
  listed := by
    refine ⟨(ps.filter (tree.tells env shouldNotifyFile)).map filePath, ?_, ?_, fun path => ?_⟩
    · rw [h.listed, List.map_map]
      rfl
    · refine (List.nodup_map_iff_inj_on (hnodup.filter _)).mpr fun p hp q hq heq => ?_
      obtain ⟨hpbelow, hpreg, -⟩ := And.imp (hps p).mp Tree.tells_iff.mp (List.mem_filter.mp hp)
      obtain ⟨hqbelow, hqreg, -⟩ := And.imp (hps q).mp Tree.tells_iff.mp (List.mem_filter.mp hq)
      obtain ⟨name, dir, rfl, -, -⟩ := (below_file_iff hroot hpreg).mp hpbelow
      obtain ⟨name', dir', rfl, -, -⟩ := (below_file_iff hroot hqreg).mp hqbelow
      exact (spells_filePath name dir).unique (heq ▸ spells_filePath name' dir') hpreg hqreg
    · simp only [List.mem_map, List.mem_filter, Tree.tells_iff, hps]
      constructor
      · rintro ⟨p, ⟨hbelow, hreg, hflag, hnotifies⟩, rfl⟩
        obtain ⟨name, dir, rfl, hdir, hname⟩ := (below_file_iff hroot hreg).mp hbelow
        exact ⟨hflag, name, dir, hdir, hname, hreg, filePath_cons name dir, hnotifies⟩
      · rintro ⟨hflag, name, dir, hdir, hname, hreg, rfl, hnotifies⟩
        rw [← filePath_cons] at hnotifies ⊢
        exact ⟨name :: dir, ⟨(below_file_iff hroot hreg).mpr ⟨name, dir, rfl, hdir, hname⟩, hreg,
          hflag, hnotifies⟩, rfl⟩
  unchanged hflag := by
    have hnone : ps.filter (tree.tells env shouldNotifyFile) = [] :=
      List.filter_eq_nil_iff.mpr fun p _ htells => by
        rw [Tree.tells_iff, hflag] at htells
        exact Bool.false_ne_true htells.2.1
    rw [h.listed, hnone, List.map_nil, List.append_nil]

/-- A path that names a directory leads to one by `realpath`, too. -/
theorem Tree.realpath_of_isPathDir {path : QString} (h : tree.isPathDir path = true) :
    ∃ root, tree.realpath path = some (QString.ofPlace root) ∧ tree.node root = some .dir := by
  have hlstat : tree.lstat path = some .directory := of_decide_eq_true h
  rw [Tree.lstat, Option.ite_none_left_eq_some, Option.map_eq_some_iff] at hlstat
  obtain ⟨hpath, e, he, htype⟩ := hlstat
  have hdir : e = .dir := by
    cases e <;> simp [fileType] at htype ⊢
  subst hdir
  obtain ⟨root, hplace, hroot⟩ := Option.bind_eq_some_iff.mp he
  have hnode : tree.node root = some .dir := hroot
  have htarget := FileSystem.target_of_place hplace fun link hlink => by
    rw [hroot] at hlink
    cases hlink
  refine ⟨root, ?_, hnode⟩
  rw [Tree.realpath, if_neg hpath, htarget, Option.bind_some, hnode, Option.map_some]

/-- The kernel adds every watch for which the scan asks. -/
def AddsWatches (sys : Inotify K QString) (tree : Tree) (root : Place QString)
    (kernel : K) : Prop :=
  ∃ ok : K → Prop, ok kernel ∧ ∀ kernel dir, ok kernel → Scanned tree root dir →
    0 ≤ (sys.inotify_add_watch kernel (QString.ofPlace dir) watchMask).2 ∧
      ok (sys.inotify_add_watch kernel (QString.ofPlace dir) watchMask).1

/-- On a directory the scan returns, and what it leaves behind is exact. -/
theorem exact_of_realpath {path : QString} (hservice : s.mInitialized = true)
    (hwatcher : s.mWatcher.mInitialized = true) (hpath : tree.isPathDir path = true)
    (hreal : tree.realpath path = some (QString.ofPlace root)) (hroot : tree.node root = some .dir)
    (hadds : AddsWatches sys tree root s.mWatcher.kernel) :
    ∃ s', addWatchRecursively env sys tree s path shouldNotifyFile = some (s', 0) ∧
      ScannedExactly env tree shouldNotifyFile root s s' := by
  obtain ⟨ok, hok, hwatch⟩ := hadds
  have hscan : watchAndNotifyDirectoryRecursivelyLocked env sys tree shouldNotifyFile
      (tree.depth + 1) s path = some ((Preorder.preorder tree.children (tree.depth + 1) root).foldl
        (visit env sys tree shouldNotifyFile) s) := scan_eq _ hroot hreal (by omega)
  have hbelow : ∀ p, p ∈ Preorder.preorder tree.children (tree.depth + 1) root ↔
      Preorder.Below tree.children root p := by
    refine fun p => ⟨Preorder.below_of_mem_preorder, fun hp => ?_⟩
    obtain ⟨e, he⟩ := below_node hroot hp
    have hdepth := Tree.length_le_depth he
    exact Tree.ranked.mem_preorder_of_below hp (by omega)
  have hadds : ∀ p ∈ Preorder.preorder tree.children (tree.depth + 1) root, tree.isDir p = true →
      ∀ kernel, ok kernel →
        0 ≤ (sys.inotify_add_watch kernel (QString.ofPlace p) watchMask).2 ∧
          ok (sys.inotify_add_watch kernel (QString.ofPlace p) watchMask).1 := by
    intro p hp hdir kernel hkernel
    have hscanned := (scanned_iff_below hroot).mpr ⟨(hbelow p).mp hp, Tree.isDir_iff.mp hdir⟩
    exact hwatch kernel p hkernel hscanned
  have hvisited : Visited env tree shouldNotifyFile _ s
      ((Preorder.preorder tree.children (tree.depth + 1) root).foldl
        (visit env sys tree shouldNotifyFile) s) := visited_foldl hwatcher hok hadds
  refine ⟨_, ?_, hvisited.exact hroot (Tree.ranked.nodup_preorder _ root) hbelow⟩
  rw [addWatchRecursively, hservice, hpath, hscan]
  rfl

/-- **The scan is exact.** On a directory, `addWatchRecursively` returns 0 and
registers the directories that it scans and tells of their files. -/
theorem addWatchRecursively_exact {path : QString} (hservice : s.mInitialized = true)
    (hwatcher : s.mWatcher.mInitialized = true) (hpath : tree.isPathDir path = true) :
    ∃ root, tree.realpath path = some (QString.ofPlace root) ∧
      (AddsWatches sys tree root s.mWatcher.kernel →
        ∃ s', addWatchRecursively env sys tree s path shouldNotifyFile = some (s', 0) ∧
          ScannedExactly env tree shouldNotifyFile root s s') := by
  obtain ⟨root, hreal, hroot⟩ := Tree.realpath_of_isPathDir hpath
  exact ⟨root, hreal, exact_of_realpath hservice hwatcher hpath hreal hroot⟩

end Results
/-! ## A user's pictures -/

/-- A kernel that numbers the paths in the order in which they are added. -/
def numbering : Inotify (List QString) QString where
  inotify_init1 watches := (watches, 3)
  inotify_add_watch watches path _ :=
    if watches.contains path then (watches, watches.idxOf path + 1)
    else (watches ++ [path], watches.length + 1)
  inotify_rm_watch watches _ := (watches, 0)
  close _ := []

def user : Place QString := ["kylin".toList, "home".toList]

/-- Entries whose parents are among them. -/
theorem closed_of_parents {entries : List (Place QString × Entry QString NodeKind)}
    (h : ∀ entry ∈ entries, entry.1 = [] ∨
      ∃ parent ∈ entries, parent.1 = entry.1.tail ∧ fileType parent.2 = .directory)
    (name : QString) (dir : Place QString) (e : Entry QString NodeKind)
    (hmem : (name :: dir, e) ∈ entries) : (dir, .dir) ∈ entries := by
  obtain hnil | ⟨⟨parent, e'⟩, hparent, rfl, htype⟩ := h _ hmem
  · cases hnil
  · cases e' with
    | dir => exact hparent
    | file kind => cases htype
    | symlink target => cases htype

/-- The user's directory has a second name, which is a link. -/
def home : List (Place QString × Entry QString NodeKind) :=
  [("sub".toList :: "album".toList :: user, .dir),
    ("pipe".toList :: "album".toList :: user, .file .fifo),
    (".b.png".toList :: "album".toList :: user, .file .regular),
    ("a.png".toList :: "album".toList :: user, .file .regular), ("album".toList :: user, .dir),
    (["me".toList, "home".toList], .symlink ⟨false, [.name "kylin".toList]⟩), (user, .dir),
    (["home".toList], .dir), ([], .dir)]

theorem home_closed : ∀ entry ∈ home, entry.1 = [] ∨
    ∃ parent ∈ home, parent.1 = entry.1.tail ∧ fileType parent.2 = .directory := by
  decide +kernel

theorem home_valid : ∀ entry ∈ home, entry.1.head?.all validName = true := by
  decide +kernel

def homeTree : Tree where
  entries := home
  unique := by decide +kernel
  root := by simp [home]
  closed := closed_of_parents home_closed
  valid name dir e hmem := by simpa using home_valid _ hmem
  cwd := []

/-- The album has been registered before. -/
def registered : State (List QString) where
  mInitialized := true
  mWatcher :=
    { mWdToPathMap := [(1, "/home/kylin/album".toList)]
      mPathToWdMap := Function.update (fun _ => none) "/home/kylin/album".toList (some 1)
      mInotifyFd := 3
      mInitialized := true
      kernel := ["/home/kylin/album".toList] }
  mFileList := []

theorem adds_numbering (tree : Tree) (root : Place QString) (watches : List QString) :
    AddsWatches numbering tree root watches := by
  refine ⟨fun _ => True, trivial, fun watches dir _ _ => ⟨?_, trivial⟩⟩
  simp only [numbering]
  split <;> simp <;> omega

theorem album_exact : ∃ root s', QString.ofPlace root = "/home/kylin/album".toList ∧
    addWatchRecursively userEnv numbering homeTree registered "/home/me/../me/album".toList true =
      some (s', 0) ∧
    ScannedExactly userEnv homeTree true root registered s' := by
  have halbum : homeTree.realpath "/home/me/../me/album".toList =
      some "/home/kylin/album".toList := by decide +kernel
  obtain ⟨root, hreal, hscan⟩ := @addWatchRecursively_exact _ userEnv numbering homeTree true
    registered "/home/me/../me/album".toList rfl rfl (by decide +kernel)
  obtain ⟨s', hs', hexact⟩ := hscan (adds_numbering homeTree root _)
  exact ⟨root, s', Option.some.inj (hreal.symm.trans halbum), hs', hexact⟩

end KmreManager.FileInotifyService.StaticScan
