import KmreManager.FileInotifyService.Notify
import KmreManager.FileInotifyService.StaticScan

/-! # From host paths to Android paths

A file is queued if its path starts with the text of the home directory, and
is announced with the text after that in the container's directory. The path
is one of `realpath`, the home directory's is not. -/
namespace KmreManager.FileInotifyService.AndroidPath
open KmreManager.Lib KmreManager.Lib.PathWalk StaticScan LoopList

/-- `homeDirPath` is a clean absolute path of a directory; `real` is where it
leads through the links on its way. -/
structure Home (tree : Tree) where
  place : Place QString
  valid : ∀ n ∈ place, validName n = true
  real : Place QString
  target : tree.fileSystem.target (QString.ofPlace place).pathname = some real
  directory : tree.node real = some .dir

/-- The service of a user with this home directory. -/
def Home.env {tree : Tree} (home : Home tree) (mimeTypeForFile : QString → QString) : Env :=
  ⟨mimeTypeForFile, QString.ofPlace home.place⟩

/-- The directories that a service with these roots may come to watch. Events
are not limited to names without a dot. -/
inductive Watched (tree : Tree) (roots : List QString) : Place QString → Prop
  | root {path : QString} {dir : Place QString} (hpath : path ∈ roots)
      (hreal : tree.realpath path = some (QString.ofPlace dir))
      (hdir : tree.node dir = some .dir) : Watched tree roots dir
  | entry {name : QString} {dir : Place QString} (hdir : Watched tree roots dir)
      (hsub : tree.node (name :: dir) = some .dir) : Watched tree roots (name :: dir)

/-- The files that it may come to tell of. -/
def Reached (tree : Tree) (roots : List QString) (f : Place QString) : Prop :=
  ∃ name dir, f = name :: dir ∧ Watched tree roots dir ∧ tree.node f = some (.file .regular)

/-- What a scan lists are reached files, by the paths that the service has for them. -/
theorem listed_reached {K : Type} {env : Env} {tree : Tree} {roots : List QString}
    {root : Place QString} {s s' : StaticScan.State K} {flag : Bool}
    (hroot : Watched tree roots root) (hscan : ScannedExactly env tree flag root s s') :
    ∃ paths : List QString,
      s'.mFileList = s.mFileList ++ paths.map (fun path => ⟨path, -1⟩) ∧
      ∀ path ∈ paths, ∃ f, Reached tree roots f ∧ path = filePath f ∧ env.notifies path = true := by
  obtain ⟨paths, hlist, -, hpaths⟩ := hscan.listed
  refine ⟨paths, hlist, fun path hpath => ?_⟩
  obtain ⟨-, name, dir, hdir, -, hregular, rfl, hnotifies⟩ := (hpaths path).mp hpath
  have hwatched : Watched tree roots dir := by
    clear hpath hregular hnotifies
    induction hdir with
    | root => exact hroot
    | entry _ _ hsub ih => exact .entry ih hsub
  exact ⟨name :: dir, ⟨name, dir, rfl, hwatched, hregular⟩, (filePath_cons name dir).symm,
    hnotifies⟩

/-- What the mapping of paths is for. -/
structure PathsAgree {tree : Tree} (home : Home tree) (mimeTypeForFile : QString → QString)
    (roots : List QString) : Prop where
  inside : ∀ f, Reached tree roots f →
    (home.env mimeTypeForFile).notifies (filePath f) = true → home.place <:+ f
  queued : ∀ f, Reached tree roots f → isMedia (mimeTypeForFile (filePath f)) = true →
    home.real <:+ f → (home.env mimeTypeForFile).notifies (filePath f) = true
  announced : ∀ f, Reached tree roots f →
    (home.env mimeTypeForFile).notifies (filePath f) = true → ∀ size mimeType,
    ∀ r ∈ records (home.env mimeTypeForFile) ⟨filePath f, size⟩ mimeType,
      r.path.splitSkipEmpty '/' =
        containerDir.splitSkipEmpty '/' ++ f.reverse.drop home.place.length
  distinct : ∀ f g, Reached tree roots f → Reached tree roots g →
    (home.env mimeTypeForFile).notifies (filePath f) = true →
    (home.env mimeTypeForFile).notifies (filePath g) = true → ∀ size size' mimeType mimeType',
    ∀ r ∈ records (home.env mimeTypeForFile) ⟨filePath f, size⟩ mimeType,
    ∀ r' ∈ records (home.env mimeTypeForFile) ⟨filePath g, size'⟩ mimeType',
      r.path.splitSkipEmpty '/' = r'.path.splitSkipEmpty '/' → f = g

/-- No picture or video lies beside the home directory, or below that, where a
name begins with the home directory's; and the home directory is no link, or
has no pictures and videos. -/
structure Plain {tree : Tree} (home : Home tree) (mimeTypeForFile : QString → QString)
    (roots : List QString) : Prop where
  unshared : ∀ f, Reached tree roots f → isMedia (mimeTypeForFile (filePath f)) = true →
    1 < f.length → ∀ name dir extra below, home.place = name :: dir →
    f = below ++ (name ++ extra) :: dir → extra = []
  real : home.real = home.place ∨ ∀ f, Reached tree roots f →
    isMedia (mimeTypeForFile (filePath f)) = true → ¬ home.real <:+ f

variable {tree : Tree} {home : Home tree} {mimeTypeForFile : QString → QString}
  {roots : List QString} {f g p : Place QString} {name : QString} {dir : Place QString}

/-! ## Texts of places -/

theorem notifies_iff {path : QString} : (home.env mimeTypeForFile).notifies path = true ↔
    QString.ofPlace home.place <+: path ∧ isMedia (mimeTypeForFile path) = true := by
  rw [Env.notifies, Bool.and_eq_true, List.isPrefixOf_iff_prefix]
  rfl

theorem filePath_eq (h : 1 < f.length) : filePath f = f.reverse.flatMap fun n => '/' :: n := by
  cases f with
  | nil => simp at h
  | cons name dir =>
    cases dir with
    | nil => simp at h
    | cons next dir => simp [filePath]

/-- The names of a file's path, whatever slashes it has. -/
theorem components_filePath (hvalid : ∀ n ∈ f, validName n = true) (hne : f ≠ []) :
    (filePath f).splitSkipEmpty '/' = f.reverse := by
  obtain ⟨name, dir, rfl⟩ := List.exists_cons_of_ne_nil hne
  obtain ⟨lead, hlead, -, htext⟩ := spells_filePath name dir
  have hslash : ∀ n ∈ lead ++ (name :: dir).reverse, '/' ∉ n := by
    intro n hn
    rcases List.mem_append.mp hn with hn | hn
    · rw [hlead n hn]
      exact List.not_mem_nil
    · exact not_mem_of_valid (hvalid n (List.mem_reverse.mp hn))
  rw [htext, QString.splitSkipEmpty_flatMap hslash, List.filter_append,
    List.filter_eq_nil_iff.mpr fun n hn => by simp [hlead n hn], List.nil_append,
    List.filter_eq_self]
  intro n hn
  simpa using validName_ne_nil (hvalid n (List.mem_reverse.mp hn))

/-- The path of a file starts with the text of the home directory when it lies
in there, or beside a name that begins alike. In `/`, it has two slashes. -/
theorem startsWith_home_iff (hvalid : ∀ n ∈ f, validName n = true) (hne : f ≠ [])
    (hhome : home.place = name :: dir) : QString.ofPlace home.place <+: filePath f ↔
      1 < f.length ∧ ∃ extra below, f = below ++ (name ++ extra) :: dir := by
  have hnames := home.valid
  rw [hhome] at hnames
  obtain ⟨hname, hdir⟩ := List.forall_mem_cons.mp hnames
  have hslash : ∀ n ∈ dir.reverse, '/' ∉ n :=
    fun n hn => not_mem_of_valid (hdir n (List.mem_reverse.mp hn))
  have hplace : QString.ofPlace home.place = (dir.reverse ++ [name]).flatMap fun n => '/' :: n := by
    rw [hhome, QString.ofPlace, List.reverse_cons]
  rw [hplace]
  by_cases hlen : 1 < f.length
  · rw [filePath_eq hlen, QString.flatMap_startsWith hslash (not_mem_of_valid hname)
      fun n hn => not_mem_of_valid (hvalid n (List.mem_reverse.mp hn)), and_iff_right hlen]
    constructor
    · rintro ⟨extra, rest, hrev⟩
      refine ⟨extra, rest.reverse, ?_⟩
      rw [← List.reverse_reverse f, hrev]
      simp
    · rintro ⟨extra, below, rfl⟩
      exact ⟨extra, below.reverse, by simp⟩
  · refine iff_of_false ?_ fun h => hlen h.1
    obtain ⟨n, rest, rfl⟩ := List.exists_cons_of_ne_nil hne
    obtain rfl : rest = [] := by
      rw [List.length_cons] at hlen
      exact List.length_eq_zero_iff.mp (by omega)
    have htext : filePath [n] = [[], n].flatMap fun n => '/' :: n := by simp [filePath]
    rw [htext, QString.flatMap_startsWith hslash (not_mem_of_valid hname) fun m hm => by
      rcases List.mem_cons.mp hm with rfl | hm
      · exact List.not_mem_nil
      · exact not_mem_of_valid (hvalid m hm)]
    rintro ⟨extra, rest, hsplit⟩
    cases hdirs : dir.reverse with
    | nil =>
      rw [hdirs, List.nil_append, List.cons.injEq] at hsplit
      exact validName_ne_nil hname (List.append_eq_nil_iff.mp hsplit.1.symm).1
    | cons m dirs =>
      rw [hdirs, List.cons_append, List.cons.injEq] at hsplit
      have hm : m ∈ dir := List.mem_reverse.mp (hdirs ▸ List.mem_cons_self)
      exact validName_ne_nil (hdir m hm) hsplit.1.symm

theorem filePath_root (hne : f ≠ []) : ∃ text, filePath f = '/' :: text := by
  obtain ⟨name, dir, rfl⟩ := List.exists_cons_of_ne_nil hne
  obtain ⟨lead, -, hnames, htext⟩ := spells_filePath name dir
  obtain ⟨n, names, hcons⟩ := List.exists_cons_of_ne_nil hnames
  rw [htext, hcons]
  exact ⟨_, rfl⟩

theorem startsWith_root (hhome : home.place = []) (hne : f ≠ []) :
    QString.ofPlace home.place <+: filePath f := by
  obtain ⟨text, htext⟩ := filePath_root hne
  rw [hhome, htext]
  exact List.prefix_append ['/'] text

/-- What the text of the home directory is cut off from is the path below it. -/
theorem components_drop {below : Place QString} (hf : f = below ++ home.place) (hbelow : below ≠ [])
    (hvalid : ∀ n ∈ f, validName n = true) :
    QString.splitSkipEmpty '/' ((filePath f).drop (QString.ofPlace home.place).length) =
      below.reverse := by
  have hne : f ≠ [] := by
    rw [hf]
    exact List.append_ne_nil_of_left_ne_nil hbelow home.place
  cases hhome : home.place with
  | nil =>
    obtain ⟨text, htext⟩ := filePath_root hne
    have hnames := components_filePath hvalid hne
    have hslash : QString.splitSkipEmpty '/' ([] ++ '/' :: text) =
        QString.splitSkipEmpty '/' [] ++ QString.splitSkipEmpty '/' text :=
      QString.splitSkipEmpty_append
    have hempty : QString.splitSkipEmpty '/' [] = [] := by simp [QString.splitSkipEmpty]
    rw [htext, ← List.nil_append ('/' :: text), hslash, hempty, List.nil_append, hf, hhome,
      List.append_nil] at hnames
    rw [htext]
    exact hnames
  | cons name dir =>
    have hlen : 1 < f.length := by
      have hpos := List.length_pos_iff.mpr hbelow
      rw [hf, hhome, List.length_append, List.length_cons]
      omega
    have htext : filePath f =
        QString.ofPlace (name :: dir) ++ below.reverse.flatMap fun n => '/' :: n := by
      rw [filePath_eq hlen, hf, hhome, List.reverse_append, List.flatMap_append]
      rfl
    have hbelowValid : ∀ n ∈ below.reverse, validName n = true := by
      intro n hn
      exact hvalid n (hf ▸ List.mem_append_left _ (List.mem_reverse.mp hn))
    rw [htext, List.drop_left, QString.splitSkipEmpty_flatMap
      fun n hn => not_mem_of_valid (hbelowValid n hn), List.filter_eq_self]
    exact fun n hn => by simpa using validName_ne_nil (hbelowValid n hn)

/-! ## Reached files -/

theorem Reached.valid (hf : Reached tree roots f) : ∀ n ∈ f, validName n = true := by
  obtain ⟨name, dir, rfl, -, hregular⟩ := hf
  exact Tree.valid_of_mem_place hregular

theorem Reached.ne_nil (hf : Reached tree roots f) : f ≠ [] := by
  obtain ⟨name, dir, rfl, -, -⟩ := hf
  exact List.cons_ne_nil name dir

/-- A home directory that is one without following a link is where it is. -/
theorem Home.real_eq_of_dir (home : Home tree) (h : tree.node home.place = some .dir) :
    home.real = home.place :=
  Option.some.inj (home.target.symm.trans ((spells_ofPlace home.place).target h))

/-- A reached file in a place that is a directory lies below it. -/
theorem Reached.below (hf : Reached tree roots f) (h : p <:+ f)
    (hp : tree.node p ≠ some (.file .regular)) :
    ∃ below, below ≠ [] ∧ f = below ++ p ∧ tree.node p = some .dir := by
  obtain ⟨below, rfl⟩ := h
  obtain ⟨-, -, -, -, hregular⟩ := hf
  have hbelow : below ≠ [] := by
    rintro rfl
    exact hp hregular
  have hnode : tree.fileSystem.node (below ++ p) ≠ none := by
    rw [Tree.fileSystem_node, hregular]
    exact Option.some_ne_none _
  exact ⟨below, hbelow, rfl, tree.fileSystem_closed.dir_of_append hbelow hnode⟩

/-- The home directory is no regular file. -/
theorem Home.place_not_regular (home : Home tree) :
    tree.node home.place ≠ some (.file .regular) := by
  intro hregular
  have htarget := FileSystem.target_of_place ((spells_ofPlace home.place).place hregular)
    fun link hlink => by
      rw [Tree.fileSystem_node, hregular] at hlink
      cases hlink
  have hreal := Option.some.inj (home.target.symm.trans htarget)
  have hdir := home.directory
  rw [hreal, hregular] at hdir
  cases hdir

/-- What lies in the home directory as it is written lies in the real one. -/
theorem Reached.in_home (hf : Reached tree roots f) (h : home.place <:+ f) :
    ∃ below, below ≠ [] ∧ f = below ++ home.place ∧ home.real = home.place := by
  obtain ⟨below, hbelow, heq, hdir⟩ := hf.below h home.place_not_regular
  exact ⟨below, hbelow, heq, home.real_eq_of_dir hdir⟩

/-! ## The mapping -/

theorem components_containerPath {path : QString} (env : Env) :
    QString.splitSkipEmpty '/' (containerPath env path) = containerDir.splitSkipEmpty '/' ++
      QString.splitSkipEmpty '/' (path.drop env.homeDirPath.length) := by
  obtain ⟨base, hbase⟩ : ∃ base, containerDir = base ++ '/' :: [] :=
    ⟨containerDir.dropLast, by decide⟩
  have hempty : QString.splitSkipEmpty '/' [] = [] := by simp [QString.splitSkipEmpty]
  rw [containerPath, hbase, List.append_assoc, List.cons_append, List.nil_append,
    QString.splitSkipEmpty_append, QString.splitSkipEmpty_append, hempty, List.append_nil]

theorem path_of_mem_records {env : Env} {info : NotifyFileInfo} {mimeType : QString} {r : Record}
    (h : r ∈ records env info mimeType) : r.path = containerPath env info.path := by
  unfold records at h
  split at h
  · rw [List.mem_singleton.mp h]
  · cases h

/-- A file in the home directory is announced by its path from there. -/
theorem announced_of_inside (hf : Reached tree roots f) (h : home.place <:+ f) {size : Int}
    {mimeType : QString} {r : Record}
    (hr : r ∈ records (home.env mimeTypeForFile) ⟨filePath f, size⟩ mimeType) :
    r.path.splitSkipEmpty '/' =
      containerDir.splitSkipEmpty '/' ++ f.reverse.drop home.place.length := by
  obtain ⟨below, hbelow, heq, -⟩ := hf.in_home h
  have hrel : f.reverse.drop home.place.length = below.reverse := by
    rw [heq, List.reverse_append, List.drop_left' List.length_reverse]
  rw [path_of_mem_records hr, components_containerPath, hrel]
  exact congrArg _ (components_drop heq hbelow hf.valid)

theorem Plain.inside (h : Plain home mimeTypeForFile roots) (hf : Reached tree roots f)
    (hnotifies : (home.env mimeTypeForFile).notifies (filePath f) = true) : home.place <:+ f := by
  obtain ⟨hstarts, hmedia⟩ := notifies_iff.mp hnotifies
  cases hhome : home.place with
  | nil => exact List.nil_suffix
  | cons name dir =>
    obtain ⟨hlen, extra, below, heq⟩ := (startsWith_home_iff hf.valid hf.ne_nil hhome).mp hstarts
    obtain rfl := h.unshared f hf hmedia hlen name dir extra below hhome heq
    rw [List.append_nil] at heq
    exact ⟨below, heq.symm⟩

/-- Pictures and videos of the home directory are queued. -/
theorem notifies_of_inside (hf : Reached tree roots f)
    (hmedia : isMedia (mimeTypeForFile (filePath f)) = true) (h : home.place <:+ f) :
    (home.env mimeTypeForFile).notifies (filePath f) = true := by
  obtain ⟨below, hbelow, heq, -⟩ := hf.in_home h
  refine notifies_iff.mpr ⟨?_, hmedia⟩
  cases hhome : home.place with
  | nil => exact hhome ▸ startsWith_root hhome hf.ne_nil
  | cons name dir =>
    rw [← hhome, startsWith_home_iff hf.valid hf.ne_nil hhome]
    refine ⟨?_, [], below, by rw [heq, hhome, List.append_nil]⟩
    have hpos := List.length_pos_iff.mpr hbelow
    rw [heq, hhome, List.length_append, List.length_cons]
    omega

theorem Plain.agree (h : Plain home mimeTypeForFile roots) :
    PathsAgree home mimeTypeForFile roots where
  inside f hf hnotifies := h.inside hf hnotifies
  queued f hf hmedia hreal := by
    rcases h.real with heq | hnone
    · exact notifies_of_inside hf hmedia (heq ▸ hreal)
    · exact absurd hreal (hnone f hf hmedia)
  announced f hf hnotifies size mimeType r hr := announced_of_inside hf (h.inside hf hnotifies) hr
  distinct f g hf hg hfn hgn size size' mimeType mimeType' r hr r' hr' heq := by
    have hfin := h.inside hf hfn
    have hgin := h.inside hg hgn
    rw [announced_of_inside hf hfin hr, announced_of_inside hg hgin hr',
      List.append_cancel_left_eq] at heq
    obtain ⟨below, rfl⟩ := hfin
    obtain ⟨below', rfl⟩ := hgin
    simp only [List.reverse_append, List.drop_left' List.length_reverse, List.reverse_inj] at heq
    rw [heq]

theorem PathsAgree.plain (h : PathsAgree home mimeTypeForFile roots) :
    Plain home mimeTypeForFile roots where
  unshared f hf hmedia hlen name dir extra below hhome heq := by
    have hstarts := (startsWith_home_iff hf.valid hf.ne_nil hhome).mpr ⟨hlen, extra, below, heq⟩
    obtain ⟨below', hin⟩ := h.inside f hf (notifies_iff.mpr ⟨hstarts, hmedia⟩)
    have hrev := congrArg List.reverse (hin.trans heq)
    rw [hhome] at hrev
    have hboth : extra = [] ∧ below' = below := by simpa using hrev
    exact hboth.1
  real := by
    by_cases hreal : home.real = home.place
    · exact .inl hreal
    · refine .inr fun f hf hmedia hin => ?_
      obtain ⟨-, -, -, heq⟩ := hf.in_home (h.inside f hf (h.queued f hf hmedia hin))
      exact hreal heq

/-- **Host path to Android path.** -/
theorem paths_agree_iff (home : Home tree) (mimeTypeForFile : QString → QString)
    (roots : List QString) :
    PathsAgree home mimeTypeForFile roots ↔ Plain home mimeTypeForFile roots :=
  ⟨PathsAgree.plain, Plain.agree⟩

/-! ## A neighbour whose name begins alike -/

def neighbour : Place QString := ["kylin2".toList, "home".toList]

def houses : List (Place QString × Entry QString NodeKind) :=
  [("a.png".toList :: neighbour, .file .regular), (neighbour, .dir), (user, .dir),
    (["home".toList], .dir), ([], .dir)]

theorem houses_closed : ∀ entry ∈ houses, entry.1 = [] ∨
    ∃ parent ∈ houses, parent.1 = entry.1.tail ∧ fileType parent.2 = .directory := by
  decide +kernel

theorem houses_valid : ∀ entry ∈ houses, entry.1.head?.all validName = true := by
  decide +kernel

def housesTree : Tree where
  entries := houses
  unique := by decide +kernel
  root := by simp [houses]
  closed := closed_of_parents houses_closed
  valid name dir e hmem := by simpa using houses_valid _ hmem
  cwd := []

def userHome : Home housesTree where
  place := user
  valid := by decide +kernel
  real := user
  target := by decide +kernel
  directory := by decide +kernel

/-- The neighbour's picture is queued for the user. -/
theorem neighbour_not_agree : ¬ ∀ (tree : Tree) (home : Home tree)
    (mimeTypeForFile : QString → QString) (roots : List QString),
    PathsAgree home mimeTypeForFile roots := by
  intro h
  have hwatched : Watched housesTree ["/home/kylin2".toList] neighbour :=
    .root (List.mem_singleton_self _) (by decide +kernel) (by decide +kernel)
  have hreached : Reached housesTree ["/home/kylin2".toList] ("a.png".toList :: neighbour) :=
    ⟨_, _, rfl, hwatched, by decide +kernel⟩
  have hinside := (h housesTree userHome userEnv.mimeTypeForFile _).inside _ hreached
    (by decide +kernel)
  revert hinside
  decide +kernel

end KmreManager.FileInotifyService.AndroidPath
