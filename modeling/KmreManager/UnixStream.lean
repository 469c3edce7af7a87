import KmreManager.Pathname
import KmreManager.Lib.Volume

/-! # UnixStream

audio/common/socket/UnixStream.cpp; gps and sensors have the same. Before it
binds its socket, `listen` takes away what has the name of the socket, or makes
the directories above it. -/
namespace KmreManager

open Lib.PathWalk Lib.PathWalk.FileSystem

/-- A file is a socket, by its number. -/
abbrev SocketFiles := Volume QString Nat

/-- `dirname` of libgen.h. -/
def dirname (path : QString) : QString :=
  let path' := path.rdropWhile (· = '/')
  if path' = [] then if path = [] then ".".toList else "/".toList
  else
    let dir := path'.rdropWhile (· ≠ '/')
    if dir = [] then ".".toList
    else
      let dir' := dir.rdropWhile (· = '/')
      if dir' = [] then "/".toList else dir'

namespace UnixStream

/-- The loop of `mkdir_recursively`: `done` is what stands before `p`. -/
def mkdirsTo (v : SocketFiles) (done : QString) : QString → SocketFiles
  | [] => v
  | c :: rest =>
    let v := if c = '/' ∧ v.stat done.pathname = none then v.mkdir done.pathname else v
    mkdirsTo v (done ++ [c]) rest

def mkdir_recursively (v : SocketFiles) (dir_name : QString) : SocketFiles :=
  if dir_name = [] then v
  else if v.stat dir_name.pathname = some .dir then v
  else (mkdirsTo v (dir_name.take 1) (dir_name.drop 1)).mkdir dir_name.pathname

def mkpath (v : SocketFiles) (path : QString) : SocketFiles :=
  if path = [] then v
  else if v.stat path.pathname ≠ none then v.remove path.pathname
  else mkdir_recursively v (dirname path)

/-- `bind` makes the name of a socket where none is. -/
def bind (v : SocketFiles) (path : QString) (s : Nat) : Option SocketFiles :=
  match v.place path.pathname with
  | some (n :: dir) =>
    if h : v.node dir = some .dir ∧ v.node (n :: dir) = none then
      some (v.make n dir (.file s) h.1 h.2)
    else none
  | _ => none

/-! ## Paths of plain names -/

/-- A name that a path takes as it is. -/
structure Plain (n : QString) : Prop where
  ne_nil : n ≠ []
  ne_dot : n ≠ ".".toList
  ne_dots : n ≠ "..".toList
  no_slash : '/' ∉ n

def text (names : List QString) : QString := names.flatMap fun n => '/' :: n

variable {v : SocketFiles} {names ms : List QString} {n : QString} {done rest : QString}

theorem Plain.step (h : Plain n) : QString.step n = .name n := by
  rw [QString.step, if_neg (not_or.mpr ⟨h.ne_nil, h.ne_dot⟩), if_neg h.ne_dots]

theorem rdropWhile_append {p : Char → Bool} {xs ys : List Char} (h : ∀ c ∈ ys, p c) :
    (xs ++ ys).rdropWhile p = xs.rdropWhile p := by
  induction ys using List.reverseRecOn with
  | nil => rw [List.append_nil]
  | append_singleton ys c ih =>
    rw [← List.append_assoc, List.rdropWhile_concat_pos _ _ _ (h c (by simp))]
    exact ih fun d hd => h d (by simp [hd])

variable {path : QString} {s old : Nat}

/-- A file, and no directory, is taken away. -/
theorem mkpath_file (hpath : path ≠ []) (hold : v.lstat path.pathname = some (.file old)) :
    ∃ n dir, ∃ h : v.list (n :: dir) = [], v.place path.pathname = some (n :: dir) ∧
      v.node (n :: dir) = some (.file old) ∧ mkpath v path = v.erase n dir h := by
  obtain ⟨p, hplace, hnode⟩ := Option.bind_eq_some_iff.mp hold
  cases p with
  | nil =>
    rw [v.root] at hnode
    cases hnode
  | cons n dir =>
    have hempty : v.list (n :: dir) = [] := Volume.list_nil (by simp [hnode])
    have hstat : v.stat path.pathname ≠ none := by
      rw [stat_of_place hplace (by simp [hnode]), hnode]
      exact Option.some_ne_none _
    refine ⟨n, dir, hempty, hplace, hnode, ?_⟩
    rw [mkpath, if_neg hpath, if_pos hstat, Volume.remove, hplace]
    exact dif_pos hempty

/-- A file system with nothing in it. -/
def bare : SocketFiles where
  node p := if p = [] then some .dir else none
  root := rfl
  cwd := []
  closed n dir hn := absurd rfl hn
  list _ := []
  listed n dir := by simp

/-- `gpsSocketPath(1000, "kylin")`. -/
def kmre_gps : List QString :=
  ["var".toList, "lib".toList, "kmre".toList, "kmre-1000-kylin".toList, "sockets".toList]

end UnixStream
end KmreManager
