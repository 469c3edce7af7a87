import KmreManager.QString
import KmreManager.Lib.PathWalk

/-! # Paths as the system calls take them

A path is a text with its names between slashes; the walk is that of
`Lib.PathWalk`. -/
namespace KmreManager

open Lib.PathWalk

/-- A file system whose names are strings. The empty path stands for the working
directory, which no call takes for a file. -/
abbrev HostFileSystem (κ : Type) := FileSystem QString κ

namespace QString

def step (part : QString) : Step QString :=
  if part = [] ∨ part = ".".toList then .here
  else if part = "..".toList then .up
  else .name part

/-- A path as the system calls walk it. -/
def pathname (path : QString) : Pathname QString :=
  ⟨path.head? = some '/', (path.splitOn '/').map step⟩

/-- The path of a place that `realpath` writes. -/
def ofPlace : Place QString → QString
  | [] => "/".toList
  | name :: dir => (name :: dir).reverse.flatMap fun n => '/' :: n

variable {names : List QString}

theorem splitOn_flatMap (h : ∀ n ∈ names, '/' ∉ n) :
    (names.flatMap fun n => '/' :: n).splitOn '/' = [] :: names := by
  induction names with
  | nil => rfl
  | cons n names ih =>
    have htail := ih fun m hm => h m (List.mem_cons_of_mem n hm)
    have hparts : (n ++ names.flatMap fun n => '/' :: n).splitOn '/' = n :: names := by
      cases names with
      | nil => simpa using List.splitOn_eq_singleton (h n List.mem_cons_self)
      | cons m names =>
        rw [List.flatMap_cons, List.cons_append,
          List.splitOn_append_cons_self_of_not_mem (h n List.mem_cons_self)]
        rw [List.flatMap_cons, List.cons_append, ← List.nil_append ('/' :: _),
          List.splitOn_append_cons_self_of_not_mem List.not_mem_nil, List.cons.injEq] at htail
        rw [htail.2]
    rw [List.flatMap_cons, List.cons_append, ← List.nil_append ('/' :: _),
      List.splitOn_append_cons_self_of_not_mem List.not_mem_nil, hparts]

/-- Names that are neither empty nor dots. -/
theorem pathname_flatMap (hne : names ≠ []) (h : ∀ n ∈ names, '/' ∉ n) :
    pathname (names.flatMap fun n => '/' :: n) = ⟨true, .here :: names.map step⟩ := by
  rw [pathname, splitOn_flatMap h]
  obtain ⟨n, names, rfl⟩ := List.exists_cons_of_ne_nil hne
  simp [step]

/-- The names are found again, whatever slashes there are. -/
theorem splitSkipEmpty_flatMap (h : ∀ n ∈ names, '/' ∉ n) :
    splitSkipEmpty '/' (names.flatMap fun n => '/' :: n) = names.filter (· ≠ []) := by
  rw [splitSkipEmpty, splitOn_flatMap h]
  rfl

/-! ## A text that starts with the path of a place -/

section StartsWith
variable {n m : QString} {text : QString} {d : List QString}

/-- A name ends before the next slash. -/
theorem name_startsWith (hn : '/' ∉ n) (h : n <+: m ++ text)
    (htext : ∀ c ∈ text.head?, c = '/') : n <+: m := by
  rcases List.prefix_or_prefix_of_prefix h (List.prefix_append m text) with hle | ⟨more, rfl⟩
  · exact hle
  · cases more with
    | nil => exact (List.append_nil m).symm ▸ List.prefix_rfl
    | cons c more =>
      obtain ⟨left, hleft⟩ := (List.prefix_append_right_inj m).mp h
      subst hleft
      obtain rfl := htext c rfl
      exact absurd (by simp) hn

theorem head_flatMap (names : List QString) :
    ∀ c ∈ (names.flatMap fun n => '/' :: n).head?, c = '/' := by
  cases names with
  | nil => simp
  | cons n names => simp

/-- The last name of a path that a text starts with may go on in the text. -/
theorem flatMap_startsWith (hd : ∀ m ∈ d, '/' ∉ m) (hn : '/' ∉ n) (hnames : ∀ m ∈ names, '/' ∉ m) :
    ((d ++ [n]).flatMap fun n => '/' :: n) <+: (names.flatMap fun n => '/' :: n) ↔
      ∃ extra rest, names = d ++ (n ++ extra) :: rest := by
  constructor
  · intro h
    induction d generalizing names with
    | nil =>
      cases names with
      | nil => simp at h
      | cons m names =>
        simp only [List.nil_append, List.flatMap_cons, List.flatMap_nil, List.append_nil,
          List.cons_append, List.prefix_cons_inj] at h
        obtain ⟨extra, rfl⟩ := name_startsWith hn h (head_flatMap names)
        exact ⟨extra, names, rfl⟩
    | cons x d ih =>
      obtain ⟨hx, hd⟩ := List.forall_mem_cons.mp hd
      cases names with
      | nil => simp at h
      | cons m names =>
        obtain ⟨hm, hrest⟩ := List.forall_mem_cons.mp hnames
        simp only [List.cons_append, List.flatMap_cons, List.prefix_cons_inj] at h
        obtain ⟨w, rfl⟩ := name_startsWith hx ((List.prefix_append x _).trans h)
          (head_flatMap names)
        rw [List.append_assoc, List.prefix_append_right_inj] at h
        have hw : w = [] := by
          cases w with
          | nil => rfl
          | cons c w =>
            obtain ⟨y, ys, hy⟩ : ∃ y ys, d ++ [n] = y :: ys :=
              List.exists_cons_of_ne_nil (by simp)
            rw [hy, List.flatMap_cons, List.cons_append, List.cons_append,
              List.cons_prefix_cons] at h
            exact absurd (by simp [← h.1]) hm
        subst hw
        rw [List.nil_append] at h
        obtain ⟨extra, rest, rfl⟩ := ih hd hrest h
        exact ⟨extra, rest, by rw [List.append_nil, List.cons_append]⟩
  · rintro ⟨extra, rest, rfl⟩
    refine ⟨extra ++ rest.flatMap fun n => '/' :: n, ?_⟩
    simp

end StartsWith

end QString

end KmreManager
