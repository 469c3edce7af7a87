import KmreManager.FileInotifyService.StaticScan
import KmreManager.FileInotifyWatcher.Inverse

/-! # The watches at the start

filewatcher/main.cpp scans the user's directories one after another before the
watcher thread starts. They may lie within each other or be missing, and the
kernel has room for so many watches only. -/
namespace KmreManager.FileInotifyService.StaticScan

open Lib Lib.Preorder FileInotifyWatcher

/-! ## A table with limited room -/

section Limited
variable {α : Type} [BEq α] [LawfulBEq α]

/-- What is new enters the table as long as there is room. -/
def enroll (limit : Nat) (table : List α) (a : α) : List α :=
  if table.contains a || limit ≤ table.length then table else table ++ [a]

theorem enroll_eq (limit : Nat) (table : List α) (a : α) : enroll limit table a =
    if a ∈ table ∨ limit ≤ table.length then table else table ++ [a] := by
  simp [enroll]

end Limited

section Service
variable {K : Type} (env : Env) (sys : Inotify K QString) (tree : Tree)

/-- The kernel has room for so many watches, and one is enough for a directory. -/
structure Roomy (sys : Inotify K QString) (table : K → List QString) (limit : Nat) : Prop where
  enters : ∀ kernel path, table (sys.inotify_add_watch kernel path watchMask).1 =
    enroll limit (table kernel) path
  accepts : ∀ kernel path, 0 ≤ (sys.inotify_add_watch kernel path watchMask).2 ↔
    path ∈ table kernel ∨ (table kernel).length < limit

/-- Both maps have these paths, each once, as the kernel has. -/
structure Registered (table : K → List QString) (paths : List QString) (s : State K) : Prop where
  initialized : s.mWatcher.mInitialized = true
  described : s.mWatcher.mWdToPathMap.map Prod.snd = paths.reverse
  known : ∀ path, (s.mWatcher.mPathToWdMap path).isSome = true ↔ path ∈ paths
  watched : table s.mWatcher.kernel = paths
  inverse : Inverse s.mWatcher

variable {env sys tree} {s : State K} {table : K → List QString} {limit : Nat}
  {paths : List QString} {path : QString}

theorem Registered.addWatch (hroomy : Roomy sys table limit) (hs : Registered table paths s) :
    Registered table (enroll limit paths path) (addWatchLocked sys s path) := by
  generalize hw : s.mWatcher.addWatch sys path watchMask = result
  obtain ⟨w, ret⟩ := result
  have hinverse : Inverse w := hs.inverse.addWatch hw
  rw [addWatchLocked, hw]
  rcases Watcher.addWatch_cases hw with ⟨-, -, hnot⟩ | ⟨rfl, -, wd, hwd⟩ |
    ⟨kernel, wd, hadd, hinit, hfree, hcases⟩
  · rw [hs.initialized] at hnot
    cases hnot
  · have hmem : path ∈ paths := (hs.known path).mp (by rw [hwd]; rfl)
    rw [enroll_eq, if_pos (.inl hmem)]
    exact hs
  · have hnew : path ∉ paths := fun hmem => by
      have hsome := (hs.known path).mpr hmem
      rw [hfree] at hsome
      cases hsome
    have hkernel : table kernel = enroll limit paths path := by
      rw [← hs.watched, ← hroomy.enters, hadd]
    have haccepts : 0 ≤ wd ↔ paths.length < limit := by
      have hiff := hroomy.accepts s.mWatcher.kernel path
      rwa [hadd, hs.watched, or_iff_right hnew] at hiff
    rcases hcases with ⟨hneg, -, rfl⟩ | ⟨hpos, -, rfl⟩
    · have hfull : enroll limit paths path = paths := by
        rw [enroll_eq, if_pos (.inr (by omega))]
      rw [hfull] at hkernel ⊢
      exact ⟨hinit, hs.described, hs.known, hkernel, hinverse⟩
    · have hroom : enroll limit paths path = paths ++ [path] := by
        rw [enroll_eq, if_neg (not_or.mpr ⟨hnew, by omega⟩)]
      rw [hroom] at hkernel ⊢
      refine ⟨hinit, ?_, fun p => ?_, hkernel, hinverse⟩
      · rw [List.map_cons, hs.described, List.reverse_append, List.reverse_singleton]
        rfl
      · by_cases hp : p = path
        · simp [hp]
        · simp [hp, hs.known]

theorem Registered.foldl (hroomy : Roomy sys table limit) (hs : Registered table paths s)
    (more : List QString) : Registered table (more.foldl (enroll limit) paths)
      (more.foldl (addWatchLocked sys) s) := by
  induction more generalizing paths s with
  | nil => exact hs
  | cons path more ih => exact ih (hs.addWatch hroomy)

end Service

/-! ## Room for two watches -/

end KmreManager.FileInotifyService.StaticScan
