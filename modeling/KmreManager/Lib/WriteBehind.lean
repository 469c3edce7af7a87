import Mathlib.Logic.Function.Basic

/-! # A store that is written to later

Writes wait in a queue, and another party makes them in their order. A write
that the store does not accept is dropped, and one that it accepts may fail.
`settled` is what the store holds once everything that waits has been written. -/
namespace KmreManager.Lib

structure WriteBehind (κ ν : Type*) where
  held : κ → Option ν
  waiting : List (κ × ν) := []

namespace WriteBehind

variable {κ ν : Type*} [DecidableEq κ]

def enqueue (s : WriteBehind κ ν) (k : κ) (v : ν) : WriteBehind κ ν :=
  { s with waiting := s.waiting ++ [(k, v)] }

/-- The writes in their order. -/
def writeAll (held : κ → Option ν) (ws : List (κ × ν)) : κ → Option ν :=
  ws.foldl (fun held w => Function.update held w.1 (some w.2)) held

/-- The first write that waits, if the store takes it. -/
def write (accepts : κ × ν → Bool) (s : WriteBehind κ ν) (made : Bool) : WriteBehind κ ν :=
  match s.waiting with
  | [] => s
  | w :: ws =>
    { held := if accepts w && made then Function.update s.held w.1 (some w.2) else s.held
      waiting := ws }

def settled (accepts : κ × ν → Bool) (s : WriteBehind κ ν) : κ → Option ν :=
  writeAll s.held (s.waiting.filter accepts)

/-- The store can do without the first write: it is not accepted, or it will be
overwritten, or what it writes is held. -/
def Idle (accepts : κ × ν → Bool) (s : WriteBehind κ ν) (k : κ) : Prop :=
  ∀ w ∈ s.waiting.head?, accepts w → w.1 = k →
    k ∈ (s.waiting.tail.filter accepts).map Prod.fst ∨ s.held k = some w.2

variable {accepts : κ × ν → Bool} {s : WriteBehind κ ν} {held : κ → Option ν} {k l : κ} {v : ν}
  {w : κ × ν} {ws : List (κ × ν)}

instance [DecidableEq ν] (s : WriteBehind κ ν) (k : κ) : Decidable (s.Idle accepts k) :=
  inferInstanceAs (Decidable (∀ w ∈ _, _ → _ → _))

theorem writeAll_cons (held : κ → Option ν) (w : κ × ν) (ws : List (κ × ν)) :
    writeAll held (w :: ws) = writeAll (Function.update held w.1 (some w.2)) ws := rfl

theorem writeAll_append (held : κ → Option ν) (as bs : List (κ × ν)) :
    writeAll held (as ++ bs) = writeAll (writeAll held as) bs := List.foldl_append

theorem writeAll_other (hk : k ∉ ws.map Prod.fst) : writeAll held ws k = held k := by
  induction ws generalizing held with
  | nil => rfl
  | cons w ws ih =>
    rw [List.map_cons, List.mem_cons, not_or] at hk
    rw [writeAll_cons, ih hk.2, Function.update_of_ne hk.1]

/-- What was held under a key that is written does not matter. -/
theorem writeAll_congr {held' : κ → Option ν} (hk : k ∈ ws.map Prod.fst ∨ held k = held' k) :
    writeAll held ws k = writeAll held' ws k := by
  induction ws generalizing held held' with
  | nil =>
    obtain hk | hk := hk
    · cases hk
    · exact hk
  | cons w ws ih =>
    rw [writeAll_cons, writeAll_cons]
    refine ih ?_
    by_cases hw : k = w.1
    · right
      rw [hw, Function.update_self, Function.update_self]
    · rw [List.map_cons, List.mem_cons] at hk
      obtain (hk | hk) | hk := hk
      · exact absurd hk hw
      · exact .inl hk
      · right
        rw [Function.update_of_ne hw, Function.update_of_ne hw, hk]

theorem settled_enqueue (haccepts : accepts (k, v)) :
    (s.enqueue k v).settled accepts = Function.update (s.settled accepts) k (some v) := by
  unfold settled enqueue
  rw [List.filter_append, writeAll_append, List.filter_cons_of_pos haccepts]
  rfl

theorem settled_enqueue_dropped (haccepts : ¬ accepts (k, v)) :
    (s.enqueue k v).settled accepts = s.settled accepts := by
  unfold settled enqueue
  rw [List.filter_append, List.filter_cons_of_neg haccepts, List.filter_nil, List.append_nil]

theorem settled_cons (hw : s.waiting = w :: ws) :
    s.settled accepts =
      writeAll (if accepts w then Function.update s.held w.1 (some w.2) else s.held)
        (ws.filter accepts) := by
  unfold settled
  rw [hw]
  by_cases haccepts : accepts w
  · rw [List.filter_cons_of_pos haccepts, if_pos haccepts]
    rfl
  · rw [List.filter_cons_of_neg haccepts, if_neg haccepts]

theorem settled_write (hw : s.waiting = w :: ws) (made : Bool) :
    (s.write accepts made).settled accepts =
      writeAll (if accepts w && made then Function.update s.held w.1 (some w.2) else s.held)
        (ws.filter accepts) := by
  unfold write
  rw [hw]
  rfl

/-- A write that is made was counted on. -/
theorem settled_write_made : (s.write accepts true).settled accepts = s.settled accepts := by
  cases hw : s.waiting with
  | nil =>
    unfold write
    rw [hw]
  | cons w ws => rw [settled_write hw, settled_cons hw, Bool.and_true]

/-- A write that fails is missed exactly if the store needed it. -/
theorem settled_write_failed :
    (s.write accepts false).settled accepts k = s.settled accepts k ↔ s.Idle accepts k := by
  cases hw : s.waiting with
  | nil =>
    have hsame : s.write accepts false = s := by
      unfold write
      rw [hw]
    simp [hsame, Idle, hw]
  | cons w ws =>
    have hidle : s.Idle accepts k ↔ (accepts w → w.1 = k →
        k ∈ (ws.filter accepts).map Prod.fst ∨ s.held k = some w.2) := by
      simp [Idle, hw]
    rw [hidle, settled_write hw, settled_cons hw, Bool.and_false, if_neg Bool.false_ne_true]
    by_cases haccepts : accepts w
    · rw [if_pos haccepts]
      by_cases hk : w.1 = k
      · constructor
        · intro hsame _ _
          by_cases hmem : k ∈ (ws.filter accepts).map Prod.fst
          · exact .inl hmem
          · rw [writeAll_other hmem, writeAll_other hmem, hk, Function.update_self] at hsame
            exact .inr hsame
        · intro hneeded
          refine writeAll_congr ((hneeded haccepts hk).imp_right fun hheld => ?_)
          rw [hk, Function.update_self, hheld]
      · refine iff_of_true (writeAll_congr (.inr ?_)) fun _ hcontra => absurd hcontra hk
        rw [Function.update_of_ne (Ne.symm hk)]
    · rw [if_neg haccepts]
      exact iff_of_true rfl fun hcontra => absurd hcontra haccepts

end WriteBehind
end KmreManager.Lib
