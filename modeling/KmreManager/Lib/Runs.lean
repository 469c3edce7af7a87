import Mathlib.Data.List.Basic
import Mathlib.Data.List.Induction

/-! # Runs of a partial step function

A component is a step function that may refuse an action (`none`). This file
folds it over a list of actions and packages the two inductions every safety
argument needs: an invariant kept by each step holds after each run, and an
invariant kept by the steps that meet a side condition holds after each run
all of whose steps meet it, in the state they are taken from. -/
namespace KmreManager.Lib.Runs

variable {σ α : Type*} {step : σ → α → Option σ}

/-- The state after a list of actions, `none` as soon as one is refused. -/
def run (step : σ → α → Option σ) : σ → List α → Option σ
  | s, [] => some s
  | s, a :: as => (step s a).bind fun s' => run step s' as

@[simp] theorem run_nil (s : σ) : run step s [] = some s := rfl

theorem run_cons (s : σ) (a : α) (as : List α) :
    run step s (a :: as) = (step s a).bind fun s' => run step s' as := rfl

theorem run_cons_some {s s' : σ} {a : α} {as : List α} :
    run step s (a :: as) = some s' ↔ ∃ t, step s a = some t ∧ run step t as = some s' := by
  rw [run_cons, Option.bind_eq_some_iff]

theorem run_append (s : σ) (as bs : List α) :
    run step s (as ++ bs) = (run step s as).bind fun s' => run step s' bs := by
  induction as generalizing s with
  | nil => rfl
  | cons a as ih =>
    simp only [List.cons_append, run_cons]
    cases step s a with
    | none => rfl
    | some t => simpa using ih t

theorem run_append_some {s s' : σ} {as bs : List α} :
    run step s (as ++ bs) = some s' ↔ ∃ t, run step s as = some t ∧ run step t bs = some s' := by
  rw [run_append, Option.bind_eq_some_iff]

/-- **Invariant rule.** What every step keeps, every run keeps. -/
theorem run_invariant {I : σ → Prop} (hstep : ∀ s a s', I s → step s a = some s' → I s')
    {s s' : σ} {as : List α} (hI : I s) (h : run step s as = some s') : I s' := by
  induction as generalizing s with
  | nil => cases h; exact hI
  | cons a as ih =>
    obtain ⟨t, ht, hrun⟩ := run_cons_some.mp h
    exact ih (hstep s a t hI ht) hrun

/-- What some steps bring about and others end holds if and only if one that
brings it about is followed by none that ends it. -/
theorem run_since {P : σ → Prop} (starts ends : α → Prop)
    (hstep : ∀ s a s', step s a = some s' → (P s' ↔ starts a ∨ (P s ∧ ¬ ends a)))
    {s s' : σ} {as : List α} (hs : ¬ P s) (h : run step s as = some s') :
    P s' ↔ ∃ bs a cs, as = bs ++ a :: cs ∧ starts a ∧ ∀ c ∈ cs, ¬ ends c := by
  induction as using List.reverseRecOn generalizing s' with
  | nil =>
    obtain rfl := Option.some.inj h
    refine iff_of_false hs ?_
    rintro ⟨bs, a, cs, hsplit, -⟩
    simp at hsplit
  | append_singleton as a ih =>
    obtain ⟨t, ht, hlast⟩ := run_append_some.mp h
    obtain ⟨t', ha, hend⟩ := run_cons_some.mp hlast
    obtain rfl := Option.some.inj hend
    rw [hstep t a t' ha, ih ht]
    constructor
    · rintro (hstarts | ⟨⟨bs, b, cs, rfl, hb, hcs⟩, hends⟩)
      · exact ⟨as, a, [], rfl, hstarts, by simp⟩
      · refine ⟨bs, b, cs ++ [a], by simp, hb, fun c hc => ?_⟩
        rcases List.mem_append.mp hc with hc | hc
        · exact hcs c hc
        · exact List.mem_singleton.mp hc ▸ hends
    · rintro ⟨bs, b, cs, hsplit, hb, hcs⟩
      rcases List.eq_nil_or_concat cs with rfl | ⟨cs, c, rfl⟩
      · obtain ⟨-, hlast⟩ := List.append_inj' hsplit rfl
        rw [List.cons.inj hlast |>.1]
        exact .inl hb
      · rw [List.concat_eq_append] at hsplit hcs
        have hassoc : as ++ [a] = (bs ++ b :: cs) ++ [c] := by simpa using hsplit
        obtain ⟨rfl, hlast⟩ := List.append_inj' hassoc rfl
        rw [List.cons.inj hlast |>.1]
        refine .inr ⟨⟨bs, b, cs, rfl, hb, fun c hc => hcs c ?_⟩, hcs c ?_⟩
        · exact List.mem_append_left _ hc
        · exact List.mem_append_right _ (List.mem_singleton_self c)

/-- A component that `f` reads out of a larger one runs as the larger one does. -/
theorem map_run {τ : Type*} (step : σ → α → Option σ) {step' : τ → α → Option τ} (f : τ → σ)
    (h : ∀ t a, (step' t a).map f = step (f t) a) (t : τ) (as : List α) :
    (run step' t as).map f = run step (f t) as := by
  induction as generalizing t with
  | nil => rfl
  | cons a as ih =>
    rw [run_cons, run_cons, ← h]
    cases step' t a with
    | none => rfl
    | some t' => exact ih t'

theorem run_map {β : Type*} (g : β → α) (s : σ) (bs : List β) :
    run step s (bs.map g) = run (fun s b => step s (g b)) s bs := by
  induction bs generalizing s with
  | nil => rfl
  | cons b bs ih => simp only [List.map_cons, run_cons, ih]

/-- When an action's admissibility does not depend on the state, a run goes
through exactly when each of its actions is admissible. -/
theorem run_isSome_iff {ok : α → Prop} (hok : ∀ s a, (step s a).isSome ↔ ok a)
    (s : σ) (as : List α) : (run step s as).isSome ↔ ∀ a ∈ as, ok a := by
  induction as generalizing s with
  | nil => simp
  | cons a as ih =>
    rw [run_cons, List.forall_mem_cons, ← hok s a]
    cases h : step s a with
    | none => simp
    | some t => simpa using ih t

/-- Every step of the run meets `ok` in the state it is taken from. -/
def Guarded (step : σ → α → Option σ) (ok : σ → α → Prop) : σ → List α → Prop
  | _, [] => True
  | s, a :: as => ok s a ∧ match step s a with
    | some s' => Guarded step ok s' as
    | none => True

theorem Guarded.cons {ok : σ → α → Prop} {s t : σ} {a : α} {as : List α}
    (h : Guarded step ok s (a :: as)) (ht : step s a = some t) :
    ok s a ∧ Guarded step ok t as := by
  obtain ⟨ha, hrest⟩ := h
  rw [ht] at hrest
  exact ⟨ha, hrest⟩

/-- **Invariant rule under a side condition.** -/
theorem run_guarded {I : σ → Prop} {ok : σ → α → Prop}
    (hstep : ∀ s a s', I s → ok s a → step s a = some s' → I s')
    {s s' : σ} {as : List α} (hI : I s) (hg : Guarded step ok s as)
    (h : run step s as = some s') : I s' := by
  induction as generalizing s with
  | nil => cases h; exact hI
  | cons a as ih =>
    obtain ⟨t, ht, hrun⟩ := run_cons_some.mp h
    obtain ⟨ha, hrest⟩ := hg.cons ht
    exact ih (hstep s a t hI ha ht) hrest hrun

/-- A run that goes through takes each of its steps. -/
theorem Guarded.of_run {s s' : σ} {as : List α} (h : run step s as = some s') :
    Guarded step (fun s a => (step s a).isSome) s as := by
  induction as generalizing s with
  | nil => trivial
  | cons a as ih =>
    obtain ⟨t, ht, hrun⟩ := run_cons_some.mp h
    refine ⟨by simp [ht], ?_⟩
    rw [ht]
    exact ih hrun

theorem Guarded.of_forall {ok : σ → α → Prop} (hok : ∀ s a, ok s a) (s : σ) (as : List α) :
    Guarded step ok s as := by
  induction as generalizing s with
  | nil => trivial
  | cons a as ih =>
    refine ⟨hok s a, ?_⟩
    cases step s a with
    | none => trivial
    | some t => exact ih t

/-- A run goes through if its condition lets every step go through. -/
theorem Guarded.exists_run {ok : σ → α → Prop} (hok : ∀ s a, ok s a → ∃ s', step s a = some s')
    {s : σ} {as : List α} (h : Guarded step ok s as) : ∃ s', run step s as = some s' := by
  induction as generalizing s with
  | nil => exact ⟨s, rfl⟩
  | cons a as ih =>
    obtain ⟨t, ht⟩ := hok s a h.1
    obtain ⟨s', hrun⟩ := ih (h.cons ht).2
    exact ⟨s', run_cons_some.mpr ⟨t, ht, hrun⟩⟩

theorem Guarded.and_mem {ok : σ → α → Prop} {P : α → Prop} {s : σ} {as : List α}
    (h : Guarded step ok s as) (hP : ∀ a ∈ as, P a) :
    Guarded step (fun s a => P a ∧ ok s a) s as := by
  induction as generalizing s with
  | nil => trivial
  | cons a as ih =>
    obtain ⟨ha, has⟩ := List.forall_mem_cons.mp hP
    refine ⟨⟨ha, h.1⟩, ?_⟩
    cases ht : step s a with
    | none => trivial
    | some t => exact ih (h.cons ht).2 has

/-- A condition on the actions alone. -/
theorem Guarded.iff_forall_mem {P : α → Prop} {s s' : σ} {as : List α}
    (h : run step s as = some s') : Guarded step (fun _ a => P a) s as ↔ ∀ a ∈ as, P a := by
  induction as generalizing s with
  | nil => simp [Guarded]
  | cons a as ih =>
    obtain ⟨t, ht, hrun⟩ := run_cons_some.mp h
    rw [List.forall_mem_cons, ← ih hrun, Guarded, ht]

/-- Two side conditions admit the same runs if they agree wherever an invariant
and a condition met by the whole run hold, and steps that meet them keep the
invariant. -/
theorem Guarded.congr (I : σ → Prop) (base : σ → α → Prop) {ok ok' : σ → α → Prop}
    (hiff : ∀ s a, I s → base s a → (ok s a ↔ ok' s a))
    (hstep : ∀ s a s', I s → base s a → ok s a → step s a = some s' → I s')
    {s : σ} {as : List α} (hI : I s) (hbase : Guarded step base s as) :
    Guarded step ok s as ↔ Guarded step ok' s as := by
  induction as generalizing s with
  | nil => rfl
  | cons a as ih =>
    refine (and_congr_left' (hiff s a hI hbase.1)).trans (and_congr_right fun hok' => ?_)
    cases ht : step s a with
    | none => rfl
    | some t =>
      exact ih (hstep s a t hI hbase.1 ((hiff s a hI hbase.1).mpr hok') ht) (hbase.cons ht).2

/-- If a step leads to a state with a property exactly when it meets the side
condition, a run meets the side condition exactly when every state on its way
has the property. -/
theorem Guarded.iff_forall_prefix {I P : σ → Prop} {ok : σ → α → Prop} (hP : ∀ s, I s → P s)
    (hiff : ∀ s a s', I s → step s a = some s' → (P s' ↔ ok s a))
    (hstep : ∀ s a s', I s → ok s a → step s a = some s' → I s')
    {s s' : σ} {as : List α} (hI : I s) (hrun : run step s as = some s') :
    Guarded step ok s as ↔ ∀ bs t, bs <+: as → run step s bs = some t → P t := by
  induction as generalizing s with
  | nil =>
    refine ⟨fun _ bs t hbs ht => ?_, fun _ => trivial⟩
    rw [List.prefix_nil.mp hbs] at ht
    exact Option.some.inj ht ▸ hP s hI
  | cons a as ih =>
    obtain ⟨u, hu, hrest⟩ := run_cons_some.mp hrun
    constructor
    · intro hg bs t hbs ht
      obtain ⟨ha, htail⟩ := hg.cons hu
      cases bs with
      | nil => exact Option.some.inj ht ▸ hP s hI
      | cons b bs =>
        obtain ⟨rfl, hpre⟩ := List.cons_prefix_cons.mp hbs
        obtain ⟨u', hu', htrun⟩ := run_cons_some.mp ht
        obtain rfl := Option.some.inj (hu.symm.trans hu')
        exact (ih (hstep s b u hI ha hu) hrest).mp htail bs t hpre htrun
    · intro hall
      have hpu : P u := hall [a] u (List.cons_prefix_cons.mpr ⟨rfl, List.nil_prefix⟩)
        (run_cons_some.mpr ⟨u, hu, rfl⟩)
      have ha := (hiff s a u hI hu).mp hpu
      have hg := (ih (hstep s a u hI ha hu) hrest).mpr fun bs t hbs ht =>
        hall (a :: bs) t (List.cons_prefix_cons.mpr ⟨rfl, hbs⟩) (run_cons_some.mpr ⟨u, hu, ht⟩)
      refine ⟨ha, ?_⟩
      rw [hu]
      exact hg

/-- The same from a step lemma that says what a step does on either side of
the condition: it keeps the invariant, or it loses the property. -/
theorem Guarded.iff_of_step {I P : σ → Prop} {ok : σ → α → Prop} (hP : ∀ s, I s → P s)
    (hstep : ∀ s a s', I s → step s a = some s' → (ok s a ∧ I s') ∨ (¬ ok s a ∧ ¬ P s'))
    {s s' : σ} {as : List α} (hI : I s) (hrun : run step s as = some s') :
    Guarded step ok s as ↔ ∀ bs t, bs <+: as → run step s bs = some t → P t := by
  refine Guarded.iff_forall_prefix (I := I) hP ?_ ?_ hI hrun
  · intro s a s' hs ha
    obtain ⟨hok, hs'⟩ | ⟨hok, hs'⟩ := hstep s a s' hs ha
    · exact ⟨fun _ => hok, fun _ => hP s' hs'⟩
    · exact ⟨fun hp => absurd hp hs', fun hcontra => absurd hcontra hok⟩
  · intro s a s' hs hok ha
    obtain ⟨-, hs'⟩ | ⟨hnot, -⟩ := hstep s a s' hs ha
    · exact hs'
    · exact absurd hok hnot

/-- The same step by step: every action of the run meets the condition in the
state that the actions before it lead to. -/
theorem Guarded.iff_forall_step {ok : σ → α → Prop} {s : σ} {as : List α} :
    Guarded step ok s as ↔
      ∀ bs a t, bs ++ [a] <+: as → run step s bs = some t → ok t a := by
  induction as generalizing s with
  | nil => simp [Guarded]
  | cons a as ih =>
    constructor
    · intro hg bs b t hbs ht
      cases bs with
      | nil =>
        obtain ⟨rfl, -⟩ := List.cons_prefix_cons.mp hbs
        exact Option.some.inj ht ▸ hg.1
      | cons c bs =>
        obtain ⟨rfl, hpre⟩ := List.cons_prefix_cons.mp hbs
        obtain ⟨u, hu, hrun⟩ := run_cons_some.mp ht
        exact ih.mp (hg.cons hu).2 bs b t hpre hrun
    · intro hall
      refine ⟨hall [] a s (List.cons_prefix_cons.mpr ⟨rfl, List.nil_prefix⟩) rfl, ?_⟩
      cases hu : step s a with
      | none => trivial
      | some u =>
        exact ih.mpr fun bs b t hpre hrun =>
          hall (a :: bs) b t (List.cons_prefix_cons.mpr ⟨rfl, hpre⟩)
            (run_cons_some.mpr ⟨u, hu, hrun⟩)

/-- The orders in which two parties' actions can arrive. -/
inductive Interleaving : List α → List α → List α → Prop
  | nil : Interleaving [] [] []
  | left {a : α} {as bs cs : List α} : Interleaving as bs cs → Interleaving (a :: as) bs (a :: cs)
  | right {b : α} {as bs cs : List α} : Interleaving as bs cs → Interleaving as (b :: bs) (b :: cs)

namespace Interleaving

theorem perm {as bs cs : List α} (h : Interleaving as bs cs) : cs.Perm (as ++ bs) := by
  induction h with
  | nil => exact .nil
  | left _ ih => exact ih.cons _
  | right _ ih => exact (ih.cons _).trans List.perm_middle.symm

/-- One party after the other. -/
theorem append : ∀ as bs : List α, Interleaving as bs (as ++ bs)
  | [], [] => .nil
  | [], _ :: bs => .right (append [] bs)
  | _ :: as, bs => .left (append as bs)

end Interleaving

instance Guarded.decidable {ok : σ → α → Prop} [∀ s a, Decidable (ok s a)] :
    ∀ (s : σ) (as : List α), Decidable (Guarded step ok s as)
  | _, [] => .isTrue trivial
  | s, a :: as =>
    let tail : Decidable (match step s a with
        | some s' => Guarded step ok s' as
        | none => True) :=
      match step s a with
      | some s' => Guarded.decidable s' as
      | none => .isTrue trivial
    @instDecidableAnd _ _ _ tail

end KmreManager.Lib.Runs
