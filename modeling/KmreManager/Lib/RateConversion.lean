import Mathlib.Algebra.Order.Floor.Div
import Mathlib.Algebra.Order.Ring.Nat

/-! # Rate conversion in calls

A converter takes frames at one rate and gives frames at another. Counted from
its creation, input frame j begins at j / inRate and output frame k is due at
k / outRate. A call offers it some frames and room for some: it stops before
the end of the input only if there is no room for a frame that is due in it. -/
namespace KmreManager.Lib.RateConversion

/-- The frames that a converter has taken and given so far. -/
structure Position where
  taken : Nat := 0
  given : Nat := 0
deriving DecidableEq

structure Call where
  offered : Nat
  room : Nat
  taken : Nat
  given : Nat
deriving DecidableEq

def Position.after (p : Position) (c : Call) : Position :=
  ⟨p.taken + c.taken, p.given + c.given⟩

variable {inRate outRate : Nat} {p : Position} {c : Call} {calls : List Call}

/-- Every frame due in the input that was taken is given. -/
def Aligned (inRate outRate : Nat) (p : Position) : Prop :=
  p.taken * outRate ≤ p.given * inRate

structure Conforms (inRate outRate : Nat) (p : Position) (c : Call) : Prop where
  taken_le : c.taken ≤ c.offered
  given_le : c.given ≤ c.room
  aligned : Aligned inRate outRate (p.after c)
  stops : c.taken < c.offered → (p.given + c.room) * inRate < (p.taken + c.offered) * outRate

/-- The calls conform, one after the other. -/
def ConformFrom (inRate outRate : Nat) : Position → List Call → Prop
  | _, [] => True
  | p, c :: calls => Conforms inRate outRate p c ∧ ConformFrom inRate outRate (p.after c) calls

theorem Aligned.init : Aligned inRate outRate {} := by
  simp [Aligned]

/-- The room that `offered` frames need. -/
def needed (inRate outRate offered : Nat) : Nat := offered * outRate ⌈/⌉ inRate

theorem needed_le_iff (hin : 0 < inRate) {offered room : Nat} :
    needed inRate outRate offered ≤ room ↔ offered * outRate ≤ room * inRate := by
  rw [needed, ceilDiv_le_iff_le_mul hin, Nat.mul_comm inRate room]

theorem needed_mono (hin : 0 < inRate) {m n : Nat} (h : m ≤ n) :
    needed inRate outRate m ≤ needed inRate outRate n := by
  rw [needed_le_iff hin]
  exact (Nat.mul_le_mul_right _ h).trans ((needed_le_iff hin).mp le_rfl)

/-- **Enough room.** A call that has it takes all it is offered. -/
theorem Conforms.takes_all (hin : 0 < inRate) (hp : Aligned inRate outRate p)
    (hc : Conforms inRate outRate p c) (hroom : needed inRate outRate c.offered ≤ c.room) :
    c.taken = c.offered := by
  refine Nat.le_antisymm hc.taken_le (Nat.le_of_not_lt fun hless => ?_)
  have hstops := hc.stops hless
  rw [needed_le_iff hin] at hroom
  rw [Nat.add_mul, Nat.add_mul] at hstops
  exact absurd hstops (Nat.not_lt.mpr (Nat.add_le_add hp hroom))

/-- Each of a sequence of calls is made from a position in which every frame due
is given. -/
theorem ConformFrom.exists_conforms (hp : Aligned inRate outRate p)
    (hcalls : ConformFrom inRate outRate p calls) :
    ∀ c ∈ calls, ∃ q, Aligned inRate outRate q ∧ Conforms inRate outRate q c := by
  induction calls generalizing p with
  | nil => simp
  | cons c calls ih =>
    obtain ⟨hc, hrest⟩ := hcalls
    exact List.forall_mem_cons.mpr ⟨⟨p, hp, hc⟩, ih hc.aligned hrest⟩

/-- **Too little room.** The first call that lacks it does not take all. -/
theorem Conforms.drops (hin : 0 < inRate) (hc : Conforms inRate outRate {} c)
    (hroom : c.room < needed inRate outRate c.offered) : c.taken < c.offered := by
  have hneeded : c.room * inRate < c.offered * outRate :=
    Nat.lt_of_not_le fun hle => Nat.not_le.mpr hroom ((needed_le_iff hin).mpr hle)
  have haligned : c.taken * outRate ≤ c.given * inRate := by
    simpa [Aligned, Position.after] using hc.aligned
  have hgiven := Nat.mul_le_mul_right inRate hc.given_le
  exact Nat.lt_of_mul_lt_mul_right ((haligned.trans hgiven).trans_lt hneeded)

/-! ## A converter -/

/-- The frames due in the next `offered` ones. -/
def due (inRate outRate : Nat) (p : Position) (offered : Nat) : Nat :=
  ((p.taken + offered) * outRate - p.given * inRate) ⌈/⌉ inRate

/-- What a converter does that gives each frame as soon as it is due. -/
def convert (inRate outRate : Nat) (p : Position) (offered room : Nat) : Call :=
  if due inRate outRate p offered ≤ room then
    ⟨offered, room, offered, due inRate outRate p offered⟩
  else ⟨offered, room, (p.given + room) * inRate / outRate - p.taken, room⟩

@[simp] theorem convert_offered (inRate outRate : Nat) (p : Position) (offered room : Nat) :
    (convert inRate outRate p offered room).offered = offered := by
  unfold convert
  split <;> rfl

@[simp] theorem convert_room (inRate outRate : Nat) (p : Position) (offered room : Nat) :
    (convert inRate outRate p offered room).room = room := by
  unfold convert
  split <;> rfl

theorem convert_conforms (hin : 0 < inRate) (hout : 0 < outRate) (hp : Aligned inRate outRate p)
    (offered room : Nat) : Conforms inRate outRate p (convert inRate outRate p offered room) := by
  unfold convert
  split
  next hdue =>
    refine ⟨le_rfl, hdue, ?_, fun hless => absurd hless (lt_irrefl _)⟩
    have hle := (ceilDiv_le_iff_le_mul hin).mp (le_refl (due inRate outRate p offered))
    show (p.taken + offered) * outRate ≤ (p.given + due inRate outRate p offered) * inRate
    rw [Nat.add_mul p.given, Nat.mul_comm (due _ _ _ _)]
    omega
  next hdue =>
    have hless : (p.given + room) * inRate < (p.taken + offered) * outRate := by
      rw [due, ceilDiv_le_iff_le_mul hin, Nat.mul_comm inRate room] at hdue
      rw [Nat.add_mul]
      omega
    have htaken : p.taken ≤ (p.given + room) * inRate / outRate := by
      rw [Nat.le_div_iff_mul_le hout]
      exact hp.trans (Nat.mul_le_mul_right _ (Nat.le_add_right _ _))
    have hposition : (p.given + room) * inRate / outRate < p.taken + offered :=
      (Nat.div_lt_iff_lt_mul hout).mpr hless
    refine ⟨?_, le_rfl, ?_, fun _ => hless⟩
    · show (p.given + room) * inRate / outRate - p.taken ≤ offered
      omega
    · show (p.taken + ((p.given + room) * inRate / outRate - p.taken)) * outRate ≤
        (p.given + room) * inRate
      rw [Nat.add_sub_cancel' htaken]
      exact Nat.div_mul_le_self _ _

end KmreManager.Lib.RateConversion
