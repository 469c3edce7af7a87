import KmreManager.Lib.BlockWrites
import KmreManager.Lib.Ownership
import KmreManager.QString

/-! # The data socket of the location and sensor services

`GpsdataGet` and `SensordataGet` each accept one client of the container and
hand it frames of a fixed size. When a frame cannot be sent they accept another
client and try once more. A stream is named by the number of its connection. -/
namespace KmreManager.DataSocket

open Lib.BlockWrites Lib.Ownership

abbrev Frame := List UInt8

/-- What `send` may return for `size` bytes. -/
abbrev SSize (size : Nat) := { stat : Int // stat ≤ size }

/-- All bytes went out. -/
def SSize.full (size : Nat) : SSize size := ⟨size, Int.le_refl _⟩

def SSize.failed {size : Nat} : SSize size := ⟨-1, by omega⟩

/-- The answers to one `sendData`: to its first `send`, and to the `accept` and
the `send` that follow if the first one fails. -/
structure Answers (size : Nat) where
  first : SSize size
  accepts : Bool
  second : SSize size

/-- The part of a service that the two have in common. -/
structure Link where
  m_stream : Option Nat := none
  accepted : Nat := 0
  sends : List (Nat × Write UInt8) := []
  calls : List (Call (Option Nat)) := []
  crashed : Bool := false
deriving DecidableEq

namespace Link

/-- `m_stream->writeFully(frame, size)`: one `send`, whatever it returns. Through
a null pointer the service reads `m_sock` and crashes. -/
def writeFully (l : Link) (frame : Frame) (stat : Int) : Link :=
  match l.m_stream with
  | some k =>
    { l with
      sends := l.sends ++ [(k, ⟨frame, stat.toNat⟩)]
      calls := l.calls ++ [.use (some k)] }
  | none => { l with calls := l.calls ++ [.use none], crashed := true }

/-- `m_stream = mListenSock->accept()`, in `start` and in `updateSocket`. -/
def accept (l : Link) (accepts : Bool) : Link :=
  if accepts then
    { l with
      m_stream := some l.accepted
      accepted := l.accepted + 1
      calls := l.calls ++ [.acquire (some l.accepted), .forget l.m_stream] }
  else { l with m_stream := none, calls := l.calls ++ [.forget l.m_stream] }

/-- What was written to one connection. -/
def writes (l : Link) (k : Nat) : List (Write UInt8) :=
  (l.sends.filter (·.1 = k)).map Prod.snd

theorem writeFully_some {l : Link} {k : Nat} (h : l.m_stream = some k) (frame : Frame)
    (stat : Int) :
    l.writeFully frame stat =
      { l with
        sends := l.sends ++ [(k, ⟨frame, stat.toNat⟩)]
        calls := l.calls ++ [.use (some k)] } := by
  simp only [writeFully, h]

theorem writeFully_none {l : Link} (h : l.m_stream = none) (frame : Frame) (stat : Int) :
    l.writeFully frame stat = { l with calls := l.calls ++ [.use none], crashed := true } := by
  simp only [writeFully, h]

theorem accept_true (l : Link) :
    l.accept true =
      { l with
        m_stream := some l.accepted
        accepted := l.accepted + 1
        calls := l.calls ++ [.acquire (some l.accepted), .forget l.m_stream] } := rfl

theorem accept_false (l : Link) :
    l.accept false = { l with m_stream := none, calls := l.calls ++ [.forget l.m_stream] } := rfl

@[simp] theorem accept_sends (l : Link) (accepts : Bool) : (l.accept accepts).sends = l.sends := by
  cases accepts <;> rfl

theorem writes_writeFully {l : Link} {k : Nat} (h : l.m_stream = some k) (frame : Frame)
    (stat : Int) (j : Nat) :
    (l.writeFully frame stat).writes j =
      l.writes j ++ if k = j then [⟨frame, stat.toNat⟩] else [] := by
  rw [writeFully_some h]
  by_cases hk : k = j <;> simp [writes, hk]

end Link

/-- **What a `sendData` may do**, with the frames of its two attempts. The
services differ in the last two cases only: whether a second attempt follows
when no client could be accepted. -/
inductive Exchange {size : Nat} (frame₁ frame₂ : Frame) (a : Answers size) (l : Link) :
    Link → Prop
  | idle (h : l.m_stream = none) : Exchange frame₁ frame₂ a l l
  | sent {k : Nat} (h : l.m_stream = some k) (hfirst : 0 ≤ a.first.val) :
      Exchange frame₁ frame₂ a l (l.writeFully frame₁ a.first)
  | resent {k : Nat} (h : l.m_stream = some k) (hfirst : a.first.val < 0)
      (haccepts : a.accepts = true) :
      Exchange frame₁ frame₂ a l
        (((l.writeFully frame₁ a.first).accept true).writeFully frame₂ a.second)
  | gaveUp {k : Nat} (h : l.m_stream = some k) (hfirst : a.first.val < 0)
      (haccepts : a.accepts = false) :
      Exchange frame₁ frame₂ a l ((l.writeFully frame₁ a.first).accept false)
  | crashed {k : Nat} (h : l.m_stream = some k) (hfirst : a.first.val < 0)
      (haccepts : a.accepts = false) :
      Exchange frame₁ frame₂ a l
        (((l.writeFully frame₁ a.first).accept false).writeFully frame₂ a.second)

/-- `s.toLatin1()`: a question mark for every code unit beyond Latin-1. -/
def toLatin1 (s : QString) : List UInt8 :=
  s.flatMap fun c =>
    if c.toNat ≤ 0xFF then [c.toNat.toUInt8]
    else if c.toNat ≤ 0xFFFF then [63]
    else [63, 63]

/-- `memcpy(dest, ba.data(), n)`: the array's bytes, its terminator, and from
there on whatever `beyond` the array stands in memory. -/
def memcpy (ba : List UInt8) (beyond : Nat → UInt8) (n : Nat) : List UInt8 :=
  (List.range n).map fun i =>
    if i < ba.length then ba.getD i 0 else if i = ba.length then 0 else beyond i

@[simp] theorem memcpy_length (ba : List UInt8) (beyond : Nat → UInt8) (n : Nat) :
    (memcpy ba beyond n).length = n := by
  simp [memcpy]

/-- A text of the source as a `QString`. -/
def literal (s : String) : QString := s.toList

end KmreManager.DataSocket
