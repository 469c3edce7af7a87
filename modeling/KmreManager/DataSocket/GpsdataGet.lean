import KmreManager.DataSocket

/-! # The location service

`GpsdataGet` looks at its stream in `writeData`, so an attempt without a client
is no attempt. -/
namespace KmreManager.DataSocket

open Lib.BlockWrites

/-- The service: its link, and the position it was told last. -/
structure GpsdataGet where
  link : Link := {}
  gpsdata : QString := []
  started : Bool := false
deriving DecidableEq

namespace GpsdataGet

/-- `sizeof(senddata)`. -/
def frameSize : Nat := 65

/-- `senddata`, with the bytes `beyond` the sentence's array in memory. -/
def frame (data : QString) (beyond : Nat → UInt8) : Frame :=
  let data := if data = [] then literal "3954.4405,N,11623.4799,E" else data
  let gpsdata := literal "$GPGGA,005548," ++ data ++ literal ",1,06,,0.0,M,0.,M,,0000*47"
  memcpy (toLatin1 gpsdata) beyond frameSize

@[simp] theorem frame_length (data : QString) (beyond : Nat → UInt8) :
    (frame data beyond).length = frameSize :=
  memcpy_length _ _ _

/-- What a call finds: the answers of the socket, and the memory beyond the
sentences of its two attempts. -/
structure World where
  answers : Answers frameSize
  beyond₁ : Nat → UInt8
  beyond₂ : Nat → UInt8

def writeData (l : Link) (data : QString) (beyond : Nat → UInt8) (stat : Int) : Int × Link :=
  if l.m_stream.isSome then (stat, l.writeFully (frame data beyond) stat) else (0, l)

def updateSocket (l : Link) (accepts : Bool) : Bool × Link :=
  let l := l.accept accepts
  (l.m_stream.isSome, l)

def sendData (l : Link) (data : QString) (w : World) : Link :=
  let (ret, l) := writeData l data w.beyond₁ w.answers.first
  if ret < 0 then
    let (updated, l) := updateSocket l w.answers.accepts
    if updated then (writeData l data w.beyond₂ w.answers.second).2 else l
  else l

/-- A call of the service. `initData` runs `start`, once. -/
inductive Action
  | initData (listens accepts : Bool) (w : World)
  | passGpsData (gpsdata : QString) (w : World)

/-- A crashed service takes no calls. -/
def step (g : GpsdataGet) : Action → Option GpsdataGet
  | .initData listens accepts w =>
    if g.link.crashed || g.started then none
    else if listens then
      let link := g.link.accept accepts
      some { g with
        started := true
        link := if link.m_stream.isSome then sendData link g.gpsdata w else link }
    else some { g with started := true }
  | .passGpsData gpsdata w =>
    if g.link.crashed then none
    else some { g with gpsdata := gpsdata, link := sendData g.link gpsdata w }

/-- **What a step does.** -/
theorem step_cases {g g' : GpsdataGet} {a : Action} (h : step g a = some g') :
    (∃ listens accepts w, a = .initData listens accepts w ∧ g.started = false ∧
        g'.started = true ∧
        ((listens = false ∧ g'.link = g.link) ∨
          (listens = true ∧ accepts = false ∧ g'.link = g.link.accept false) ∨
          (listens = true ∧ accepts = true ∧
            g'.link = sendData (g.link.accept true) g.gpsdata w))) ∨
      ∃ gpsdata w, a = .passGpsData gpsdata w ∧ g'.started = g.started ∧
        g'.link = sendData g.link gpsdata w := by
  cases a with
  | initData listens accepts w =>
    simp only [step, Option.ite_none_left_eq_some, Bool.or_eq_true, not_or,
      Bool.not_eq_true] at h
    obtain ⟨⟨-, hstarted⟩, h⟩ := h
    refine .inl ⟨listens, accepts, w, rfl, hstarted, ?_⟩
    cases listens with
    | false =>
      obtain rfl := Option.some.inj h
      exact ⟨rfl, .inl ⟨rfl, rfl⟩⟩
    | true =>
      obtain rfl := Option.some.inj h
      cases accepts with
      | false => exact ⟨rfl, .inr (.inl ⟨rfl, rfl, rfl⟩)⟩
      | true => exact ⟨rfl, .inr (.inr ⟨rfl, rfl, rfl⟩)⟩
  | passGpsData gpsdata w =>
    simp only [step, Option.ite_none_left_eq_some] at h
    obtain ⟨-, h⟩ := h
    obtain rfl := Option.some.inj h
    exact .inr ⟨gpsdata, w, rfl, rfl, rfl⟩

theorem sendData_exchange (l : Link) (data : QString) (w : World) :
    Exchange (frame data w.beyond₁) (frame data w.beyond₂) w.answers l (sendData l data w) := by
  cases hstream : l.m_stream with
  | none =>
    have hidle : sendData l data w = l := by simp [sendData, writeData, hstream]
    exact hidle.symm ▸ .idle hstream
  | some k =>
    by_cases hfirst : w.answers.first.val < 0
    · cases haccepts : w.answers.accepts with
      | true =>
        have hresent : sendData l data w =
            ((l.writeFully (frame data w.beyond₁) w.answers.first).accept true).writeFully
              (frame data w.beyond₂) w.answers.second := by
          simp [sendData, writeData, updateSocket, hstream, hfirst, haccepts, Link.accept_true]
        exact hresent.symm ▸ .resent hstream hfirst haccepts
      | false =>
        have hgaveUp : sendData l data w =
            (l.writeFully (frame data w.beyond₁) w.answers.first).accept false := by
          simp [sendData, writeData, updateSocket, hstream, hfirst, haccepts, Link.accept_false]
        exact hgaveUp.symm ▸ .gaveUp hstream hfirst haccepts
    · have hsent : sendData l data w = l.writeFully (frame data w.beyond₁) w.answers.first := by
        simp [sendData, writeData, hstream, hfirst]
      exact hsent.symm ▸ .sent hstream (Int.not_lt.mp hfirst)

end GpsdataGet
end KmreManager.DataSocket
