import KmreManager.DataSocket

/-! # The sensor service

`SensordataGet` looks at its stream in `sendData`, before the first attempt
only. -/
namespace KmreManager.DataSocket

open Lib.BlockWrites

structure SensordataGet where
  link : Link := {}
  started : Bool := false
deriving DecidableEq

namespace SensordataGet

/-- `sizeof(sensordata)`. -/
def frameSize : Nat := 128

/-- What one attempt finds: the bytes beyond the reading's array in memory, those
between `senddata` and the next null byte, and the time. -/
structure Surroundings where
  beyond : Nat → UInt8
  stack : List UInt8
  timeT : Nat

/-- `senddata`, 24 bytes without a terminator of their own. -/
def reading (data : QString) (beyond : Nat → UInt8) : List UInt8 :=
  memcpy (toLatin1 (literal "acceleration:" ++ data)) beyond 24

/-- What `sprintf` writes to `sensordata`: the bytes from `senddata` on up to a
null byte, and the time. -/
def sprintf (data : QString) (m : Surroundings) : List UInt8 :=
  (reading data m.beyond ++ m.stack).takeWhile (· ≠ 0) ++
    toLatin1 (literal "sync:" ++ Nat.toDigits 10 m.timeT)

/-- `sensordata`, zero where `sprintf` does not write. -/
def frame (data : QString) (m : Surroundings) : Frame :=
  (sprintf data m ++ List.replicate frameSize 0).take frameSize

@[simp] theorem frame_length (data : QString) (m : Surroundings) :
    (frame data m).length = frameSize := by
  rw [frame, List.length_take, List.length_append, List.length_replicate]
  omega

structure World where
  answers : Answers frameSize
  first : Surroundings
  second : Surroundings

def writeData (l : Link) (data : QString) (m : Surroundings) (stat : Int) : Int × Link :=
  (stat, l.writeFully (frame data m) stat)

def updateSocket (l : Link) (accepts : Bool) : Link := l.accept accepts

def sendData (l : Link) (data : QString) (w : World) : Link :=
  if l.m_stream.isSome then
    let (ret, l) := writeData l data w.first w.answers.first
    if ret < 0 then
      let l := updateSocket l w.answers.accepts
      (writeData l data w.second w.answers.second).2
    else l
  else l

/-- A call of the service. `initData` runs `start`, once. -/
inductive Action
  | initData (listens accepts : Bool)
  | sendData (data : QString) (w : World)

/-- A crashed service takes no calls. -/
def step (s : SensordataGet) : Action → Option SensordataGet
  | .initData listens accepts =>
    if s.link.crashed || s.started then none
    else if listens then some { s with started := true, link := s.link.accept accepts }
    else some { s with started := true }
  | .sendData data w =>
    if s.link.crashed then none else some { s with link := SensordataGet.sendData s.link data w }

/-- **What a step does.** -/
theorem step_cases {s s' : SensordataGet} {a : Action} (h : step s a = some s') :
    (∃ listens accepts, a = .initData listens accepts ∧ s.started = false ∧
        s'.started = true ∧
        ((listens = false ∧ s'.link = s.link) ∨
          (listens = true ∧ s'.link = s.link.accept accepts))) ∨
      ∃ data w, a = .sendData data w ∧ s'.started = s.started ∧
        s'.link = SensordataGet.sendData s.link data w := by
  cases a with
  | initData listens accepts =>
    simp only [step, Option.ite_none_left_eq_some, Bool.or_eq_true, not_or,
      Bool.not_eq_true] at h
    obtain ⟨⟨-, hstarted⟩, h⟩ := h
    refine .inl ⟨listens, accepts, rfl, hstarted, ?_⟩
    cases listens with
    | false =>
      obtain rfl := Option.some.inj h
      exact ⟨rfl, .inl ⟨rfl, rfl⟩⟩
    | true =>
      obtain rfl := Option.some.inj h
      exact ⟨rfl, .inr ⟨rfl, rfl⟩⟩
  | sendData data w =>
    simp only [step, Option.ite_none_left_eq_some] at h
    obtain ⟨-, h⟩ := h
    obtain rfl := Option.some.inj h
    exact .inr ⟨data, w, rfl, rfl, rfl⟩

theorem sendData_exchange (l : Link) (data : QString) (w : World) :
    Exchange (frame data w.first) (frame data w.second) w.answers l (sendData l data w) := by
  cases hstream : l.m_stream with
  | none =>
    have hidle : sendData l data w = l := by simp [sendData, hstream]
    exact hidle.symm ▸ .idle hstream
  | some k =>
    by_cases hfirst : w.answers.first.val < 0
    · have htwice : sendData l data w =
          ((l.writeFully (frame data w.first) w.answers.first).accept
            w.answers.accepts).writeFully (frame data w.second) w.answers.second := by
        simp [sendData, writeData, updateSocket, hstream, hfirst]
      rw [htwice]
      cases haccepts : w.answers.accepts with
      | true => exact .resent hstream hfirst haccepts
      | false => exact .crashed hstream hfirst haccepts
    · have hsent : sendData l data w = l.writeFully (frame data w.first) w.answers.first := by
        simp [sendData, writeData, hstream, hfirst]
      exact hsent.symm ▸ .sent hstream (Int.not_lt.mp hfirst)

end SensordataGet
end KmreManager.DataSocket
