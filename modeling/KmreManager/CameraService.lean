import KmreManager.QString
import KmreManager.Lib.Ownership

/-! # CameraService

manager/camera/camera_service.cpp. `startWorker` listens on a socket and gives
each client an open camera: the configured device if it is one, else the first
of /dev/video0 to /dev/video11 that is. The program stops at every system call
that returns a descriptor; one action is the kernel's answer, after which it
runs to the next one. -/
namespace KmreManager.CameraService

open Lib.Runs Lib.Ownership

/-- QString to and from the UTF-8 of a C string. -/
structure Qt where
  toStdString : QString → List UInt8
  fromUtf8 : List UInt8 → QString

/-- What `snprintf(dev_name, 24, "%s", s)` stores before the NUL. -/
def devNameOf (s : List UInt8) : List UInt8 :=
  (s.takeWhile (· ≠ 0)).take 23

/-- "/dev/video%d" -/
def videoDevice (i : Nat) : List UInt8 :=
  [47, 100, 101, 118, 47, 118, 105, 100, 101, 111] ++
    (Nat.toDigits 10 i).map fun c => c.toNat.toUInt8

/-- The loop probes the devices below this number. -/
def videoDevices : Nat := 12

/-- What VIDIOC_QUERYCAP answers. -/
structure QueryCap where
  ret : Int
  capabilities : BitVec 32
deriving DecidableEq

def V4L2_CAP_VIDEO_CAPTURE : BitVec 32 := 0x00000001
def V4L2_CAP_STREAMING : BitVec 32 := 0x04000000

def isAvailableCamera (videoIn : QueryCap) : Int :=
  if videoIn.ret < 0 then -1
  else if videoIn.capabilities &&& V4L2_CAP_VIDEO_CAPTURE = 0 then -1
  else if videoIn.capabilities &&& V4L2_CAP_STREAMING = 0 then -1
  else 0

/-- The calls on descriptors, and what happens to the variable `fd_to_send`. -/
inductive FdCall
  | socket (fd : Int)
  | accept (fd : Int)
  | openDevice (fd : Int)
  | isAvailableCamera (fd ret : Int)
  | sendFd (com fd : Int)
  | close (fd : Int)
  /-- The variable is given the result of another `open`. -/
  | overwrite (fd : Int)
deriving DecidableEq

/-- A descriptor that the kernel returns is acquired; -1 is none. -/
def acquired (fd : Int) : List (Call Int) :=
  if 0 ≤ fd then [.acquire fd] else []

/-- What a call means for the ownership of descriptors. -/
def FdCall.effect : FdCall → List (Call Int)
  | .socket fd => acquired fd
  | .accept fd => acquired fd
  | .openDevice fd => acquired fd
  | .isAvailableCamera fd _ => [.use fd]
  | .sendFd com fd => [.use com, .use fd]
  | .close fd => [.release fd]
  | .overwrite fd => [.forget fd]

def effects (calls : List FdCall) : List (Call Int) :=
  calls.flatMap FdCall.effect

/-- The numbers open after a call, in the kernel's table. -/
def FdCall.table (owned : Finset Int) : FdCall → Finset Int
  | .socket fd => if 0 ≤ fd then insert fd owned else owned
  | .accept fd => if 0 ≤ fd then insert fd owned else owned
  | .openDevice fd => if 0 ≤ fd then insert fd owned else owned
  | .close fd => owned.erase fd
  | _ => owned

inductive Control
  /-- before `startWorker` -/
  | idle
  /-- in `accept` -/
  | accepting
  /-- in `open` of the configured device -/
  | selecting
  /-- in `open` of /dev/video`i` -/
  | probing (i : Nat)
  /-- `startWorker` has returned -/
  | left
deriving DecidableEq

structure State where
  mCameraDeviceName : QString
  useSelectedCamera : Bool := false
  listenFd : Int := -1
  comFd : Int := -1
  fdToSend : Int := -1
  devName : List UInt8 := []
  control : Control := .idle
  /-- the numbers the service has open -/
  owned : Finset Int := ∅
  calls : List FdCall := []
  /-- `sigCurrentCameraDevice` -/
  emitted : List QString := []
deriving DecidableEq

def State.call (s : State) (c : FdCall) : State :=
  { s with calls := s.calls ++ [c], owned := c.table s.owned }

/-- `if (fd_to_send > 0)`: the camera goes to the client. -/
def State.send (qt : Qt) (s : State) : State :=
  if s.fdToSend > 0 then
    let s := { s with mCameraDeviceName := qt.fromUtf8 s.devName }
    let emitted :=
      if s.useSelectedCamera then s.emitted ++ [s.mCameraDeviceName] else s.emitted
    { s with emitted }.call (.sendFd s.comFd s.fdToSend)
  else s

/-- The end of a connection. -/
def State.serve (qt : Qt) (s : State) : State :=
  let s := s.send qt
  { (s.call (.close s.fdToSend)).call (.close s.comFd) with control := .accepting }

/-- The probing loop with `n` devices to go, up to the next `open` or its end. -/
def State.probe (qt : Qt) : Nat → State → State
  | 0, s => s.serve qt
  | n + 1, s =>
    let i := videoDevices - (n + 1)
    let s := if s.fdToSend > 0 then s.call (.close s.fdToSend) else s
    if videoDevice i = s.devName then State.probe qt n s
    else { s.call (.overwrite s.fdToSend) with control := .probing i }

/-- The test of what `open` returned. -/
def State.test (s : State) (videoIn : QueryCap) : Bool × State :=
  if s.fdToSend > 0 then
    let ret := isAvailableCamera videoIn
    (ret = 0, s.call (.isAvailableCamera s.fdToSend ret))
  else (false, s)

/-- `fd_to_send = open(..)` -/
def State.returned (s : State) (fd : Int) : State :=
  { s with fdToSend := fd }.call (.openDevice fd)

/-- `open` of the configured device returns. -/
def State.selected (qt : Qt) (s : State) (fd : Int) (videoIn : QueryCap) : State :=
  match (s.returned fd).test videoIn with
  | (true, s) => { s with useSelectedCamera := true }.serve qt
  | (false, s) => s.probe qt videoDevices

/-- `open` of /dev/video`i` returns. -/
def State.probed (qt : Qt) (s : State) (i : Nat) (fd : Int) (videoIn : QueryCap) : State :=
  match State.test { s.returned fd with devName := videoDevice i } videoIn with
  | (true, s) => s.serve qt
  | (false, s) => s.probe qt (videoDevices - (i + 1))

inductive Action
  /-- what `socket`, `bind` and `listen` return -/
  | startWorker (fd bind listen : Int)
  | accept (fd : Int)
  | openDevice (fd : Int) (videoIn : QueryCap)
  | setCameraDevice (device : QString)

/-- The kernel gives a call a number that is not open, or fails it. -/
def State.Grants (s : State) (fd : Int) : Prop :=
  fd ∉ s.owned

instance (s : State) (fd : Int) : Decidable (s.Grants fd) :=
  inferInstanceAs (Decidable (fd ∉ s.owned))

def State.startWorker (s : State) (fd bind listen : Int) : State :=
  let s := { s with useSelectedCamera := false, listenFd := fd }.call (.socket fd)
  if fd < 0 then { s with control := .left }
  else if bind = -1 then { s.call (.close fd) with control := .left }
  else if listen = -1 then { s.call (.close fd) with control := .left }
  else { s with control := .accepting }

def State.accepted (qt : Qt) (s : State) (fd : Int) : State :=
  let s := { s with comFd := fd }.call (.accept fd)
  if fd < 0 then { s.call (.close s.listenFd) with control := .left }
  else { s with devName := devNameOf (qt.toStdString s.mCameraDeviceName), control := .selecting }

def step (qt : Qt) (s : State) : Action → Option State
  | .startWorker fd bind listen =>
    if (s.control = .idle ∨ s.control = .left) ∧ s.Grants fd then
      some (s.startWorker fd bind listen)
    else none
  | .accept fd =>
    if s.control = .accepting ∧ s.Grants fd then some (s.accepted qt fd) else none
  | .openDevice fd videoIn =>
    if s.Grants fd then
      match s.control with
      | .selecting => some (s.selected qt fd videoIn)
      | .probing i => some (s.probed qt i fd videoIn)
      | _ => none
    else none
  | .setCameraDevice device =>
    some (if device = [] then s else { s with mCameraDeviceName := device })

/-! ## A device name and two cameras -/

/-- Qt's conversions, on names of ASCII characters. -/
def ascii : Qt where
  toStdString name := name.map fun c => c.toNat.toUInt8
  fromUtf8 name := name.map fun b => Char.ofNat b.toNat

/-- A capture device that streams. -/
def webcam : QueryCap := ⟨0, 0x04000001⟩

/-- A device that has no video capture. -/
def metadataNode : QueryCap := ⟨0, 0x04a00000⟩

end KmreManager.CameraService
