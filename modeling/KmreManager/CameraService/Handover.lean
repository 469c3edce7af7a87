import Mathlib.Algebra.Group.Nat.Defs
import Mathlib.Data.BitVec
import KmreManager.CameraService.Selection

/-! # The message that hands a camera over

`send_fd` sends three bytes with the descriptor: 0, the status, and the number
of the device. -/
namespace KmreManager.CameraService

/-! ## The device number -/

/-- The characters that `\d` of a QRegExp matches. Of the ASCII characters
these are the ten digits. -/
structure Digits where
  isDigit : Char → Bool
  ascii : ∀ c : Char, c.toNat < 128 → isDigit c = c.isDigit

/-- `QString::toInt`, for a text of digits. -/
def toInt (s : QString) : Nat :=
  if s ≠ [] ∧ s.all Char.isDigit ∧ Nat.ofDigitChars 10 s 0 < 2 ^ 31 then
    Nat.ofDigitChars 10 s 0
  else 0

/-- What `\d+$` captures, as a number. -/
def videoNum (d : Digits) (mCameraDeviceName : QString) : Nat :=
  toInt (mCameraDeviceName.rtakeWhile d.isDigit)

/-- The name ends in the decimal number `n`, which fits an `int`. -/
def EndsIn (d : Digits) (name : QString) (n : Nat) : Prop :=
  ∃ front digits, name = front ++ digits ∧ digits ≠ [] ∧ (∀ c ∈ digits, c.isDigit = true) ∧
    (∀ c ∈ front.getLast?, d.isDigit c = false) ∧ n = Nat.ofDigitChars 10 digits 0 ∧ n < 2 ^ 31

/-! ## The message -/

structure Msghdr where
  buf : Vector (BitVec 8) 3
  /-- the descriptor that goes along -/
  msgControl : Option Int
deriving DecidableEq

/-- What a call of `send_fd` does: the message it passes to `sendmsg`, the
value it returns, and whether the static `cmptr` is set afterwards. -/
structure Handover where
  msg : Option Msghdr
  ret : Int
  cmptr : Bool
deriving DecidableEq

/-- The byte that tells an error. -/
def errorByte (fdToSend : Int) : BitVec 8 :=
  if BitVec.ofInt 8 (-fdToSend) = 0 then 1 else BitVec.ofInt 8 (-fdToSend)

/-- The test of what `sendmsg` returned. -/
def sendResult (sent : Int) : Int := if sent ≠ 2 then -1 else 0

def sendFd (cmptr malloc : Bool) (fdToSend : Int) (videoNum : Nat) (sent : Int) : Handover :=
  if fdToSend < 0 then
    { msg := some ⟨#v[0, errorByte fdToSend, 0], none⟩, ret := sendResult sent, cmptr }
  else if !cmptr && !malloc then { msg := none, ret := -1, cmptr }
  else
    { msg := some ⟨#v[0, 0, BitVec.ofNat 8 videoNum], some fdToSend⟩
      ret := sendResult sent
      cmptr := true }

/-- What a receiver relies on. -/
structure HandsOver (fdToSend : Int) (n : Nat) (sent : Int) (h : Handover) : Prop where
  status : ∀ msg ∈ h.msg, msg.buf[1] = 0 ↔ 0 ≤ fdToSend
  number : 0 ≤ fdToSend → ∀ msg ∈ h.msg, msg.buf[2].toNat = n
  result : h.ret = 0 ↔ ∃ msg ∈ h.msg, sent = msg.buf.size

/-- `if (fd_to_send > 0)`, with the name that `send` stores. -/
def State.handover (qt : Qt) (d : Digits) (s : State) (cmptr malloc : Bool) (sent : Int) :
    Option Handover :=
  if s.fdToSend > 0 then
    some (sendFd cmptr malloc s.fdToSend (videoNum d (s.send qt).mCameraDeviceName) sent)
  else none

variable {d : Digits} {name : QString} {n : Nat} {cmptr malloc : Bool} {fd sent : Int} {m : Msghdr}

/-! ## What the receiver learns -/

theorem videoNum_eq (h : EndsIn d name n) : videoNum d name = n := by
  obtain ⟨front, digits, rfl, hne, hdigits, hfront, rfl, hfits⟩ := h
  have hrun : (front ++ digits).rtakeWhile d.isDigit = digits := by
    have hall : ∀ c ∈ digits, d.isDigit c = true := by
      intro c hc
      have hbounds := QString.isDigit_bounds (hdigits c hc)
      rw [d.ascii c (by omega), hdigits c hc]
    have hstop : front.reverse.takeWhile d.isDigit = [] := by
      rw [List.getLast?_eq_head?_reverse] at hfront
      cases hback : front.reverse with
      | nil => rfl
      | cons c rest =>
        rw [hback] at hfront
        exact List.takeWhile_cons_of_neg (Bool.not_eq_true _ ▸ hfront c rfl)
    rw [List.rtakeWhile, List.reverse_append, List.takeWhile_append_of_pos
      fun c hc => hall c (List.mem_reverse.mp hc), hstop, List.append_nil, List.reverse_reverse]
  have hallowed : digits ≠ [] ∧ digits.all Char.isDigit ∧ Nat.ofDigitChars 10 digits 0 < 2 ^ 31 :=
    ⟨hne, List.all_eq_true.mpr hdigits, hfits⟩
  rw [videoNum, hrun, toInt, if_pos hallowed]

theorem errorByte_ne_zero (fd : Int) : errorByte fd ≠ 0 := by
  unfold errorByte
  split
  · decide
  · assumption

theorem sendResult_eq_zero : sendResult sent = 0 ↔ sent = 2 := by
  unfold sendResult
  split <;> simp_all

/-- **What a call does**: it reports the error, it has no memory for the
descriptor, or it sends it. -/
theorem sendFd_cases (cmptr malloc : Bool) (fd : Int) (n : Nat) (sent : Int) :
    (fd < 0 ∧ sendFd cmptr malloc fd n sent =
        ⟨some ⟨#v[0, errorByte fd, 0], none⟩, sendResult sent, cmptr⟩) ∨
      (0 ≤ fd ∧ (cmptr || malloc) = false ∧ sendFd cmptr malloc fd n sent = ⟨none, -1, cmptr⟩) ∨
      (0 ≤ fd ∧ (cmptr || malloc) = true ∧ sendFd cmptr malloc fd n sent =
        ⟨some ⟨#v[0, 0, BitVec.ofNat 8 n], some fd⟩, sendResult sent, true⟩) := by
  unfold sendFd
  by_cases hneg : fd < 0
  · exact .inl ⟨hneg, if_pos hneg⟩
  · rw [if_neg hneg]
    cases cmptr <;> cases malloc <;> simp [Int.not_lt.mp hneg]

/-- The status is the sign of the descriptor. -/
theorem sendFd_status (h : m ∈ (sendFd cmptr malloc fd n sent).msg) :
    m.buf[1] = 0 ↔ 0 ≤ fd := by
  rcases sendFd_cases cmptr malloc fd n sent with ⟨hfd, hcall⟩ | ⟨-, -, hcall⟩ | ⟨hfd, -, hcall⟩
  · rw [hcall] at h
    obtain rfl := Option.some.inj h
    simpa [Int.not_le.mpr hfd] using errorByte_ne_zero fd
  · rw [hcall] at h
    cases h
  · rw [hcall] at h
    obtain rfl := Option.some.inj h
    simpa using hfd

/-- The number is there as far as a byte holds it. -/
theorem sendFd_number (sent : Int) :
    (0 ≤ fd → ∀ m ∈ (sendFd cmptr malloc fd n sent).msg, m.buf[2].toNat = n) ↔
    fd < 0 ∨ n < 256 ∨ (cmptr || malloc) = false := by
  rcases sendFd_cases cmptr malloc fd n sent with
    ⟨hfd, hcall⟩ | ⟨-, hnone, hcall⟩ | ⟨hfd, hsome, hcall⟩
  · simp [hfd, Int.not_le.mpr hfd]
  · simp [hcall, hnone]
  · have hbyte : n % 256 = n ↔ n < 256 := by omega
    simp [hcall, hfd, hsome, Int.not_lt.mpr hfd, hbyte]

/-- The result is right unless two bytes went out, or all of them. -/
theorem sendFd_result (n : Nat) : ((sendFd cmptr malloc fd n sent).ret = 0 ↔
      ∃ m ∈ (sendFd cmptr malloc fd n sent).msg, sent = m.buf.size) ↔
    (sent ≠ 2 ∧ sent ≠ 3) ∨ 0 ≤ fd ∧ (cmptr || malloc) = false := by
  have hsent : (sendResult sent = 0 ↔ sent = 3) ↔ sent ≠ 2 ∧ sent ≠ 3 := by
    rw [sendResult_eq_zero]
    omega
  rcases sendFd_cases cmptr malloc fd n sent with
    ⟨hfd, hcall⟩ | ⟨hfd, hnone, hcall⟩ | ⟨hfd, hsome, hcall⟩
  · simpa [hcall, Int.not_le.mpr hfd] using hsent
  · simp [hcall, hfd, hnone]
  · simpa [hcall, hsome] using hsent

/-- **The message.** The receiver can tell a camera from an error always, its
number below 256, and `send_fd` reports a success for two bytes sent, which are
not the whole message, and not for three, which are. -/
theorem handover_iff (hname : EndsIn d name n) (cmptr malloc : Bool) (fd sent : Int) :
    HandsOver fd n sent (sendFd cmptr malloc fd (videoNum d name) sent) ↔
      (fd < 0 ∨ n < 256 ∨ (cmptr || malloc) = false) ∧
        ((sent ≠ 2 ∧ sent ≠ 3) ∨ 0 ≤ fd ∧ (cmptr || malloc) = false) := by
  rw [videoNum_eq hname, ← sendFd_number sent, ← sendFd_result n]
  exact ⟨fun h => ⟨h.number, h.result⟩, fun h => ⟨fun _ hm => sendFd_status hm, h.1, h.2⟩⟩

/-- The names of the loop. -/
theorem endsIn_videoDevice (d : Digits) (hn : n < 2 ^ 31) :
    EndsIn d ("/dev/video".toList ++ Nat.toDigits 10 n) n := by
  refine ⟨_, _, rfl, Nat.toDigits_ne_nil, ?_, ?_, Nat.ofDigitChars_ten_toDigits.symm, hn⟩
  · exact fun c hc => Nat.isDigit_of_mem_toDigits (by decide) (by decide) hc
  · intro c hc
    obtain rfl : 'o' = c := Option.some.inj hc
    exact d.ascii 'o' (by decide)

/-- The digits of ASCII. -/
def asciiDigits : Digits := ⟨Char.isDigit, fun _ _ => rfl⟩

theorem video0_handed_over :
    HandsOver 7 0 (-1) (sendFd true true 7 (videoNum asciiDigits "/dev/video0".toList) (-1)) :=
  (handover_iff (endsIn_videoDevice asciiDigits (by decide)) true true 7 (-1)).mpr (by decide)

/-- `send_fd` fails when all three bytes are sent. -/
theorem whole_header_fails : ¬ ∀ (d : Digits) (name : QString) (n : Nat), EndsIn d name n →
    ∀ (cmptr malloc : Bool) (fd sent : Int),
      HandsOver fd n sent (sendFd cmptr malloc fd (videoNum d name) sent) := by
  intro h
  have hfails := (h asciiDigits _ 0 (endsIn_videoDevice _ (by decide)) true true 7 3).result
  exact absurd (hfails.mpr ⟨_, rfl, rfl⟩) (by decide)

/-- No reading of the number byte tells all device numbers apart. -/
theorem number_not_determined : ¬ ∃ decode : BitVec 8 → Nat, ∀ n < 2 ^ 31, ∀ fd sent,
    0 ≤ fd → ∀ m ∈ (sendFd true true fd n sent).msg, decode m.buf[2] = n := by
  intro ⟨decode, h⟩
  have hzero := h 0 (by decide) 7 3 (by decide) _ rfl
  have hwrapped := h 256 (by decide) 7 3 (by decide) _ rfl
  have hsame : decode (BitVec.ofNat 8 0) = decode (BitVec.ofNat 8 256) :=
    congrArg decode (by decide)
  exact absurd (hzero.symm.trans (hsame.trans hwrapped)) (by decide)

/-- What a connection hands over says that it is a camera, and goes along with
the descriptor of its call. -/
theorem handover_of_send (qt : Qt) (d : Digits) {s : State} (hpos : 0 < s.fdToSend)
    (hmemory : (cmptr || malloc) = true) (sent : Int) :
    ∃ h m, s.handover qt d cmptr malloc sent = some h ∧ h.msg = some m ∧ m.buf[1] = 0 ∧
      m.msgControl = some s.fdToSend ∧
      .sendFd s.comFd s.fdToSend ∈ (s.send qt).calls := by
  have hsent : .sendFd s.comFd s.fdToSend ∈ (s.send qt).calls := by
    rw [(send_pos qt hpos).1]
    simp [State.call]
  rcases sendFd_cases cmptr malloc s.fdToSend (videoNum d (s.send qt).mCameraDeviceName) sent with
    ⟨hneg, -⟩ | ⟨-, hnone, -⟩ | ⟨-, -, hcall⟩
  · omega
  · exact absurd hmemory (hnone ▸ Bool.false_ne_true)
  · exact ⟨_, _, if_pos hpos, congrArg Handover.msg hcall, rfl, rfl, hsent⟩

end KmreManager.CameraService
