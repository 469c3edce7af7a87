import Mathlib.Data.List.Basic

/-! # NMEA sentences

A sentence is a dollar sign, a body, a star and two hexadecimal digits: the
exclusive or of the characters of the body. -/
namespace KmreManager.Lib.Nmea

def checksum (body : List UInt8) : UInt8 := body.foldl (· ^^^ ·) 0

/-- A digit of a number below 16. -/
def hexDigit (n : Nat) : UInt8 := if n < 10 then 48 + n.toUInt8 else 55 + n.toUInt8

def hexByte (b : UInt8) : List UInt8 := [hexDigit (b.toNat / 16), hexDigit (b.toNat % 16)]

/-- The sentence with that body. -/
def sentence (body : List UInt8) : List UInt8 := 36 :: body ++ 42 :: hexByte (checksum body)

variable {body more : List UInt8}

theorem foldl_xor (a : UInt8) (body : List UInt8) :
    body.foldl (· ^^^ ·) a = a ^^^ checksum body := by
  induction body generalizing a with
  | nil => exact (UInt8.xor_zero).symm
  | cons b body ih =>
    rw [checksum, List.foldl_cons, List.foldl_cons, ih (a ^^^ b), ih (0 ^^^ b), UInt8.zero_xor,
      UInt8.xor_assoc]

@[simp] theorem checksum_append : checksum (body ++ more) = checksum body ^^^ checksum more := by
  rw [checksum, List.foldl_append, foldl_xor]
  rfl

theorem hexDigit_injective {m n : Nat} (hm : m < 16) (hn : n < 16) (h : hexDigit m = hexDigit n) :
    m = n := by
  have hall : ∀ m n : Fin 16, hexDigit m = hexDigit n → m = n := by decide
  exact congrArg Fin.val (hall ⟨m, hm⟩ ⟨n, hn⟩ h)

theorem hexByte_injective {a b : UInt8} (h : hexByte a = hexByte b) : a = b := by
  obtain ⟨hhigh, hlow⟩ : hexDigit (a.toNat / 16) = hexDigit (b.toNat / 16) ∧
      hexDigit (a.toNat % 16) = hexDigit (b.toNat % 16) := by simpa [hexByte] using h
  have ha := a.toNat_lt
  have hb := b.toNat_lt
  have hdiv := hexDigit_injective (by omega) (by omega) hhigh
  have hmod := hexDigit_injective (by omega) (by omega) hlow
  exact UInt8.toNat_inj.mp (by omega)

/-- The digits at the end of a sentence are its checksum. -/
theorem digits_eq_iff {b : UInt8} :
    36 :: body ++ 42 :: hexByte b = sentence body ↔ checksum body = b := by
  rw [sentence]
  constructor
  · intro h
    have hdigits := (List.cons.inj (List.append_cancel_left h)).2
    exact (hexByte_injective hdigits).symm
  · intro h
    rw [h]

theorem sentence_length : (sentence body).length = body.length + 4 := by
  simp [sentence, hexByte]

end KmreManager.Lib.Nmea
