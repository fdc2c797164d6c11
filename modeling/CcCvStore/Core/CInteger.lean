import CcCvStore.Core.Effect

/-!
# C integers

The conversions between `int` and `size_t` on a 64-bit target, and the `int`
operations whose overflow is undefined.  Values are mathematical integers; a
conversion reduces them into the range of its type.
-/

namespace CcCvStore.CInteger

/-- What a C program can run into where the language defines nothing. -/
inductive Fault where
  /-- A string function applied to `NULL`. -/
  | nullArgument
  /-- A read past the memory that can be read. -/
  | overrun
  /-- A write through `NULL` or past the memory that can be written. -/
  | wildWrite
  /-- Overflow of a signed `int` operation. -/
  | intOverflow
  deriving DecidableEq, Repr

def intMax : Int := 2147483647
def intMin : Int := -2147483648

/-- No allocation is larger than `PTRDIFF_MAX` bytes. -/
def ptrdiffMax : Nat := 9223372036854775807

/-- Conversion to `int`: reduction modulo `2^32` into the signed range. -/
def toInt (value : Int) : Int :=
  (value + 2147483648) % 4294967296 - 2147483648

/-- Conversion to `size_t`: reduction modulo `2^64`. -/
def toSize (value : Int) : Nat :=
  (value % 18446744073709551616).toNat

/-- Subtraction of `size_t` values. -/
def sizeSub (left right : Nat) : Nat :=
  if right ≤ left then left - right else left + 18446744073709551616 - right

/-- An `int` operation with the given mathematical result. -/
def intResult (value : Int) : Except Fault Int :=
  if intMin ≤ value ∧ value ≤ intMax then .ok value else .error .intOverflow

/-- `abs` of the C library, undefined on `INT_MIN`. -/
def cAbs (value : Int) : Except Fault Int := intResult value.natAbs

theorem toInt_range (value : Int) :
    intMin ≤ toInt value ∧ toInt value ≤ intMax := by
  simp only [toInt, intMin, intMax]
  omega

theorem toInt_of_range {value : Int} (hlow : intMin ≤ value)
    (hhigh : value ≤ intMax) : toInt value = value := by
  simp only [toInt, intMin, intMax] at *
  omega

theorem toInt_natCast (size : Nat) (hsize : (size : Int) ≤ intMax) :
    toInt size = size :=
  toInt_of_range (by simp only [intMin]; omega) hsize

theorem toSize_of_nonneg {value : Int} (hlow : 0 ≤ value)
    (hhigh : value ≤ intMax) : toSize value = value.toNat := by
  simp only [toSize, intMax] at *
  omega

/-- A negative `int` converts to a size no allocation can have. -/
theorem ptrdiffMax_lt_toSize {value : Int} (hlow : intMin ≤ value)
    (hneg : value < 0) : ptrdiffMax < toSize value := by
  simp only [toSize, ptrdiffMax, intMin] at *
  omega

theorem sizeSub_of_le {left right : Nat} (hle : right ≤ left) :
    sizeSub left right = left - right := if_pos hle

theorem intResult_of_range {value : Int} (hlow : intMin ≤ value)
    (hhigh : value ≤ intMax) : intResult value = .ok value :=
  if_pos ⟨hlow, hhigh⟩

theorem cAbs_of_neg {value : Int} (hlow : intMin < value) (hneg : value < 0) :
    cAbs value = .ok (-value) := by
  have habs : (value.natAbs : Int) = -value := by omega
  rw [cAbs, habs]
  simp only [intMin] at hlow
  exact intResult_of_range (by simp only [intMin]; omega) (by simp only [intMax]; omega)

theorem intResult_eq_error (value : Int)
    (hrange : ¬(intMin ≤ value ∧ value ≤ intMax)) :
    intResult value = .error .intOverflow := if_neg hrange

/-! ## Representation -/

/-- The bytes of an `int`, the low one first. -/
def intBytes (value : Int32) : List UInt8 :=
  let bits := value.toUInt32.toNat
  [.ofNat bits, .ofNat (bits / 256), .ofNat (bits / 65536), .ofNat (bits / 16777216)]

/-- The `int` that bytes represent. -/
def intOfBytes (bytes : List UInt8) : Int32 :=
  (UInt32.ofNat (bytes.foldr (fun byte high => byte.toNat + 256 * high) 0)).toInt32

@[simp]
theorem length_intBytes (value : Int32) : (intBytes value).length = 4 := rfl

theorem intOfBytes_intBytes (value : Int32) : intOfBytes (intBytes value) = value := by
  have hbits : value.toUInt32.toNat < 4294967296 := value.toUInt32.toNat_lt
  have hsum : (intBytes value).foldr (fun byte high => byte.toNat + 256 * high) 0 =
      value.toUInt32.toNat := by
    simp only [intBytes, List.foldr_cons, List.foldr_nil, UInt8.toNat_ofNat']
    omega
  rw [intOfBytes, hsum, UInt32.ofNat_toNat, Int32.toInt32_toUInt32]

end CcCvStore.CInteger
