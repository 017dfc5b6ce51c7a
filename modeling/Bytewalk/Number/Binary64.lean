/-!
# Binary64 numbers

Floating-point numbers of the IEEE 754 format binary64, kept as bit patterns so that two numbers
are the same exactly when their bits are. Arithmetic and comparison are those of the format.
-/

namespace Bytewalk

/-- A binary64 number, given by its bit pattern. -/
structure Binary64 where
  /-- Sign, biased exponent and fraction, from the most significant bit on. -/
  bits : UInt64
  deriving DecidableEq, Inhabited

namespace Binary64

/-- The bit pattern of a machine number. -/
def ofFloat (x : Float) : Binary64 :=
  ⟨x.toBits⟩

/-- The machine number of a bit pattern. -/
def toFloat (x : Binary64) : Float :=
  Float.ofBits x.bits

/-- The number of an integer of 32 bits, which is exact. -/
def ofInt32 (n : Int32) : Binary64 :=
  ofFloat (.ofModel (.ofInt32 n))

/-- The number of a natural number, rounded to the nearest. -/
def ofNat (n : Nat) : Binary64 :=
  ofFloat (Float.ofNat n)

/-! ## Arithmetic -/

instance : Add Binary64 := ⟨fun x y => ofFloat (x.toFloat + y.toFloat)⟩
instance : Sub Binary64 := ⟨fun x y => ofFloat (x.toFloat - y.toFloat)⟩
instance : Mul Binary64 := ⟨fun x y => ofFloat (x.toFloat * y.toFloat)⟩
instance : Div Binary64 := ⟨fun x y => ofFloat (x.toFloat / y.toFloat)⟩
instance : Neg Binary64 := ⟨fun x => ofFloat (-x.toFloat)⟩

/-- The magnitude. -/
def abs (x : Binary64) : Binary64 :=
  ofFloat x.toFloat.abs

/-- The greatest whole number that is not above. -/
def floor (x : Binary64) : Binary64 :=
  ofFloat x.toFloat.floor

/-- The least whole number that is not below. -/
def ceil (x : Binary64) : Binary64 :=
  ofFloat x.toFloat.ceil

/-- The square root, not a number below zero. -/
def sqrt (x : Binary64) : Binary64 :=
  ofFloat x.toFloat.sqrt

/-- The power with a binary64 exponent. -/
def pow (x y : Binary64) : Binary64 :=
  ofFloat (x.toFloat.pow y.toFloat)

/-! ## Comparison

Zeros of both signs are equal, and nothing compares with a number that is not a number. -/

/-- Equality as the format has it. -/
def eq (x y : Binary64) : Bool :=
  x.toFloat == y.toFloat

/-- Strictly less. -/
def lt (x y : Binary64) : Bool :=
  x.toFloat < y.toFloat

/-- Less or equal. -/
def le (x y : Binary64) : Bool :=
  x.toFloat ≤ y.toFloat

/-- Whether the number is a zero of either sign. -/
def isZero (x : Binary64) : Bool :=
  x.eq ⟨0⟩

/-! ## Fields of the bit pattern -/

/-- The sign bit. -/
def isNegative (x : Binary64) : Bool :=
  x.bits >>> 63 != 0

/-- The biased exponent. -/
def exponentField (x : Binary64) : Nat :=
  ((x.bits >>> 52) &&& 0x7FF).toNat

/-- The fraction field. -/
def fractionField (x : Binary64) : Nat :=
  (x.bits &&& 0xFFFFFFFFFFFFF).toNat

/-- Whether the number is neither infinite nor not a number. -/
def isFinite (x : Binary64) : Bool :=
  x.exponentField != 0x7FF

/-- Whether the bit pattern stands for no number. -/
def isNaN (x : Binary64) : Bool :=
  !x.isFinite && x.fractionField != 0

end Binary64

end Bytewalk
