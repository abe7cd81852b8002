namespace Compression

-- Powers of numbers are those of the core library, also where algebra brings in its own.
attribute [instance(2000), default_instance 20000] instPowNat

/-- File contents and other runs of bytes. -/
abbrev Bytes := List UInt8

/-- Basic Latin text, a byte for each character. -/
def asciiBytes (text : List Char) : Bytes :=
  text.map fun c => UInt8.ofNat c.toNat

/-- The eight bits of a byte, the most significant first. -/
def byteBits (b : UInt8) : List Bool :=
  let n := b.toNat
  [n.testBit 7, n.testBit 6, n.testBit 5, n.testBit 4,
    n.testBit 3, n.testBit 2, n.testBit 1, n.testBit 0]

/-- All bits of a run of bytes in reading order. -/
def bitsOf (data : Bytes) : List Bool :=
  data.flatMap byteBits

/-- The number that a run of binary digits writes, the most significant first. -/
def bitsValue (bits : List Bool) : Nat :=
  bits.foldl (fun n b => 2 * n + b.toNat) 0

/-- The `count` low binary digits of `value`, the most significant first. -/
def binaryDigits : Nat → Nat → List Bool
  | 0, _ => []
  | count + 1, value => value.testBit count :: binaryDigits count value

/-- The byte that begins with the given bits; missing ones are zero. -/
def packByte (bits : List Bool) : UInt8 :=
  UInt8.ofNat (bitsValue bits * 2 ^ (8 - bits.length))

/-- The byte that a number is. -/
def byteOf? (n : Int) : Option UInt8 :=
  if 0 ≤ n ∧ n < 256 then some (UInt8.ofNat n.toNat) else none

@[simp] theorem length_byteBits (b : UInt8) : (byteBits b).length = 8 := rfl

@[simp] theorem bitsOf_nil : bitsOf [] = [] := rfl

@[simp] theorem bitsOf_cons (b : UInt8) (data : Bytes) :
    bitsOf (b :: data) = byteBits b ++ bitsOf data := by
  simp [bitsOf]

@[simp] theorem bitsOf_append (xs ys : Bytes) : bitsOf (xs ++ ys) = bitsOf xs ++ bitsOf ys := by
  simp [bitsOf]

@[simp] theorem length_bitsOf (data : Bytes) : (bitsOf data).length = 8 * data.length := by
  induction data with
  | nil => rfl
  | cons b data ih => simp [ih]; omega

/-- An unsigned number of `size` bytes, the least significant first. -/
def littleEndian : Nat → Nat → Bytes
  | 0, _ => []
  | size + 1, value => UInt8.ofNat value :: littleEndian size (value / 256)

/-- The number that a run of bytes writes, the least significant first. -/
def littleEndianValue : Bytes → Nat
  | [] => 0
  | b :: rest => b.toNat + 256 * littleEndianValue rest

/-- A field of `size` bytes holds the numbers below `256 ^ size` and no others. -/
def field? (size : Nat) (value : Int) : Option Bytes :=
  if 0 ≤ value ∧ value < 256 ^ size then some (littleEndian size value.toNat) else none

@[simp] theorem length_littleEndian (size value : Nat) :
    (littleEndian size value).length = size := by
  induction size generalizing value with
  | zero => rfl
  | succ size ih => simp [littleEndian, ih]

theorem littleEndianValue_littleEndian {size value : Nat} (h : value < 256 ^ size) :
    littleEndianValue (littleEndian size value) = value := by
  induction size generalizing value with
  | zero => simp at h; simp [littleEndian, littleEndianValue, h]
  | succ size ih =>
    have hd : value / 256 < 256 ^ size := by
      rw [Nat.pow_succ] at h
      exact Nat.div_lt_of_lt_mul (by omega)
    have hb : (UInt8.ofNat value).toNat = value % 256 := by simp
    simp only [littleEndian, littleEndianValue, ih hd, hb]
    omega

end Compression
