import Compression.Bytes

namespace Compression

/-- Bits packed so far: whole bytes, and the bits of the byte that is still open. -/
structure BitWriter where
  bytes : Array UInt8 := #[]
  pending : List Bool := []
  pending_lt : pending.length < 8 := by decide

def BitWriter.empty : BitWriter := {}

/-- Why a number cannot be appended in a given count of bits. -/
inductive BitWriter.Error where
  | negativeCount (count : Int)
  | tooLarge (value count : Int)

def BitWriter.Error.message : BitWriter.Error → String
  | .negativeCount count => s!"num_bits must be non-negative, got {count}"
  | .tooLarge value count => s!"Value {value} does not fit in {count} bits"

/-- The bits appended since the writer was last empty. -/
def BitWriter.toBits (w : BitWriter) : List Bool :=
  bitsOf w.bytes.toList ++ w.pending

def BitWriter.size (w : BitWriter) : Nat :=
  8 * w.bytes.size + w.pending.length

def BitWriter.append (w : BitWriter) (bit : Bool) : BitWriter :=
  if h : w.pending.length < 7 then
    { bytes := w.bytes
      pending := w.pending ++ [bit]
      pending_lt := by simp; omega }
  else
    { bytes := w.bytes.push (packByte (w.pending ++ [bit])) }

def BitWriter.appendAll (w : BitWriter) (bits : List Bool) : BitWriter :=
  bits.foldl BitWriter.append w

/-- Appends `value` as exactly `count` binary digits. -/
def BitWriter.appendNumber (w : BitWriter) (value count : Int) :
    Except BitWriter.Error BitWriter :=
  if count < 0 then .error (.negativeCount count)
  else if value < 0 ∨ 2 ^ count.toNat ≤ value then .error (.tooLarge value count)
  else .ok (w.appendAll (binaryDigits count.toNat value.toNat))

inductive BitWriter.Step where
  | bit (value : Int)
  | number (value count : Int)
  | clear

/-- Takes a step. Any bit but zero is a one. A step that fails tells why, and leaves the writer as
it is. -/
def BitWriter.perform (w : BitWriter) : BitWriter.Step → Option BitWriter.Error × BitWriter
  | .bit value => (none, w.append (decide (value ≠ 0)))
  | .number value count =>
    match w.appendNumber value count with
    | .ok w => (none, w)
    | .error e => (some e, w)
  | .clear => (none, .empty)

/-- The packed bytes, the open one filled up with zero bits. -/
def BitWriter.toBytes (w : BitWriter) : Bytes :=
  w.bytes.toList ++ if w.pending.isEmpty then [] else [packByte w.pending]

@[simp] theorem BitWriter.length_toBits (w : BitWriter) : w.toBits.length = w.size := by
  simp [toBits, size]

end Compression
