import Compression.Bytes

namespace Compression

/-- A run of bytes read bit by bit, each byte from its most significant bit. -/
structure BitReader where
  data : Array UInt8
  position : Nat := 0

def BitReader.ofBytes (data : Bytes) : BitReader where
  data := data.toArray

def BitReader.totalBits (r : BitReader) : Nat :=
  8 * r.data.size

/-- How many bits are left to read. -/
def BitReader.remaining (r : BitReader) : Nat :=
  r.totalBits - r.position

/-- The bits left to read. -/
def BitReader.toBits (r : BitReader) : List Bool :=
  (bitsOf r.data.toList).drop r.position

/-- The next bit, which stays unread; none at the end. -/
def BitReader.peek? (r : BitReader) : Option Bool :=
  r.data[r.position / 8]?.map fun b => b.toNat.testBit (7 - r.position % 8)

/-- The next bit and the reader behind it; none at the end. -/
def BitReader.read? (r : BitReader) : Option (Bool × BitReader) :=
  r.peek?.map fun bit => (bit, { r with position := r.position + 1 })

/-- Why a reader has no bit to give. -/
inductive BitReader.Error where
  | bitsEnd
  /-- The bits, so many in all, end where a code has to go on. -/
  | codesEnd (total : Nat)
deriving DecidableEq

def BitReader.Error.message : BitReader.Error → String
  | .bitsEnd => "No more bits to read"
  | .codesEnd total => s!"Code payload exhausted after {total} bits"

inductive BitReader.Step where
  | peek
  | read
  /-- Reads a bit of a code, which has to be there. -/
  | code
deriving DecidableEq

/-- Takes a step. A step that fails tells why, and leaves the reader as it is. -/
def BitReader.perform (r : BitReader) :
    BitReader.Step → Except BitReader.Error Bool × BitReader
  | .peek =>
    match r.peek? with
    | some bit => (.ok bit, r)
    | none => (.error .bitsEnd, r)
  | .read =>
    match r.read? with
    | some (bit, s) => (.ok bit, s)
    | none => (.error .bitsEnd, r)
  | .code =>
    match r.read? with
    | some (bit, s) => (.ok bit, s)
    | none => (.error (.codesEnd r.totalBits), r)

theorem BitReader.peek?_eq_none_iff (r : BitReader) :
    r.peek? = none ↔ r.totalBits ≤ r.position := by
  simp [peek?, totalBits]
  omega

theorem BitReader.position_of_read? {r s : BitReader} {bit : Bool}
    (h : r.read? = some (bit, s)) : s.data = r.data ∧ s.position = r.position + 1 := by
  obtain ⟨b, _, he⟩ := Option.map_eq_some_iff.mp h
  cases he
  exact ⟨rfl, rfl⟩

theorem BitReader.remaining_lt_of_read? {r s : BitReader} {bit : Bool}
    (h : r.read? = some (bit, s)) : s.remaining < r.remaining := by
  obtain ⟨hd, hp⟩ := position_of_read? h
  have hr : ¬ r.totalBits ≤ r.position := by
    rw [← peek?_eq_none_iff]
    intro hn
    simp [read?, hn] at h
  simp only [remaining, totalBits, hd, hp] at hr ⊢
  omega

end Compression
