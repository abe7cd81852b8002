import Compression.BitReader
import Compression.BitWriter
import Mathlib.Data.List.Induction
import Mathlib.Tactic.IntervalCases
import Mathlib.Tactic.Ring

namespace Compression

theorem bitsValue_concat (bits : List Bool) (bit : Bool) :
    bitsValue (bits ++ [bit]) = 2 * bitsValue bits + bit.toNat := by
  simp [bitsValue]

theorem bitsValue_lt (bits : List Bool) : bitsValue bits < 2 ^ bits.length := by
  induction bits using List.reverseRecOn with
  | nil => simp [bitsValue]
  | append_singleton bits bit ih =>
    rw [bitsValue_concat, List.length_append, List.length_singleton, Nat.pow_succ]
    have := bit.toNat_le
    omega

theorem binaryDigits_concat (count value : Nat) (bit : Bool) :
    binaryDigits (count + 1) (2 * value + bit.toNat) = binaryDigits count value ++ [bit] := by
  induction count with
  | zero => cases bit <;> simp [binaryDigits]
  | succ count ih =>
    have hv : (2 * value + bit.toNat) / 2 = value := by
      have := bit.toNat_le
      have := bit.toNat_lt
      omega
    rw [binaryDigits, Nat.testBit_succ, hv, ih]
    rfl

theorem binaryDigits_bitsValue (bits : List Bool) :
    binaryDigits bits.length (bitsValue bits) = bits := by
  induction bits using List.reverseRecOn with
  | nil => rfl
  | append_singleton bits bit ih =>
    rw [bitsValue_concat, List.length_append, List.length_singleton, binaryDigits_concat, ih]

theorem binaryDigits_shift (count value places : Nat) :
    binaryDigits (count + places) (value * 2 ^ places) =
      binaryDigits count value ++ List.replicate places false := by
  induction places with
  | zero => simp
  | succ places ih =>
    have hv : value * 2 ^ (places + 1) = 2 * (value * 2 ^ places) + Bool.toNat false := by
      rw [Nat.pow_succ, Bool.toNat_false]
      ring
    rw [hv, ← Nat.add_assoc, binaryDigits_concat, ih, List.append_assoc,
      ← List.replicate_succ']

/-- A byte begins with the bits packed into it, and zero bits fill it up. -/
theorem byteBits_packByte {bits : List Bool} (h : bits.length ≤ 8) :
    byteBits (packByte bits) = bits ++ List.replicate (8 - bits.length) false := by
  have hlt : bitsValue bits * 2 ^ (8 - bits.length) < 2 ^ 8 := by
    calc bitsValue bits * 2 ^ (8 - bits.length)
        < 2 ^ bits.length * 2 ^ (8 - bits.length) :=
          Nat.mul_lt_mul_of_pos_right (bitsValue_lt bits) (Nat.two_pow_pos _)
      _ = 2 ^ 8 := by rw [← Nat.pow_add]; congr 1; omega
  have hbyte : (packByte bits).toNat = bitsValue bits * 2 ^ (8 - bits.length) := by
    rw [packByte, UInt8.toNat_ofNat']
    exact Nat.mod_eq_of_lt hlt
  calc byteBits (packByte bits)
      = binaryDigits 8 (packByte bits).toNat := rfl
    _ = binaryDigits (bits.length + (8 - bits.length))
          (bitsValue bits * 2 ^ (8 - bits.length)) := by
        rw [hbyte]; congr 1; omega
    _ = bits ++ List.replicate (8 - bits.length) false := by
        rw [binaryDigits_shift, binaryDigits_bitsValue]

@[simp] theorem BitWriter.toBits_append (w : BitWriter) (bit : Bool) :
    (w.append bit).toBits = w.toBits ++ [bit] := by
  unfold append
  split
  next => simp [toBits]
  next h =>
    have hlen : (w.pending ++ [bit]).length = 8 := by
      have := w.pending_lt
      simp only [List.length_append, List.length_singleton]
      omega
    simp [toBits, byteBits_packByte (Nat.le_of_eq hlen), hlen]

@[simp] theorem BitWriter.toBits_appendAll (w : BitWriter) (bits : List Bool) :
    (w.appendAll bits).toBits = w.toBits ++ bits := by
  induction bits generalizing w with
  | nil => simp [appendAll]
  | cons bit bits ih =>
    change ((w.append bit).appendAll bits).toBits = _
    rw [ih, toBits_append, List.append_assoc]
    rfl

/-- The number that a run of bits writes fits into as many bits, and appending it there appends
the run. -/
theorem BitWriter.appendNumber_bitsValue (w : BitWriter) (bits : List Bool) :
    w.appendNumber (bitsValue bits) bits.length = .ok (w.appendAll bits) := by
  have hlt : (bitsValue bits : Int) < 2 ^ bits.length := by exact_mod_cast bitsValue_lt bits
  rw [appendNumber, if_neg (by omega), if_neg (by simp only [Int.toNat_natCast]; omega)]
  simp only [Int.toNat_natCast, binaryDigits_bitsValue]

/-- The packed bytes hold the appended bits and less than a byte of zero bits behind them. -/
theorem BitWriter.bitsOf_toBytes (w : BitWriter) :
    ∃ padding < 8, bitsOf w.toBytes = w.toBits ++ List.replicate padding false := by
  have hlt := w.pending_lt
  cases hp : w.pending with
  | nil => exact ⟨0, by omega, by simp [toBytes, toBits, hp]⟩
  | cons bit rest =>
    have hpos : 0 < w.pending.length := by simp [hp]
    refine ⟨8 - w.pending.length, by omega, ?_⟩
    rw [toBytes, toBits, if_neg (by simp [hp]), bitsOf_append, bitsOf_cons, bitsOf_nil,
      List.append_nil, byteBits_packByte (Nat.le_of_lt hlt), List.append_assoc]

theorem getElem?_bitsOf (data : Bytes) (i : Nat) :
    (bitsOf data)[i]? = data[i / 8]?.map fun b => b.toNat.testBit (7 - i % 8) := by
  induction data generalizing i with
  | nil => simp
  | cons b data ih =>
    rw [bitsOf_cons]
    by_cases hi : i < 8
    · rw [List.getElem?_append_left (by simpa using hi), Nat.div_eq_of_lt hi, Nat.mod_eq_of_lt hi]
      interval_cases i <;> rfl
    · have hd : i / 8 = (i - 8) / 8 + 1 := by omega
      have hm : (i - 8) % 8 = i % 8 := by omega
      rw [List.getElem?_append_right (by simp; omega), length_byteBits, ih, hm, hd,
        List.getElem?_cons_succ]

@[simp] theorem BitReader.toBits_ofBytes (data : Bytes) : (ofBytes data).toBits = bitsOf data := by
  simp [toBits, ofBytes]

@[simp] theorem BitReader.totalBits_ofBytes (data : Bytes) :
    (ofBytes data).totalBits = (bitsOf data).length := by
  simp [totalBits, ofBytes]

theorem BitReader.peek?_eq_head? (r : BitReader) : r.peek? = r.toBits.head? := by
  rw [toBits, List.head?_drop, getElem?_bitsOf, peek?, Array.getElem?_toList]

theorem BitReader.read?_eq_none {r : BitReader} (h : r.toBits = []) : r.read? = none := by
  rw [read?, peek?_eq_head?, h]
  rfl

theorem BitReader.read?_of_toBits {r : BitReader} {bit : Bool} {bits : List Bool}
    (h : r.toBits = bit :: bits) :
    ∃ s, r.read? = some (bit, s) ∧ s.toBits = bits ∧ s.totalBits = r.totalBits := by
  refine ⟨{ r with position := r.position + 1 }, ?_, ?_, rfl⟩
  · rw [read?, peek?_eq_head?, h]
    rfl
  · have ht : r.toBits.tail = bits := by rw [h]; rfl
    rw [← ht, toBits, toBits, List.tail_drop]

end Compression
