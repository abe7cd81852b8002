import Compression.Proofs.BitPacking

namespace Compression

/-- The digits of a number from place `count - 1` down to place zero. -/
def placeDigits (count value : Nat) : List Bool :=
  (List.range count).reverse.map fun place => decide (value / 2 ^ place % 2 = 1)

theorem binaryDigits_eq_placeDigits (count value : Nat) :
    binaryDigits count value = placeDigits count value := by
  induction count with
  | zero => rfl
  | succ count ih =>
    rw [binaryDigits, ih, placeDigits, placeDigits, List.range_succ, List.reverse_append,
      Nat.testBit_eq_decide_div_mod_eq]
    rfl

/-- How many zero bits fill up the last byte of so many bits. -/
def padding (size : Nat) : Nat :=
  (-(size : Int) % 8).toNat

namespace BitWriter

/-- A step asks for less than no digits, or for too few to hold the number. -/
def Step.Refused : Step → Prop
  | .number value count => count < 0 ∨ value < 0 ∨ 2 ^ count.toNat ≤ value
  | .bit _ | .clear => False

instance : DecidablePred Step.Refused
  | .number value count =>
    inferInstanceAs (Decidable (count < 0 ∨ value < 0 ∨ 2 ^ count.toNat ≤ value))
  | .bit _ | .clear => inferInstanceAs (Decidable False)

/-- The bits appended since the last clearing, after one step more. -/
def Step.record (bits : List Bool) (step : Step) : List Bool :=
  if step.Refused then bits
  else
    match step with
    | .bit value => bits ++ [decide (value ≠ 0)]
    | .number value count => bits ++ placeDigits count.toNat value.toNat
    | .clear => []

def recorded (steps : List Step) : List Bool :=
  steps.foldl Step.record []

/-- Takes the steps one after the other, also those behind one that fails. -/
def run (w : BitWriter) (steps : List Step) : BitWriter :=
  steps.foldl (fun w step => (w.perform step).2) w

variable {w : BitWriter} {step : Step}

theorem appendNumber_of_fits (w : BitWriter) {value count : Int}
    (h : ¬ (count < 0 ∨ value < 0 ∨ 2 ^ count.toNat ≤ value)) :
    w.appendNumber value count = .ok (w.appendAll (placeDigits count.toNat value.toNat)) := by
  rw [not_or] at h
  rw [appendNumber, if_neg h.1, if_neg h.2, binaryDigits_eq_placeDigits]

theorem appendNumber_of_not_fits (w : BitWriter) {value count : Int}
    (h : count < 0 ∨ value < 0 ∨ 2 ^ count.toNat ≤ value) :
    ∃ e, w.appendNumber value count = .error e := by
  rw [appendNumber]
  by_cases hcount : count < 0
  · rw [if_pos hcount]
    exact ⟨_, rfl⟩
  · rw [if_neg hcount, if_pos (h.resolve_left hcount)]
    exact ⟨_, rfl⟩

theorem perform_of_refused (w : BitWriter) (h : step.Refused) :
    ∃ e, w.perform step = (some e, w) := by
  cases step with
  | bit value => cases h
  | clear => cases h
  | number value count =>
    obtain ⟨e, he⟩ := w.appendNumber_of_not_fits h
    refine ⟨e, ?_⟩
    rw [perform, he]

theorem perform_of_not_refused (w : BitWriter) (h : ¬ step.Refused) :
    (w.perform step).1 = none := by
  cases step with
  | bit value => rfl
  | clear => rfl
  | number value count => rw [perform, w.appendNumber_of_fits h]

theorem toBits_perform (w : BitWriter) (step : Step) :
    (w.perform step).2.toBits = step.record w.toBits := by
  unfold Step.record
  split
  next h =>
    obtain ⟨e, he⟩ := w.perform_of_refused h
    rw [he]
  next h =>
    cases step with
    | bit value => exact toBits_append w _
    | clear => rfl
    | number value count =>
      simp only [perform, w.appendNumber_of_fits h, toBits_appendAll]

theorem toBits_run (w : BitWriter) (steps : List Step) :
    (w.run steps).toBits = steps.foldl Step.record w.toBits := by
  induction steps generalizing w with
  | nil => rfl
  | cons step steps ih =>
    rw [List.foldl_cons, ← toBits_perform]
    exact ih _

/-- The bytes are as many as the bits need, and less than a byte of them is left over. -/
theorem bitsOf_toBytes_eq (w : BitWriter) :
    w.toBytes.length = (w.size + 7) / 8 ∧
      bitsOf w.toBytes = w.toBits ++ List.replicate (padding w.size) false := by
  obtain ⟨filler, hlt, hbits⟩ := w.bitsOf_toBytes
  have hlength := congrArg List.length hbits
  rw [length_bitsOf, List.length_append, List.length_replicate, length_toBits] at hlength
  have hfiller : filler = padding w.size := by
    rw [padding]
    omega
  exact ⟨by omega, hfiller ▸ hbits⟩

end BitWriter

namespace BitReader

/-- The reader gives these bits, one after the other, and is then where `s` is. -/
inductive Reads : BitReader → List Bool → BitReader → Prop
  | nil {r : BitReader} : Reads r [] r
  | cons {r s t : BitReader} {bit : Bool} {bits : List Bool} : r.read? = some (bit, s) →
      Reads s bits t → Reads r (bit :: bits) t

theorem exists_reads {r : BitReader} {bits : List Bool} (h : r.toBits = bits) :
    ∃ s, r.Reads bits s ∧ s.read? = none := by
  induction bits generalizing r with
  | nil => exact ⟨r, .nil, read?_eq_none h⟩
  | cons bit bits ih =>
    obtain ⟨next, hread, hrest, _⟩ := read?_of_toBits h
    obtain ⟨s, hreads, hend⟩ := ih hrest
    exact ⟨s, .cons hread hreads, hend⟩

end BitReader

/-- A writer holds the bits that the steps since the last clearing have appended, whatever steps
have failed, and its bytes read as these bits and zero bits up to the end of a byte. -/
theorem run_holds_recorded (steps : List BitWriter.Step) :
    let w := BitWriter.empty.run steps
    let bits := BitWriter.recorded steps
    w.size = bits.length ∧
      w.toBytes.length = (bits.length + 7) / 8 ∧
      bitsOf w.toBytes = bits ++ List.replicate (padding bits.length) false ∧
      (∀ step, if step.Refused then ∃ e, w.perform step = (some e, w)
        else (w.perform step).1 = none) ∧
      ∃ r, (BitReader.ofBytes w.toBytes).Reads
        (bits ++ List.replicate (padding bits.length) false) r ∧ r.read? = none := by
  intro w bits
  have hbits : w.toBits = bits := BitWriter.empty.toBits_run steps
  have hsize : w.size = bits.length := by rw [← hbits, BitWriter.length_toBits]
  obtain ⟨hlength, hbytes⟩ := w.bitsOf_toBytes_eq
  rw [hsize] at hlength hbytes
  rw [hbits] at hbytes
  refine ⟨hsize, hlength, hbytes, fun step => ?_, ?_⟩
  · split
    next h => exact w.perform_of_refused h
    next h => exact w.perform_of_not_refused h
  · exact BitReader.exists_reads ((BitReader.toBits_ofBytes w.toBytes).trans hbytes)

end Compression
