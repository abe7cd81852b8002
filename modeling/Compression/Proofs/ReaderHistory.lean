import Compression.Proofs.BitPacking

namespace Compression

namespace BitReader

/-- How far a step goes if it gets its bit. -/
def Step.advance : Step → Nat
  | .peek => 0
  | .read | .code => 1

/-- What a step answers where all bits, `total` of them, have been read. -/
def Step.fault (total : Nat) : Step → Error
  | .peek | .read => .bitsEnd
  | .code => .codesEnd total

/-- The bit that a step takes off the reader by its answer. -/
def Step.taken? : Step × Except Error Bool → Option Bool
  | (.peek, _) => none
  | (.read, answer) | (.code, answer) => answer.toOption

/-- The steps, one after the other and also behind one that fails, with their answers. -/
def answers (r : BitReader) : List Step → List (Step × Except Error Bool)
  | [] => []
  | step :: steps => (step, (r.perform step).1) :: (r.perform step).2.answers steps

/-- Where the steps lead. -/
def run (r : BitReader) (steps : List Step) : BitReader :=
  steps.foldl (fun r step => (r.perform step).2) r

variable {r : BitReader} {bit : Bool} {bits : List Bool}

theorem toBits_advance (r : BitReader) (n : Nat) :
    toBits { r with position := r.position + n } = r.toBits.drop n := by
  rw [toBits, toBits, List.drop_drop]

/-- A step before the end gives the next bit. -/
theorem perform_of_toBits (h : r.toBits = bit :: bits) (step : Step) :
    r.perform step = (.ok bit, { r with position := r.position + step.advance }) := by
  have hpeek : r.peek? = some bit := by rw [peek?_eq_head?, h, List.head?_cons]
  cases step with
  | peek => simp only [perform, hpeek, Step.advance, Nat.add_zero]
  | read => simp only [perform, read?, hpeek, Option.map_some, Step.advance]
  | code => simp only [perform, read?, hpeek, Option.map_some, Step.advance]

theorem perform_of_end (h : r.toBits = []) (step : Step) :
    r.perform step = (.error (step.fault r.totalBits), r) := by
  have hpeek : r.peek? = none := by rw [peek?_eq_head?, h, List.head?_nil]
  cases step with
  | peek => simp only [perform, hpeek, Step.fault]
  | read => simp only [perform, read?, hpeek, Option.map_none, Step.fault]
  | code => simp only [perform, read?, hpeek, Option.map_none, Step.fault]

theorem perform_eq (r : BitReader) (step : Step) :
    r.perform step =
      if h : r.position < (bitsOf r.data.toList).length then
        (.ok (bitsOf r.data.toList)[r.position], { r with position := r.position + step.advance })
      else (.error (step.fault r.totalBits), r) := by
  split
  next h => exact perform_of_toBits (List.drop_eq_getElem_cons h) step
  next h => exact perform_of_end (List.drop_eq_nil_of_le (Nat.le_of_not_lt h)) step

/-- One step keeps the bytes, and moves over the bit that it takes. -/
theorem perform_moves (r : BitReader) (step : Step) :
    let next := (r.perform step).2
    let taken := (Step.taken? (step, (r.perform step).1)).toList
    next.data = r.data ∧ next.position = r.position + taken.length ∧
      r.toBits = taken ++ next.toBits := by
  cases hbits : r.toBits with
  | nil =>
    rw [perform_of_end hbits]
    cases step <;> exact ⟨rfl, rfl, hbits.symm⟩
  | cons bit bits =>
    rw [perform_of_toBits hbits]
    dsimp only
    rw [toBits_advance, hbits]
    cases step <;> exact ⟨rfl, rfl, rfl⟩

theorem run_moves (r : BitReader) (steps : List Step) :
    let taken := (r.answers steps).filterMap Step.taken?
    (r.run steps).data = r.data ∧ (r.run steps).position = r.position + taken.length ∧
      r.toBits = taken ++ (r.run steps).toBits := by
  induction steps generalizing r with
  | nil => exact ⟨rfl, rfl, rfl⟩
  | cons step steps ih =>
    -- The reader that the first step leaves is where the others start, also if that step failed.
    obtain ⟨hdata, hposition, hbits⟩ := r.perform_moves step
    obtain ⟨hdata', hposition', hbits'⟩ := ih (r.perform step).2
    have htaken : (r.answers (step :: steps)).filterMap Step.taken? =
        (Step.taken? (step, (r.perform step).1)).toList ++
          ((r.perform step).2.answers steps).filterMap Step.taken? := by
      rw [answers, List.filterMap_cons]
      cases Step.taken? (step, (r.perform step).1) <;> rfl
    have hrun : r.run (step :: steps) = (r.perform step).2.run steps := rfl
    refine ⟨hdata'.trans hdata, ?_, ?_⟩
    · rw [htaken, hrun, hposition', hposition, List.length_append]
      omega
    · rw [htaken, hrun, hbits, hbits', List.append_assoc]

end BitReader

/-- A reader is behind as many bits as have been taken off it, whatever has been asked of it, and
they are the first ones. Any step gives the bit there, the most significant of a byte first, and
goes on unless it only peeks; at the end it tells so and leaves the reader as it is. -/
theorem reader_at_taken_bits (data : Bytes) (steps : List BitReader.Step) :
    let r := (BitReader.ofBytes data).run steps
    let taken := ((BitReader.ofBytes data).answers steps).filterMap BitReader.Step.taken?
    r.position = taken.length ∧ r.position ≤ 8 * data.length ∧
      r.position + r.remaining = 8 * data.length ∧ taken = (bitsOf data).take r.position ∧
      ∀ step, r.perform step =
        if h : r.position < (bitsOf data).length then
          (.ok (bitsOf data)[r.position], { r with position := r.position + step.advance })
        else (.error (step.fault (8 * data.length)), r) := by
  intro r taken
  obtain ⟨hdata, hposition, hbits⟩ := (BitReader.ofBytes data).run_moves steps
  have hposition : r.position = taken.length := by
    rw [hposition]
    exact Nat.zero_add _
  have hbits : bitsOf data = taken ++ r.toBits := by
    rw [← hbits, BitReader.toBits_ofBytes]
  have hlength := congrArg List.length hbits
  rw [length_bitsOf, List.length_append] at hlength
  have hlist : r.data.toList = data := by rw [hdata, BitReader.ofBytes]
  have htotal : r.totalBits = 8 * data.length := by
    rw [BitReader.totalBits, ← Array.length_toList, hlist]
  have hremaining : r.remaining = 8 * data.length - r.position := by
    rw [BitReader.remaining, htotal]
  refine ⟨hposition, by omega, by omega, ?_, fun step => ?_⟩
  · rw [hbits, hposition, List.take_left]
  · rw [r.perform_eq step, htotal, hlist]

end Compression
