import Compression.Proofs.MatchSearch

namespace Compression

/-- A candidate of a position begins before it, and the window reaches as far back. -/
def Reaches (params : LzssParams) (position candidate : Nat) : Prop :=
  position - params.windowSize ≤ candidate ∧ candidate < position

/-- How many bytes from a candidate on agree with those from the position on, as far as one match
and the data go. -/
def agreement (params : LzssParams) (data : Bytes) (position candidate : Nat) : Nat :=
  min (min params.lookahead (data.length - position))
    (commonLength (data.drop candidate) (data.drop position))

/-- The match found by a look at every candidate in ascending order. -/
def scanMatch (params : LzssParams) (data : Bytes) (position : Nat) : Option Match :=
  let farthest := position - params.windowSize
  let best := (List.range' farthest (position - farthest)).foldl
    (keepLonger (agreement params data position) position) ⟨0, 0⟩
  if best.length < params.minMatch then none else some best

/-- From a candidate on the data agree in `n` bytes with the data from the position on, and one
match can be as long. -/
def AgreesFor (params : LzssParams) (data : Bytes) (position candidate n : Nat) : Prop :=
  n ≤ params.lookahead ∧ n ≤ data.length - position ∧
    ∀ k < n, data[candidate + k]? = data[position + k]?

/-- What a search has to answer: the first of the candidates that agree the longest, unless none
agrees in as many bytes as a match has at least. -/
def LongestMatch (params : LzssParams) (data : Bytes) (position : Nat) : Option Match → Prop
  | none => ∀ i, Reaches params position i → ¬ AgreesFor params data position i params.minMatch
  | some m => params.minMatch ≤ m.length ∧ ∃ j, Reaches params position j ∧
      m.offset = position - j ∧ AgreesFor params data position j m.length ∧
      (∀ i, Reaches params position i → ¬ AgreesFor params data position i (m.length + 1)) ∧
      ∀ i, Reaches params position i → i < j → ¬ AgreesFor params data position i m.length

theorem le_agreement_iff {params : LzssParams} {data : Bytes} {position candidate n : Nat} :
    n ≤ agreement params data position candidate ↔ AgreesFor params data position candidate n := by
  rw [agreement, AgreesFor, Nat.le_min, Nat.le_min, and_assoc, commonLength_comm]
  refine and_congr_right fun _ => and_congr_right fun hn => ?_
  rw [le_commonLength_iff (by rwa [List.length_drop])]
  simp only [List.getElem?_drop, eq_comm]

@[simp] theorem Cursor.at_behind (reach : Nat) (data : Bytes) (position : Nat) :
    (Cursor.at reach data position).behind = min reach position := by
  simp [Cursor.at, Cursor.advance, Cursor.start]

@[simp] theorem Cursor.at_window (reach : Nat) (data : Bytes) (position : Nat) :
    (Cursor.at reach data position).window = data.drop (position - reach) := by
  simp only [Cursor.at, Cursor.advance, Cursor.start]
  congr 1
  omega

@[simp] theorem Cursor.at_here (reach : Nat) (data : Bytes) (position : Nat) :
    (Cursor.at reach data position).here = data.drop position := rfl

/-- A place of the window agrees with the target as far as the candidate it stands for. -/
theorem commonLength_target (params : LzssParams) (data : Bytes) (position candidate : Nat) :
    commonLength ((data.drop position).take params.lookahead) (data.drop candidate) =
      agreement params data position candidate := by
  have hle := commonLength_le_left (data.drop position) (data.drop candidate)
  rw [List.length_drop] at hle
  rw [agreement, commonLength_take, commonLength_comm (data.drop candidate)]
  omega

theorem findMatch_eq_scanMatch (params : LzssParams) (data : Bytes) (position : Nat) :
    findMatch params (.at params.windowSize data position) = scanMatch params data position := by
  have hcount : position - (position - params.windowSize) = min params.windowSize position := by
    omega
  have hplaces : List.range' (position - params.windowSize) (min params.windowSize position) =
      (List.range' 0 (min params.windowSize position)).map (position - params.windowSize + ·) := by
    rw [List.map_add_range', Nat.add_zero]
  have hstep : ∀ (best : Match), ∀ place ∈ List.range' 0 (min params.windowSize position),
      keepLonger (fun p => commonLength ((data.drop position).take params.lookahead)
          ((data.drop (position - params.windowSize)).drop p)) (min params.windowSize position)
          best place =
        keepLonger (agreement params data position) position best
          (position - params.windowSize + place) := by
    intro best place _
    have hoffset : min params.windowSize position - place =
        position - (position - params.windowSize + place) := by omega
    simp only [keepLonger, List.drop_drop, commonLength_target, hoffset]
  simp only [findMatch, scanMatch, improveMatch_eq_foldl, Cursor.at_behind, Cursor.at_window,
    Cursor.at_here, Nat.sub_zero, hcount]
  rw [hplaces, List.foldl_map, List.foldl_ext _ _ _ hstep]

/-- What a plain scan keeps of `count` places from `start` on: nothing, or the first of the
longest. -/
theorem foldl_keepLonger_range' (lengthAt : Nat → Nat) (origin start count : Nat) :
    let best := (List.range' start count).foldl (keepLonger lengthAt origin) ⟨0, 0⟩
    (∀ i, start ≤ i → i < start + count → lengthAt i ≤ best.length) ∧
      (best.length = 0 ∨ ∃ j, start ≤ j ∧ j < start + count ∧ best = ⟨origin - j, lengthAt j⟩ ∧
        ∀ i, start ≤ i → i < j → lengthAt i < lengthAt j) := by
  induction count with
  | zero => exact ⟨by omega, .inl rfl⟩
  | succ count ih =>
    obtain ⟨hle, hfirst⟩ := ih
    rw [List.range'_concat, List.foldl_append, List.foldl_cons, List.foldl_nil, Nat.one_mul]
    generalize (List.range' start count).foldl (keepLonger lengthAt origin) ⟨0, 0⟩ = best at *
    intro kept
    by_cases hlt : best.length < lengthAt (start + count)
    · have hkept : kept = ⟨origin - (start + count), lengthAt (start + count)⟩ := if_pos hlt
      rw [hkept]
      refine ⟨fun i hlow hhigh => ?_, .inr ⟨start + count, by omega, by omega, rfl, ?_⟩⟩
      · by_cases hi : i < start + count
        · exact (hle i hlow hi).trans hlt.le
        · exact (show i = start + count by omega) ▸ le_rfl
      · exact fun i hlow hhigh => (hle i hlow hhigh).trans_lt hlt
    · have hkept : kept = best := if_neg hlt
      rw [hkept]
      refine ⟨fun i hlow hhigh => ?_, ?_⟩
      · by_cases hi : i < start + count
        · exact hle i hlow hi
        · exact (show i = start + count by omega) ▸ Nat.le_of_not_lt hlt
      · obtain hzero | ⟨j, hlow, hhigh, hbest, hbefore⟩ := hfirst
        · exact .inl hzero
        · exact .inr ⟨j, hlow, by omega, hbest, hbefore⟩

theorem scanMatch_longest (params : LzssParams) (data : Bytes) (position : Nat) :
    LongestMatch params data position (scanMatch params data position) := by
  obtain ⟨hle, hfirst⟩ := foldl_keepLonger_range' (agreement params data position) position
    (position - params.windowSize) (position - (position - params.windowSize))
  rw [scanMatch]
  generalize (List.range' (position - params.windowSize)
    (position - (position - params.windowSize))).foldl
    (keepLonger (agreement params data position) position) ⟨0, 0⟩ = best at *
  have hmin := params.minMatch_range
  split
  next hshort =>
    intro i ⟨hlow, hhigh⟩ hi
    have := hle i hlow (by omega)
    have := le_agreement_iff.mpr hi
    omega
  next hlong =>
    obtain hzero | ⟨j, hlow, hhigh, hbest, hbefore⟩ := hfirst
    · omega
    · subst hbest
      refine ⟨Nat.le_of_not_lt hlong, j, ⟨hlow, by omega⟩, rfl, le_agreement_iff.mp le_rfl, ?_, ?_⟩
      · intro i ⟨hfrom, hto⟩ hi
        have := hle i hfrom (by omega)
        exact absurd (le_agreement_iff.mpr hi) (by omega)
      · intro i ⟨hfrom, hto⟩ hij hi
        have := hbefore i hfrom hij
        exact absurd (le_agreement_iff.mpr hi) (by dsimp only; omega)

/-- The search that skips from candidate to candidate answers what a look at every candidate
answers. -/
theorem findMatch_scans_every_candidate (params : LzssParams) (data : Bytes) (position : Nat) :
    findMatch params (.at params.windowSize data position) = scanMatch params data position ∧
      LongestMatch params data position
        (findMatch params (.at params.windowSize data position)) := by
  have heq := findMatch_eq_scanMatch params data position
  exact ⟨heq, heq ▸ scanMatch_longest params data position⟩

end Compression
