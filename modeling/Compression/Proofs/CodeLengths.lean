import Compression.Bytes
import Mathlib.Algebra.Order.BigOperators.Group.List
import Mathlib.Data.List.Perm.Basic
import Mathlib.Tactic.Linarith
import Mathlib.Tactic.Ring

namespace Compression

/-- How many places of the depth `depth` code words of the given lengths take in a binary tree. -/
def placesTaken (depth : Nat) (lengths : List Nat) : Nat :=
  (lengths.map fun l => 2 ^ (depth - l)).sum

/-- A binary tree of the depth `depth` has room for code words of the given lengths. -/
structure Fits (depth : Nat) (lengths : List Nat) : Prop where
  le_depth : ∀ l ∈ lengths, l ≤ depth
  room : placesTaken depth lengths ≤ 2 ^ depth

/-- The lengths of all code words, each as often as its weight says. -/
def weightedSum (code : List (Int × Nat)) : Int :=
  (code.map fun p => p.1 * (p.2 : Int)).sum

/-- The weights can be given code words for which there is room, of no more than `bound` in all. -/
def CodedWithin (bound : Int) (weights : List Int) : Prop :=
  ∃ depth code, Fits depth (code.map Prod.snd) ∧ (code.map Prod.fst).Perm weights ∧
    weightedSum code ≤ bound

@[simp] theorem placesTaken_nil (depth : Nat) : placesTaken depth [] = 0 := rfl

@[simp] theorem placesTaken_cons (depth l : Nat) (lengths : List Nat) :
    placesTaken depth (l :: lengths) = 2 ^ (depth - l) + placesTaken depth lengths := by
  simp [placesTaken]

@[simp] theorem weightedSum_cons (p : Int × Nat) (code : List (Int × Nat)) :
    weightedSum (p :: code) = p.1 * p.2 + weightedSum code := by
  simp [weightedSum]

theorem weightedSum_perm {code code' : List (Int × Nat)} (h : code.Perm code') :
    weightedSum code = weightedSum code' :=
  (h.map _).sum_eq

theorem CodedWithin.perm {bound : Int} {weights weights' : List Int} (h : CodedWithin bound weights)
    (hp : weights.Perm weights') : CodedWithin bound weights' := by
  obtain ⟨depth, code, hfits, hperm, hsum⟩ := h
  exact ⟨depth, code, hfits, hperm.trans hp, hsum⟩

theorem CodedWithin.nonneg {bound : Int} {weights : List Int} (h : CodedWithin bound weights)
    (hpos : ∀ w ∈ weights, 0 ≤ w) : 0 ≤ bound := by
  obtain ⟨depth, code, _, hperm, hsum⟩ := h
  refine le_trans (List.sum_nonneg fun n hn => ?_) hsum
  obtain ⟨p, hp, rfl⟩ := List.mem_map.mp hn
  exact mul_nonneg (hpos _ (hperm.mem_iff.mp (List.mem_map_of_mem hp))) (Int.natCast_nonneg _)

theorem Fits.perm {depth : Nat} {lengths lengths' : List Nat} (h : Fits depth lengths)
    (hp : lengths.Perm lengths') : Fits depth lengths' where
  le_depth l hl := h.le_depth l (hp.mem_iff.mpr hl)
  room := by
    have hsame : placesTaken depth lengths' = placesTaken depth lengths := (hp.symm.map _).sum_eq
    exact hsame ▸ h.room

theorem Fits.length_le_one {lengths : List Nat} (h : Fits 0 lengths) : lengths.length ≤ 1 := by
  simpa [placesTaken] using h.room

/-- In a tree of one level less every word takes half as many places; one of the longest, cut by
one bit, takes half a place more. -/
theorem placesTaken_shorten {depth : Nat} {lengths : List Nat} (h : ∀ l ∈ lengths, l ≤ depth + 1) :
    2 * placesTaken depth (lengths.map (min depth)) =
      placesTaken (depth + 1) lengths + lengths.count (depth + 1) := by
  induction lengths with
  | nil => simp
  | cons l lengths ih =>
    have hl := h l List.mem_cons_self
    have htail := ih fun l' hl' => h l' (List.mem_cons_of_mem l hl')
    rw [List.map_cons, placesTaken_cons, placesTaken_cons, List.count_cons]
    by_cases hlast : l = depth + 1
    · have hcut : min depth l = depth := by omega
      rw [hcut, hlast, Nat.sub_self, Nat.sub_self, if_pos (by simp)]
      omega
    · have hkeep : min depth l = l := by omega
      have hhalf : 2 ^ (depth + 1 - l) = 2 * 2 ^ (depth - l) := by
        rw [← Nat.pow_succ', ← Nat.succ_sub (by omega)]
      rw [hkeep, hhalf, if_neg (by simpa using hlast)]
      omega

/-- A lone longest word can be cut by one bit, since the places taken by the others are even. -/
theorem Fits.shorten {depth : Nat} {lengths : List Nat} (h : Fits (depth + 1) lengths)
    (hlone : lengths.count (depth + 1) ≤ 1) : Fits depth (lengths.map (min depth)) where
  le_depth l hl := by
    obtain ⟨l', _, rfl⟩ := List.mem_map.mp hl
    exact Nat.min_le_left depth l'
  room := by
    have hroom := h.room
    have hplaces := placesTaken_shorten h.le_depth
    rw [Nat.pow_succ] at hroom
    omega

/-- Two of the longest words take no more than the place above them. -/
theorem Fits.join {depth : Nat} {lengths : List Nat}
    (h : Fits (depth + 1) ((depth + 1) :: (depth + 1) :: lengths)) :
    Fits (depth + 1) (depth :: lengths) where
  le_depth l hl := by
    rcases List.mem_cons.mp hl with rfl | hl
    · omega
    · exact h.le_depth l (by simp [hl])
  room := by
    have hroom := h.room
    simp only [placesTaken_cons, Nat.sub_self, Nat.pow_zero] at hroom
    simp only [placesTaken_cons, Nat.add_sub_cancel_left, Nat.pow_one]
    omega

theorem weightedSum_shorten_le {depth : Nat} {code : List (Int × Nat)}
    (h : ∀ p ∈ code, 0 ≤ p.1) :
    weightedSum (code.map fun p => (p.1, min depth p.2)) ≤ weightedSum code := by
  induction code with
  | nil => simp
  | cons p code ih =>
    have hp := h p List.mem_cons_self
    have htail := ih fun q hq => h q (List.mem_cons_of_mem p hq)
    have hle : p.1 * ((min depth p.2 : Nat) : Int) ≤ p.1 * p.2 :=
      mul_le_mul_of_nonneg_left (by omega) hp
    rw [List.map_cons, weightedSum_cons, weightedSum_cons]
    exact add_le_add hle htail

theorem exists_perm_cons_of_fst {code : List (Int × Nat)} {x : Int} {weights : List Int}
    (h : (code.map Prod.fst).Perm (x :: weights)) :
    ∃ l rest, code.Perm ((x, l) :: rest) ∧ (rest.map Prod.fst).Perm weights := by
  have hx : x ∈ code.map Prod.fst := h.mem_iff.mpr List.mem_cons_self
  obtain ⟨⟨x, l⟩, hp, rfl⟩ := List.mem_map.mp hx
  have hcode := List.perm_cons_erase hp
  exact ⟨l, code.erase (x, l), hcode, ((hcode.map Prod.fst).symm.trans h).cons_inv⟩

/-- The lightest weight can take over the longest word and leave its own to the weight that had
it. -/
theorem exists_longest_first {x : Int} {l longest : Nat} {rest : List (Int × Nat)}
    (hx : ∀ p ∈ rest, x ≤ p.1) (hl : l ≤ longest) (hm : longest ∈ l :: rest.map Prod.snd) :
    ∃ rest', (rest'.map Prod.fst).Perm (rest.map Prod.fst) ∧
      (longest :: rest'.map Prod.snd).Perm (l :: rest.map Prod.snd) ∧
      weightedSum ((x, longest) :: rest') ≤ weightedSum ((x, l) :: rest) := by
  rcases List.mem_cons.mp hm with rfl | hm
  · exact ⟨rest, List.Perm.refl _, List.Perm.refl _, le_refl _⟩
  · obtain ⟨⟨w, longest⟩, hp, rfl⟩ := List.mem_map.mp hm
    have hrest := List.perm_cons_erase hp
    refine ⟨(w, l) :: rest.erase (w, longest), (hrest.map Prod.fst).symm, ?_, ?_⟩
    · exact (List.Perm.swap _ _ _).trans ((hrest.map Prod.snd).symm.cons l)
    · have hgain : 0 ≤ (w - x) * ((longest : Int) - l) :=
        mul_nonneg (by have := hx (w, longest) hp; omega) (by simp only at hl; omega)
      simp only [weightedSum_cons, weightedSum_perm hrest]
      linarith

/-- If two words are longest, the two lightest weights can have them. -/
theorem exists_longest_for_lightest {x y : Int} {weights : List Int} {longest : Nat}
    {code : List (Int × Nat)} (hperm : (code.map Prod.fst).Perm (x :: y :: weights)) (hxy : x ≤ y)
    (hy : ∀ w ∈ weights, y ≤ w) (hle : ∀ l ∈ code.map Prod.snd, l ≤ longest)
    (htwo : 2 ≤ (code.map Prod.snd).count longest) :
    ∃ rest, (rest.map Prod.fst).Perm weights ∧
      (longest :: longest :: rest.map Prod.snd).Perm (code.map Prod.snd) ∧
      weightedSum ((x, longest) :: (y, longest) :: rest) ≤ weightedSum code := by
  obtain ⟨lx, code₁, hcode, hweights₁⟩ := exists_perm_cons_of_fst hperm
  have hlengths := hcode.map Prod.snd
  have hx : ∀ p ∈ code₁, x ≤ p.1 := by
    intro p hp
    have hmem := hweights₁.mem_iff.mp (List.mem_map_of_mem hp)
    rcases List.mem_cons.mp hmem with heq | hmem
    · omega
    · exact hxy.trans (hy _ hmem)
  have hlx : lx ≤ longest := hle lx (hlengths.mem_iff.mpr List.mem_cons_self)
  have hlongest : longest ∈ lx :: code₁.map Prod.snd :=
    hlengths.mem_iff.mp (List.count_pos_iff.mp (by omega))
  obtain ⟨code₂, hfst₂, hsnd₂, hsum₂⟩ := exists_longest_first hx hlx hlongest
  obtain ⟨ly, code₃, hcode₃, hweights₃⟩ := exists_perm_cons_of_fst (hfst₂.trans hweights₁)
  have hlengths₃ := hcode₃.map Prod.snd
  have hall := (hlengths₃.symm.cons longest).trans (hsnd₂.trans hlengths.symm)
  have hy₃ : ∀ p ∈ code₃, y ≤ p.1 := fun p hp =>
    hy _ (hweights₃.mem_iff.mp (List.mem_map_of_mem hp))
  have hly : ly ≤ longest := hle ly (hall.mem_iff.mp (by simp))
  have hagain : longest ∈ ly :: code₃.map Prod.snd := by
    have hcount := hall.count_eq longest
    rw [List.count_cons_self] at hcount
    exact List.count_pos_iff.mp
      (show 0 < (((y, ly) :: code₃).map Prod.snd).count longest by omega)
  obtain ⟨rest, hfst, hsnd, hsum⟩ := exists_longest_first hy₃ hly hagain
  refine ⟨rest, hfst.trans hweights₃, (hsnd.cons longest).trans hall, ?_⟩
  rw [weightedSum_perm hcode]
  rw [weightedSum_cons, weightedSum_perm hcode₃] at hsum₂
  rw [weightedSum_cons]
  linarith

/-- The two lightest of the weights can be merged, and the code of the merged weights saves their
sum. -/
theorem CodedWithin.merge {bound x y : Int} {weights : List Int}
    (h : CodedWithin bound (x :: y :: weights)) (h0 : 0 ≤ x) (hxy : x ≤ y)
    (hy : ∀ w ∈ weights, y ≤ w) : CodedWithin (bound - (x + y)) ((x + y) :: weights) := by
  obtain ⟨depth, code, hfits, hperm, hbound⟩ := h
  -- The induction is on the depth: a lone longest word is cut until there are two of them.
  induction depth generalizing code with
  | zero =>
    have hone := hfits.length_le_one
    have htwo := hperm.length_eq
    simp only [List.length_map, List.length_cons] at hone htwo
    omega
  | succ depth ih =>
    by_cases hlone : (code.map Prod.snd).count (depth + 1) ≤ 1
    · have hpos : ∀ p ∈ code, 0 ≤ p.1 := by
        intro p hp
        have hmem := hperm.mem_iff.mp (List.mem_map_of_mem hp)
        simp only [List.mem_cons] at hmem
        rcases hmem with heq | heq | hmem
        · omega
        · omega
        · have := hy _ hmem
          omega
      refine ih (code.map fun p => (p.1, min depth p.2)) ?_ ?_ ?_
      · simpa [Function.comp_def] using hfits.shorten hlone
      · simpa [Function.comp_def] using hperm
      · exact (weightedSum_shorten_le hpos).trans hbound
    · obtain ⟨rest, hweights, hlengths, hsum⟩ :=
        exists_longest_for_lightest hperm hxy hy hfits.le_depth (by omega)
      refine ⟨depth + 1, (x + y, depth) :: rest, (hfits.perm hlengths.symm).join,
        hweights.cons _, ?_⟩
      simp only [weightedSum_cons, Nat.cast_add, Nat.cast_one] at hsum ⊢
      linarith

end Compression
