import Compression.LzssSearch
import Mathlib.Data.List.Range

namespace Compression

theorem commonLength_le_left (xs ys : Bytes) : commonLength xs ys ≤ xs.length := by
  fun_induction commonLength xs ys with
  | case1 x xs ys ih => simpa using ih
  | case2 => simp
  | case3 => simp

theorem commonLength_comm (xs ys : Bytes) : commonLength xs ys = commonLength ys xs := by
  fun_induction commonLength xs ys with
  | case1 x xs ys ih => simp [commonLength, ih]
  | case2 x xs y ys h => simp [commonLength, Ne.symm h]
  | case3 xs ys h =>
    cases xs with
    | nil => cases ys <;> rfl
    | cons x xs =>
      cases ys with
      | nil => rfl
      | cons y ys => exact absurd rfl (h x xs y ys rfl)

theorem commonLength_take (n : Nat) (xs ys : Bytes) :
    commonLength (xs.take n) ys = min n (commonLength xs ys) := by
  induction n generalizing xs ys with
  | zero => cases ys <;> simp [commonLength]
  | succ n ih =>
    cases xs with
    | nil => simp [commonLength]
    | cons x xs =>
      cases ys with
      | nil => simp [commonLength]
      | cons y ys =>
        rw [List.take_succ_cons, commonLength, commonLength]
        split
        next => rw [ih]; omega
        next => omega

/-- A run begins with the first bytes of another exactly if the two agree so far. -/
theorem take_isPrefixOf_iff {n : Nat} {xs : Bytes} (h : n ≤ xs.length) (ys : Bytes) :
    (xs.take n).isPrefixOf ys = true ↔ n ≤ commonLength xs ys := by
  induction n generalizing xs ys with
  | zero => simp
  | succ n ih =>
    cases xs with
    | nil => simp at h
    | cons x xs =>
      cases ys with
      | nil => simp [commonLength]
      | cons y ys =>
        have hle : n ≤ xs.length := by simpa using h
        rw [List.take_succ_cons, List.isPrefixOf_cons_cons, Bool.and_eq_true, beq_iff_eq, ih hle,
          commonLength]
        split
        next heq => simp [heq]
        next hne => simp [hne]

theorem commonLength_add_drop {n : Nat} {xs ys : Bytes} (h : n ≤ commonLength xs ys) :
    n + commonLength (xs.drop n) (ys.drop n) = commonLength xs ys := by
  induction n generalizing xs ys with
  | zero => simp
  | succ n ih =>
    cases xs with
    | nil => simp [commonLength] at h
    | cons x xs =>
      cases ys with
      | nil => simp [commonLength] at h
      | cons y ys =>
        rw [commonLength] at h ⊢
        split at h
        next heq =>
          have hrest := ih (show n ≤ commonLength xs ys by omega)
          rw [if_pos heq, List.drop_succ_cons, List.drop_succ_cons]
          omega
        next => omega

theorem le_commonLength_iff {n : Nat} {xs : Bytes} (h : n ≤ xs.length) (ys : Bytes) :
    n ≤ commonLength xs ys ↔ ∀ k < n, xs[k]? = ys[k]? := by
  have hlength := List.length_take_of_le h
  rw [← take_isPrefixOf_iff h, List.isPrefixOf_iff_prefix, List.prefix_iff_getElem?]
  constructor
  · intro hread k hk
    rw [hread k (by omega), List.getElem_take, List.getElem?_eq_getElem (by omega)]
  · intro hsame k hk
    rw [← hsame k (by omega), List.getElem_take, List.getElem?_eq_getElem (by omega)]

theorem findFrom_eq_none {needle rest : Bytes} {count place : Nat}
    (h : findFrom needle count place rest = none) {k : Nat} (hk : k < count) :
    needle.isPrefixOf (rest.drop k) = false := by
  induction count generalizing place rest k with
  | zero => omega
  | succ count ih =>
    rw [findFrom] at h
    split at h
    next => cases h
    next hn =>
      cases k with
      | zero => exact eq_false_of_ne_true hn
      | succ k =>
        rw [← List.drop_tail]
        exact ih h (by omega)

theorem findFrom_eq_some {needle rest : Bytes} {count place found : Nat}
    (h : findFrom needle count place rest = some found) :
    ∃ k < count, found = place + k ∧ needle.isPrefixOf (rest.drop k) = true ∧
      ∀ j < k, needle.isPrefixOf (rest.drop j) = false := by
  induction count generalizing place rest with
  | zero => cases h
  | succ count ih =>
    rw [findFrom] at h
    split at h
    next hn => exact ⟨0, by omega, by simpa using h.symm, hn, by omega⟩
    next hn =>
      obtain ⟨k, hk, hfound, hpre, hbefore⟩ := ih h
      refine ⟨k + 1, by omega, by omega, by rwa [← List.drop_tail], ?_⟩
      intro j hj
      cases j with
      | zero => exact eq_false_of_ne_true hn
      | succ j =>
        rw [← List.drop_tail]
        exact hbefore j (by omega)

theorem findBytes_eq_none {needle data : Bytes} {start stop : Nat}
    (h : findBytes needle data start stop = none) {place : Nat} (hlow : start ≤ place)
    (hhigh : place + needle.length ≤ stop) : needle.isPrefixOf (data.drop place) = false := by
  have hskip := findFrom_eq_none h
    (show place - start < stop + 1 - (start + needle.length) by omega)
  rwa [List.drop_drop, show start + (place - start) = place by omega] at hskip

theorem findBytes_eq_some {needle data : Bytes} {start stop found : Nat}
    (h : findBytes needle data start stop = some found) :
    start ≤ found ∧ found + needle.length ≤ stop ∧
      needle.isPrefixOf (data.drop found) = true ∧
      ∀ place, start ≤ place → place < found → needle.isPrefixOf (data.drop place) = false := by
  obtain ⟨k, hk, rfl, hpre, hbefore⟩ := findFrom_eq_some h
  refine ⟨by omega, by omega, by rwa [List.drop_drop] at hpre, ?_⟩
  intro place hlow hhigh
  have hskip := hbefore (place - start) (by omega)
  rwa [List.drop_drop, show start + (place - start) = place by omega] at hskip

/-- One candidate of a plain scan: it replaces the best so far if it is strictly longer. -/
def keepLonger (lengthAt : Nat → Nat) (origin : Nat) (best : Match) (place : Nat) : Match :=
  if best.length < lengthAt place then ⟨origin - place, lengthAt place⟩ else best

theorem foldl_keepLonger_of_le {lengthAt : Nat → Nat} {origin : Nat} {best : Match}
    {places : List Nat} (h : ∀ place ∈ places, lengthAt place ≤ best.length) :
    places.foldl (keepLonger lengthAt origin) best = best := by
  induction places with
  | nil => rfl
  | cons place places ih =>
    have hplace := h place List.mem_cons_self
    have hkeep : keepLonger lengthAt origin best place = best := if_neg (by omega)
    rw [List.foldl_cons, hkeep]
    exact ih fun q hq => h q (List.mem_cons_of_mem _ hq)

theorem range'_split {start stop place : Nat} (hlow : start ≤ place) (hhigh : place < stop) :
    List.range' start (stop - start) =
      List.range' start (place - start) ++
        place :: List.range' (place + 1) (stop - (place + 1)) := by
  have hcut := List.range'_append_1 (s := start) (m := place - start) (n := stop - place)
  rw [show start + (place - start) = place by omega,
    show place - start + (stop - place) = stop - start by omega] at hcut
  rw [← hcut, ← List.range'_succ, show stop - place = stop - (place + 1) + 1 by omega]

/-- Skipping to the next place that beats the best so far loses no candidate of a plain scan. -/
theorem improveMatch_eq_foldl (target : Bytes) (c : Cursor) (start : Nat) (best : Match) :
    improveMatch target c start best =
      (List.range' start (c.behind - start)).foldl
        (keepLonger (fun place => commonLength target (c.window.drop place)) c.behind) best := by
  -- A hit is longer than the best so far, which leaves less of the target.
  induction hn : target.length - best.length using Nat.strong_induction_on
    generalizing start best with
  | _ n ih =>
    rw [improveMatch]
    split
    next hlt =>
      have hsize : best.length + 1 ≤ target.length := by omega
      have hneedle : (target.take (best.length + 1)).length = best.length + 1 :=
        List.length_take_of_le hsize
      -- A place at which the needle cannot be read does not beat the best so far.
      have hmiss : ∀ place,
          (target.take (best.length + 1)).isPrefixOf (c.window.drop place) = false →
          commonLength target (c.window.drop place) ≤ best.length := by
        intro place hplace
        have hno := (take_isPrefixOf_iff hsize (c.window.drop place)).not.mp (by simp [hplace])
        omega
      dsimp only
      split
      next hnone =>
        refine (foldl_keepLonger_of_le fun place hplace => hmiss place ?_).symm
        obtain ⟨hlow, hhigh⟩ := List.mem_range'_1.mp hplace
        exact findBytes_eq_none hnone hlow (by omega)
      next found hsome =>
        obtain ⟨hlow, hstop, hpre, hbefore⟩ := findBytes_eq_some hsome
        have hhigh : found < c.behind := by omega
        rw [take_isPrefixOf_iff hsize] at hpre
        have hlength := commonLength_add_drop hpre
        rw [List.drop_drop] at hlength
        have hskip : ∀ place ∈ List.range' start (found - start),
            commonLength target (c.window.drop place) ≤ best.length := by
          intro place hplace
          obtain ⟨hfrom, hto⟩ := List.mem_range'_1.mp hplace
          exact hmiss place (hbefore place hfrom (by omega))
        rw [hlength, range'_split hlow hhigh, List.foldl_append, foldl_keepLonger_of_le hskip,
          List.foldl_cons, keepLonger, if_pos (by omega)]
        exact ih _ (by dsimp only; omega) _ _ rfl
    next hge =>
      refine (foldl_keepLonger_of_le fun place _ => ?_).symm
      have hle := commonLength_le_left target (c.window.drop place)
      omega

end Compression
