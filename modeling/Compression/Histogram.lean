import Compression.Bytes

namespace Compression

/-- Symbols and how often each occurs. -/
abbrev Histogram := List (Int × Int)

def Histogram.symbols (freqs : Histogram) : List Int :=
  freqs.map Prod.fst

/-- The same entries in ascending order of the symbols. -/
def Histogram.sorted (freqs : Histogram) : Histogram :=
  freqs.mergeSort fun a b => a.1 ≤ b.1

/-- How often each byte value that occurs does so, in ascending order. -/
def byteHistogram (data : Bytes) : Histogram :=
  (List.range 256).filterMap fun v =>
    let n := data.count (UInt8.ofNat v)
    if n = 0 then none else some (v, n)

theorem Histogram.sorted_perm (freqs : Histogram) : freqs.sorted.Perm freqs :=
  List.mergeSort_perm _ _

theorem Histogram.pairwise_sorted (freqs : Histogram) :
    freqs.sorted.Pairwise fun a b => a.1 ≤ b.1 := by
  have trans : ∀ a b c : Int × Int, decide (a.1 ≤ b.1) = true → decide (b.1 ≤ c.1) = true →
      decide (a.1 ≤ c.1) = true := by
    intro a b c hab hbc
    simp only [decide_eq_true_eq] at *
    omega
  have total : ∀ a b : Int × Int, (decide (a.1 ≤ b.1) || decide (b.1 ≤ a.1)) = true := by
    intro a b
    simp only [Bool.or_eq_true, decide_eq_true_eq]
    omega
  exact (List.pairwise_mergeSort trans total freqs).imp of_decide_eq_true

theorem Histogram.sorted_sorted (freqs : Histogram) : freqs.sorted.sorted = freqs.sorted := by
  apply List.mergeSort_of_pairwise
  simpa using freqs.pairwise_sorted

theorem Histogram.pairwise_lt_sorted {freqs : Histogram} (hn : freqs.symbols.Nodup) :
    freqs.sorted.Pairwise fun a b => a.1 < b.1 := by
  have hsymbols : freqs.sorted.symbols.Nodup :=
    (freqs.sorted_perm.map Prod.fst).nodup_iff.mpr hn
  have hne := List.pairwise_map.mp hsymbols
  exact (freqs.pairwise_sorted.and hne).imp fun h => by omega

/-- Entries in ascending order are the sorted entries, in whatever order these were given. -/
theorem Histogram.eq_sorted_of_pairwise_lt {entries freqs : Histogram}
    (h : entries.Pairwise fun a b => a.1 < b.1) (hp : entries.Perm freqs) :
    entries = freqs.sorted := by
  have hsymbols : entries.symbols.Nodup :=
    List.pairwise_map.mpr (h.imp fun hlt => by omega)
  have hn : freqs.symbols.Nodup := (hp.map Prod.fst).nodup_iff.mp hsymbols
  have hperm := hp.trans freqs.sorted_perm.symm
  refine hperm.eq_of_pairwise ?_ h (pairwise_lt_sorted hn)
  intro a b _ _ hab hba
  omega

theorem Histogram.sorted_eq_of_perm {freqs freqs' : Histogram} (hn : freqs.symbols.Nodup)
    (hp : freqs'.Perm freqs) : freqs'.sorted = freqs.sorted := by
  have hn' : freqs'.symbols.Nodup := (hp.map Prod.fst).nodup_iff.mpr hn
  exact eq_sorted_of_pairwise_lt (pairwise_lt_sorted hn') (freqs'.sorted_perm.trans hp)

end Compression
