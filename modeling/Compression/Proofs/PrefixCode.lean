import Compression.CodeTable
import Compression.Proofs.CodeLengths
import Mathlib.InformationTheory.Coding.KraftMcMillan

namespace Compression

/-- No symbol has a word that begins the word of another. -/
def PrefixFree (symbols : List Int) (word : Int → CodeWord) : Prop :=
  ∀ s ∈ symbols, ∀ s' ∈ symbols, s ≠ s' → ¬ word s <+: word s'

namespace PrefixFree

variable {symbols : List Int} {word : Int → CodeWord}

theorem eq_of_prefix (h : PrefixFree symbols word) {s s' : Int} (hs : s ∈ symbols)
    (hs' : s' ∈ symbols) (hp : word s <+: word s') : s = s' := by
  by_contra hne
  exact h s hs s' hs' hne hp

theorem ne_nil (h : PrefixFree symbols word) (hn : symbols.Nodup) (htwo : 2 ≤ symbols.length)
    {s : Int} (hs : s ∈ symbols) : word s ≠ [] := by
  intro hnil
  have hall : ∀ s' ∈ symbols, s' = s := fun s' hs' =>
    (h.eq_of_prefix hs hs' (hnil ▸ List.nil_prefix)).symm
  have hone := List.eq_replicate_iff.mpr ⟨rfl, hall⟩
  rw [hone] at hn
  have := List.nodup_replicate.mp hn
  omega

theorem uniquelyDecodable (h : PrefixFree symbols word) (hne : ∀ s ∈ symbols, word s ≠ []) :
    InformationTheory.UniquelyDecodable {w | w ∈ symbols.map word} := by
  intro xs
  induction xs with
  | nil =>
    intro ys _ hys heq
    cases ys with
    | nil => rfl
    | cons y ys =>
      obtain ⟨s, hs, rfl⟩ := List.mem_map.mp (hys y List.mem_cons_self)
      simp [hne s hs] at heq
  | cons x xs ih =>
    intro ys hxs hys heq
    obtain ⟨s, hs, rfl⟩ := List.mem_map.mp (hxs x List.mem_cons_self)
    cases ys with
    | nil => simp [hne s hs] at heq
    | cons y ys =>
      obtain ⟨s', hs', rfl⟩ := List.mem_map.mp (hys y List.mem_cons_self)
      rw [List.flatten_cons, List.flatten_cons] at heq
      have hsame : s = s' := by
        rcases List.prefix_or_prefix_of_prefix (List.prefix_append (word s) xs.flatten)
            (heq ▸ List.prefix_append (word s') ys.flatten) with hp | hp
        · exact h.eq_of_prefix hs hs' hp
        · exact (h.eq_of_prefix hs' hs hp).symm
      subst hsame
      have hrest := ih ys (fun w hw => hxs w (List.mem_cons_of_mem _ hw))
        (fun w hw => hys w (List.mem_cons_of_mem _ hw)) (List.append_cancel_left heq)
      rw [hrest]

theorem nodup_words (h : PrefixFree symbols word) (hn : symbols.Nodup) :
    (symbols.map word).Nodup :=
  hn.map_on fun _ hs _ hs' heq => h.eq_of_prefix hs hs' (heq ▸ List.prefix_refl _)

end PrefixFree

/-- The places that words take, as a share of all places. -/
theorem placesTaken_eq_kraft {depth : Nat} {words : List CodeWord}
    (h : ∀ w ∈ words, w.length ≤ depth) :
    (placesTaken depth (words.map List.length) : ℝ) =
      2 ^ depth * (words.map fun w => (1 / 2 : ℝ) ^ w.length).sum := by
  induction words with
  | nil => simp
  | cons w words ih =>
    have hw := h w List.mem_cons_self
    have htail := ih fun v hv => h v (List.mem_cons_of_mem w hv)
    have hplace : (2 : ℝ) ^ (depth - w.length) = 2 ^ depth * (1 / 2) ^ w.length := by
      rw [pow_sub₀ _ two_ne_zero hw, one_div, inv_pow]
    simp only [List.map_cons, placesTaken_cons, List.sum_cons]
    push_cast
    rw [htail, hplace, mul_add]

theorem PrefixFree.fits {symbols : List Int} {word : Int → CodeWord} (h : PrefixFree symbols word)
    (hn : symbols.Nodup) (htwo : 2 ≤ symbols.length) {depth : Nat}
    (hdepth : ∀ s ∈ symbols, (word s).length ≤ depth) :
    Fits depth (symbols.map fun s => (word s).length) where
  le_depth l hl := by
    obtain ⟨s, hs, rfl⟩ := List.mem_map.mp hl
    exact hdepth s hs
  room := by
    have hwords : ∀ w ∈ symbols.map word, w.length ≤ depth := by
      intro w hw
      obtain ⟨s, hs, rfl⟩ := List.mem_map.mp hw
      exact hdepth s hs
    have hkraft := InformationTheory.kraft_mcmillan_inequality
      (S := (symbols.map word).toFinset) (by
        simpa using h.uniquelyDecodable fun s hs => h.ne_nil hn htwo hs)
    rw [List.sum_toFinset _ (h.nodup_words hn), Fintype.card_bool] at hkraft
    have hplaces := placesTaken_eq_kraft hwords
    rw [List.map_map] at hplaces
    have hreal : (placesTaken depth (symbols.map fun s => (word s).length) : ℝ) ≤ 2 ^ depth := by
      calc (placesTaken depth (symbols.map fun s => (word s).length) : ℝ)
          = 2 ^ depth * ((symbols.map word).map fun w => (1 / 2 : ℝ) ^ w.length).sum := hplaces
        _ ≤ 2 ^ depth * 1 := mul_le_mul_of_nonneg_left hkraft (by positivity)
        _ = 2 ^ depth := mul_one _
    exact_mod_cast hreal

end Compression
