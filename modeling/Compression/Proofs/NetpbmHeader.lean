import Compression.Proofs.HeaderNumbers

namespace Compression

theorem toNat_ofNat_of_isDigit {c : Char} (h : c.isDigit = true) :
    0x30 ≤ c.toNat ∧ (UInt8.ofNat c.toNat).toNat = c.toNat ∧ c.toNat ≤ 0x39 := by
  have hrange : 0x30 ≤ c.toNat ∧ c.toNat ≤ 0x39 := by
    simpa [Char.isDigit, UInt32.le_iff_toNat_le] using h
  refine ⟨hrange.1, ?_, hrange.2⟩
  rw [UInt8.toNat_ofNat']
  exact Nat.mod_eq_of_lt (by omega)

theorem isDigit_of_mem_digits {n : Nat} {c : Char} (h : c ∈ Nat.toDigits 10 n) :
    c.isDigit = true :=
  Nat.isDigit_of_mem_toDigits (by omega) (Nat.le_refl 10) h

theorem all_isDigitByte_digitBytes (n : Nat) : (digitBytes n).all isDigitByte = true := by
  rw [List.all_eq_true]
  intro b hb
  obtain ⟨c, hc, rfl⟩ := List.mem_map.mp hb
  obtain ⟨hlow, hbyte, hhigh⟩ := toNat_ofNat_of_isDigit (isDigit_of_mem_digits hc)
  rw [isDigitByte_iff, hbyte]
  exact ⟨hlow, hhigh⟩

theorem digitsValue_digitBytes (n : Nat) : digitsValue (digitBytes n) = n := by
  have hfold : ∀ (cs : List Char) (value : Nat), (∀ c ∈ cs, c.isDigit = true) →
      (asciiBytes cs).foldl (fun n b => 10 * n + (b.toNat - 0x30)) value =
        Nat.ofDigitChars 10 cs value := by
    intro cs
    induction cs with
    | nil => intro value _; rfl
    | cons c cs ih =>
      intro value hdigits
      obtain ⟨_, hbyte, _⟩ := toNat_ofNat_of_isDigit (hdigits c List.mem_cons_self)
      have hrest := ih (10 * value + (c.toNat - 0x30)) fun d hd =>
        hdigits d (List.mem_cons_of_mem c hd)
      rw [Nat.ofDigitChars_cons, asciiBytes, List.map_cons, List.foldl_cons, hbyte]
      exact hrest
  exact (hfold _ 0 fun c hc => isDigit_of_mem_digits hc).trans Nat.ofDigitChars_ten_toDigits

theorem digitBytes_ne_nil (n : Nat) : digitBytes n ≠ [] := by
  intro h
  exact Nat.toDigits_ne_nil (List.map_eq_nil_iff.mp h)

theorem length_digitBytes_le {n size : Nat} (hsize : 0 < size) (h : n < 10 ^ size) :
    (digitBytes n).length ≤ size := by
  rw [digitBytes, asciiBytes, List.length_map]
  exact (Nat.length_toDigits_le_iff (by omega) hsize).mpr h

theorem isCommentByte_of_isBlankByte {b : UInt8} (h : isBlankByte b = true) :
    isCommentByte b = false := by
  refine decide_eq_false fun hb => ?_
  subst hb
  cases h

theorem readSamples_append {width height channels : Nat} {b : UInt8} (hb : isBlankByte b = true)
    {samples : Bytes} (h : samples.length = width * height * channels) (rest : Bytes) :
    readSamples width height channels (b :: (samples ++ rest)) =
      .ok ⟨width, height, channels, samples, h⟩ := by
  have hroom : ¬ (samples ++ rest).length < width * height * channels := by
    rw [List.length_append]
    omega
  simp only [readSamples, hb, dif_neg hroom, List.take_left' h]
  rfl

end Compression
