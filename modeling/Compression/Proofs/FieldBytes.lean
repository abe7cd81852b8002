import Compression.Bytes

namespace Compression

theorem littleEndianValue_lt (data : Bytes) :
    littleEndianValue data < 256 ^ data.length := by
  induction data with
  | nil => simp [littleEndianValue]
  | cons b data ih =>
    have := b.toNat_lt
    rw [littleEndianValue, List.length_cons, Nat.pow_succ]
    omega

theorem littleEndianValue_take_lt (size : Nat) (data : Bytes) :
    littleEndianValue (data.take size) < 256 ^ size :=
  Nat.lt_of_lt_of_le (littleEndianValue_lt _)
    (Nat.pow_le_pow_right (by omega) (List.length_take_le size data))

theorem field?_of_lt (size : Nat) {value : Int} (h0 : 0 ≤ value) (h : value < 256 ^ size) :
    field? size value = some (littleEndian size value.toNat) := by
  rw [field?, if_pos ⟨h0, h⟩]

theorem field?_natCast {size value : Nat} (h : value < 256 ^ size) :
    field? size value = some (littleEndian size value) := by
  have hpow : ((256 ^ size : Nat) : Int) = 256 ^ size := Int.natCast_pow 256 size
  have hlt : (value : Int) < 256 ^ size := hpow ▸ Int.ofNat_lt.mpr h
  rw [field?_of_lt size (Int.natCast_nonneg value) hlt, Int.toNat_natCast]

theorem littleEndianValue_take {size value : Nat} (h : value < 256 ^ size) (rest : Bytes) :
    littleEndianValue ((littleEndian size value ++ rest).take size) = value := by
  rw [List.take_left' (length_littleEndian size value), littleEndianValue_littleEndian h]

theorem drop_littleEndian (size value : Nat) (rest : Bytes) :
    (littleEndian size value ++ rest).drop size = rest :=
  List.drop_left' (length_littleEndian size value)

theorem mapM_eq_some_map {α β : Type} {f : α → Option β} {g : α → β} {xs : List α}
    (h : ∀ x ∈ xs, f x = some (g x)) : xs.mapM f = some (xs.map g) := by
  induction xs with
  | nil => rfl
  | cons x xs ih =>
    have hx := h x List.mem_cons_self
    have hxs := ih fun y hy => h y (List.mem_cons_of_mem x hy)
    rw [List.mapM_cons, hx, hxs]
    rfl

end Compression
