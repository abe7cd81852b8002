import Compression.Proofs.BlockFile
import Mathlib.Order.Bounds.Basic
import Mathlib.Tactic.Ring

namespace Compression

/-- The place of an entry along four axes, the last one running fastest. The lengths of all axes
but the first are given. -/
def rowMajor (b c d : Nat) (i j k l : Nat) : Nat :=
  ((i * b + j) * c + k) * d + l

/-- All values, block by block. -/
def BlockGrid.entries {α : Type} (g : BlockGrid α) : List α :=
  g.blocks.toList.flatMap Block.toList

/-- The entries of a plane, taken along rows of blocks, rows, columns of blocks and columns, are the
entries of a grid with the two middle axes exchanged. -/
def MiddleAxesSwapped {α : Type} (p : Plane α) (g : BlockGrid α) : Prop :=
  p.height = 8 * g.rows ∧ p.width = 8 * g.columns ∧
    ∀ row < g.rows, ∀ column < g.columns, ∀ y < 8, ∀ x < 8,
      g.entries[rowMajor g.columns 8 8 row column y x]? =
        p.entries[rowMajor 8 g.columns 8 row y column x]?

def BlockGrid.toPlane {α : Type} (g : BlockGrid α) : Plane (Block α) where
  height := g.rows
  width := g.columns
  entries := g.blocks
  size_eq := g.size_eq

section

variable {α : Type}

theorem Plane.get?_eq_getElem? {p : Plane α} {y x : Nat} (hy : y < p.height) (hx : x < p.width) :
    p.get? y x = p.entries[y * p.width + x]? := by
  rw [get?, if_pos ⟨hy, hx⟩]

theorem Plane.exists_get? {p : Plane α} {y x : Nat} (hy : y < p.height) (hx : x < p.width) :
    ∃ v, p.get? y x = some v := by
  have hi : y * p.width + x < p.entries.size := p.size_eq ▸ index_lt hy hx
  exact ⟨_, (get?_eq_getElem? hy hx).trans (Array.getElem?_eq_getElem hi)⟩

theorem Plane.lt_of_get? {p : Plane α} {y x : Nat} {v : α} (h : p.get? y x = some v) :
    y < p.height ∧ x < p.width := by
  unfold get? at h
  split at h
  next hin => exact hin
  next => cases h

theorem Plane.getD_of_get? {p : Plane α} {y x : Nat} {v : α} (h : p.get? y x = some v)
    (outside : α) : p.getD y x outside = v := by
  rw [getD, h, Option.getD_some]

theorem Plane.get?_map {β : Type} (f : α → β) (p : Plane α) (y x : Nat) :
    (p.map f).get? y x = (p.get? y x).map f := by
  by_cases h : y < p.height ∧ x < p.width
  · have hmap : (p.map f).get? y x = (p.entries.map f)[y * p.width + x]? := if_pos h
    rw [hmap, get?, if_pos h, Array.getElem?_map]
  · have hmap : (p.map f).get? y x = none := if_neg h
    rw [hmap, get?, if_neg h, Option.map_none]

theorem Plane.ext_get? {p q : Plane α} (hheight : p.height = q.height) (hwidth : p.width = q.width)
    (h : ∀ y < p.height, ∀ x < p.width, p.get? y x = q.get? y x) : p = q := by
  obtain ⟨height, width, entries, hsize⟩ := p
  obtain ⟨height', width', entries', hsize'⟩ := q
  obtain rfl : height = height' := hheight
  obtain rfl : width = width' := hwidth
  congr 1
  refine Array.ext_getElem? fun i => ?_
  -- Each entry has a row and a column.
  by_cases hi : i < height * width
  · have hx : i % width < width := Nat.mod_lt _ (Nat.pos_of_lt_mul_left hi)
    have hy : i / width < height := Nat.div_lt_of_lt_mul (by rwa [Nat.mul_comm])
    have hplace : i / width * width + i % width = i := Nat.div_add_mod' i width
    have hvalue := h (i / width) hy (i % width) hx
    rw [get?_eq_getElem? hy hx, get?_eq_getElem? hy hx] at hvalue
    simpa only [hplace] using hvalue
  · rw [Array.getElem?_eq_none (by omega), Array.getElem?_eq_none (by omega)]

theorem BlockGrid.get?_ofFn {rows columns row column : Nat} (f : Nat → Nat → Block α)
    (hrow : row < rows) (hcolumn : column < columns) :
    (BlockGrid.ofFn rows columns f).get? row column = some (f row column) :=
  Plane.get?_ofFn f hrow hcolumn

theorem BlockGrid.get?_map {β : Type} (f : Block α → Block β) (g : BlockGrid α)
    (row column : Nat) : (g.map f).get? row column = (g.get? row column).map f :=
  g.toPlane.get?_map f row column

theorem BlockGrid.exists_get? {g : BlockGrid α} {row column : Nat} (hrow : row < g.rows)
    (hcolumn : column < g.columns) : ∃ block, g.get? row column = some block :=
  g.toPlane.exists_get? hrow hcolumn

theorem BlockGrid.getElem?_blocks {g : BlockGrid α} {row column : Nat} {block : Block α}
    (h : g.get? row column = some block) :
    g.blocks.toList[row * g.columns + column]? = some block := by
  obtain ⟨hrow, hcolumn⟩ := Plane.lt_of_get? (p := g.toPlane) h
  rw [Array.getElem?_toList, ← h]
  exact (Plane.get?_eq_getElem? (p := g.toPlane) hrow hcolumn).symm

theorem BlockGrid.ext_get? {g g' : BlockGrid α} (hrows : g.rows = g'.rows)
    (hcolumns : g.columns = g'.columns)
    (h : ∀ row < g.rows, ∀ column < g.columns, g.get? row column = g'.get? row column) :
    g = g' := by
  have hplane : g.toPlane = g'.toPlane := Plane.ext_get? hrows hcolumns h
  obtain ⟨rows, columns, blocks, _⟩ := g
  obtain ⟨rows', columns', blocks', _⟩ := g'
  obtain ⟨rfl, rfl, rfl⟩ := Plane.mk.inj hplane
  rfl

theorem isLeast_roundUp (n : Nat) : IsLeast {m | 8 ∣ m ∧ n ≤ m} (8 * ((n + 7) / 8)) := by
  refine ⟨⟨Nat.dvd_mul_right _ _, by omega⟩, fun m hm => ?_⟩
  obtain ⟨⟨k, rfl⟩, hle⟩ := hm
  omega

section

variable (zero : α) (p : Plane α)

theorem Plane.height_padToBlocks : (p.padToBlocks zero).height = 8 * ((p.height + 7) / 8) := by
  rw [← toNat_blocksAcross]
  rfl

theorem Plane.width_padToBlocks : (p.padToBlocks zero).width = 8 * ((p.width + 7) / 8) := by
  rw [← toNat_blocksAcross]
  rfl

theorem Plane.columns_splitBlocks_padToBlocks :
    ((p.padToBlocks zero).splitBlocks zero).columns = (p.width + 7) / 8 := by
  change (p.padToBlocks zero).width / 8 = (p.width + 7) / 8
  rw [width_padToBlocks]
  omega

variable {p}

theorem Plane.get?_padToBlocks {y x : Nat} (hy : y < (p.padToBlocks zero).height)
    (hx : x < (p.padToBlocks zero).width) :
    (p.padToBlocks zero).get? y x = some (p.getD y x zero) :=
  Plane.get?_ofFn _ hy hx

theorem Plane.get?_padToBlocks_of_get? {y x : Nat} {v : α} (h : p.get? y x = some v) :
    (p.padToBlocks zero).get? y x = some v := by
  obtain ⟨hy, hx⟩ := lt_of_get? h
  have hheight := p.height_padToBlocks zero
  have hwidth := p.width_padToBlocks zero
  rw [get?_padToBlocks zero (by omega) (by omega), getD_of_get? h]

theorem Plane.get?_splitBlocks {row column : Nat} (hrow : row < p.height / 8)
    (hcolumn : column < p.width / 8) :
    (p.splitBlocks zero).get? row column =
      some (Block.ofFn fun y x => p.getD (8 * row + y) (8 * column + x) zero) :=
  BlockGrid.get?_ofFn _ hrow hcolumn

end

theorem place_in_block {k n : Nat} (h : k < n) (i : Fin 8) :
    8 * k + i < blockSide * n ∧ (8 * k + i) / blockSide = k ∧ (8 * k + i) % blockSide = i := by
  rw [blockSide]
  omega

theorem BlockGrid.get?_merge (zero : α) {g : BlockGrid α} {row column : Nat} {block : Block α}
    (hrow : row < g.rows) (hcolumn : column < g.columns) (h : g.get? row column = some block)
    (y x : Fin 8) : (g.merge zero).get? (8 * row + y) (8 * column + x) = some (block.at y x) := by
  obtain ⟨hy, hrowDiv, hyMod⟩ := place_in_block hrow y
  obtain ⟨hx, hcolumnDiv, hxMod⟩ := place_in_block hcolumn x
  rw [merge, Plane.get?_ofFn _ hy hx]
  simp only [hrowDiv, hcolumnDiv, hyMod, hxMod, h, Option.map_some, Option.getD_some]

theorem exists_place {i n : Nat} (h : i < 8 * n) : ∃ k < n, ∃ j : Fin 8, i = 8 * k + j :=
  ⟨i / 8, by omega, ⟨i % 8, Nat.mod_lt _ (by decide)⟩, (Nat.div_add_mod i 8).symm⟩

theorem Plane.merge_splitBlocks (zero : α) {p : Plane α} (hheight : 8 ∣ p.height)
    (hwidth : 8 ∣ p.width) : (p.splitBlocks zero).merge zero = p := by
  have hrows : 8 * (p.height / 8) = p.height := Nat.mul_div_cancel' hheight
  have hcolumns : 8 * (p.width / 8) = p.width := Nat.mul_div_cancel' hwidth
  refine ext_get? hrows hcolumns fun y hy x hx => ?_
  obtain ⟨row, hrow, y, rfl⟩ := exists_place hy
  obtain ⟨column, hcolumn, x, rfl⟩ := exists_place hx
  obtain ⟨v, hv⟩ : ∃ v, p.get? (8 * row + y) (8 * column + x) = some v :=
    exists_get? (hrows ▸ hy) (hcolumns ▸ hx)
  rw [BlockGrid.get?_merge zero hrow hcolumn (get?_splitBlocks zero hrow hcolumn), Block.at_ofFn,
    getD_of_get? hv, hv]

theorem BlockGrid.splitBlocks_merge (zero : α) (g : BlockGrid α) :
    (g.merge zero).splitBlocks zero = g := by
  have hrows : 8 * g.rows / 8 = g.rows := Nat.mul_div_cancel_left _ (by decide)
  have hcolumns : 8 * g.columns / 8 = g.columns := Nat.mul_div_cancel_left _ (by decide)
  refine ext_get? hrows hcolumns fun row hrow column hcolumn => ?_
  rw [Plane.get?_splitBlocks zero hrow hcolumn]
  have hrow : row < g.rows := hrows ▸ hrow
  have hcolumn : column < g.columns := hcolumns ▸ hcolumn
  obtain ⟨block, hblock⟩ := exists_get? hrow hcolumn
  rw [hblock]
  refine congrArg some (Block.ext_at fun y x => ?_)
  rw [Block.at_ofFn, Plane.getD_of_get? (get?_merge zero hrow hcolumn hblock y x)]

theorem Block.getElem?_toList (block : Block α) (y x : Fin 8) :
    block.toList[8 * y.val + x.val]? = some (block.at y x) := by
  have hi : 8 * y.val + x.val < 64 := by omega
  rw [toList, Vector.getElem?_toList, Vector.getElem?_eq_getElem hi]
  rfl

theorem BlockGrid.getElem?_entries {g : BlockGrid α} {row column : Nat} {block : Block α}
    (h : g.get? row column = some block) (y x : Fin 8) :
    g.entries[rowMajor g.columns 8 8 row column y x]? = some (block.at y x) := by
  -- The entries of a block stand together, 64 of them for each block before it.
  have hrun := take_drop_flatMap (f := Block.toList) (fun b _ => Vector.length_toList)
    (getElem?_blocks h)
  have hplace : rowMajor g.columns 8 8 row column y x =
      64 * (row * g.columns + column) + (8 * y.val + x.val) := by
    rw [rowMajor]
    omega
  have hi : 8 * y.val + x.val < 64 := by omega
  calc
    _ = ((g.entries.drop (64 * (row * g.columns + column))).take 64)[8 * y.val + x.val]? := by
      rw [List.getElem?_take_of_lt hi, List.getElem?_drop, hplace]
    _ = block.toList[8 * y.val + x.val]? := by rw [entries, hrun]
    _ = some (block.at y x) := block.getElem?_toList y x

theorem BlockGrid.middleAxesSwapped_merge (zero : α) (g : BlockGrid α) :
    MiddleAxesSwapped (g.merge zero) g := by
  refine ⟨rfl, rfl, fun row hrow column hcolumn y hy x hx => ?_⟩
  obtain ⟨block, hblock⟩ := exists_get? hrow hcolumn
  have hentry := getElem?_entries hblock ⟨y, hy⟩ ⟨x, hx⟩
  have hvalue := get?_merge zero hrow hcolumn hblock ⟨y, hy⟩ ⟨x, hx⟩
  obtain ⟨hyLt, hxLt⟩ := Plane.lt_of_get? hvalue
  have hplace : rowMajor 8 g.columns 8 row y column x =
      (8 * row + y) * (g.merge zero).width + (8 * column + x) := by
    change _ = (8 * row + y) * (8 * g.columns) + (8 * column + x)
    rw [rowMajor]
    ring
  rw [hplace, ← Plane.get?_eq_getElem? hyLt hxLt]
  exact hentry.trans hvalue.symm

theorem Plane.crop_merge_splitBlocks_padToBlocks (zero : α) (p : Plane α) :
    (((p.padToBlocks zero).splitBlocks zero).merge zero).crop zero p.height p.width = p := by
  have hheight : 8 ∣ (p.padToBlocks zero).height := ⟨_, p.height_padToBlocks zero⟩
  have hwidth : 8 ∣ (p.padToBlocks zero).width := ⟨_, p.width_padToBlocks zero⟩
  rw [merge_splitBlocks zero hheight hwidth]
  refine ext_get? rfl rfl fun y (hy : y < p.height) x (hx : x < p.width) => ?_
  obtain ⟨v, hv⟩ := exists_get? hy hx
  rw [crop, get?_ofFn _ hy hx, getD_of_get? (get?_padToBlocks_of_get? zero hv), hv]

/-- Padding is to the least whole blocks, and cutting a plane into blocks and laying blocks side by
side undo each other. -/
theorem blockPartition_bijective {α : Type} (zero : α) :
    (∀ p : Plane α,
      IsLeast {n | 8 ∣ n ∧ p.height ≤ n} (p.padToBlocks zero).height ∧
      IsLeast {n | 8 ∣ n ∧ p.width ≤ n} (p.padToBlocks zero).width ∧
      (∀ y x v, p.get? y x = some v → (p.padToBlocks zero).get? y x = some v) ∧
      (∀ y < (p.padToBlocks zero).height, ∀ x < (p.padToBlocks zero).width,
        p.get? y x = none → (p.padToBlocks zero).get? y x = some zero) ∧
      (((p.padToBlocks zero).splitBlocks zero).merge zero).crop zero p.height p.width = p) ∧
    (∀ p : Plane α, 8 ∣ p.height → 8 ∣ p.width →
      MiddleAxesSwapped p (p.splitBlocks zero) ∧
      (∀ row < p.height / 8, ∀ column < p.width / 8, ∀ y x : Fin 8,
        ((p.splitBlocks zero).get? row column).map (fun block => block.at y x) =
          p.get? (8 * row + y) (8 * column + x)) ∧
      (p.splitBlocks zero).merge zero = p) ∧
    ∀ g : BlockGrid α,
      MiddleAxesSwapped (g.merge zero) g ∧ (g.merge zero).splitBlocks zero = g := by
  refine ⟨fun p => ⟨?_, ?_, ?_, ?_, ?_⟩, fun p hheight hwidth => ⟨?_, ?_, ?_⟩, fun g => ?_⟩
  · rw [p.height_padToBlocks]
    exact isLeast_roundUp p.height
  · rw [p.width_padToBlocks]
    exact isLeast_roundUp p.width
  · exact fun y x v h => Plane.get?_padToBlocks_of_get? zero h
  · intro y hy x hx h
    rw [Plane.get?_padToBlocks zero hy hx, Plane.getD, h, Option.getD_none]
  · exact p.crop_merge_splitBlocks_padToBlocks zero
  · have hswapped := (p.splitBlocks zero).middleAxesSwapped_merge zero
    rwa [Plane.merge_splitBlocks zero hheight hwidth] at hswapped
  · intro row hrow column hcolumn y x
    have hblock := p.get?_splitBlocks zero hrow hcolumn
    have hvalue := BlockGrid.get?_merge zero hrow hcolumn hblock y x
    rw [Plane.merge_splitBlocks zero hheight hwidth] at hvalue
    rw [hblock, hvalue, Option.map_some]
  · exact Plane.merge_splitBlocks zero hheight hwidth
  · exact ⟨g.middleAxesSwapped_merge zero, g.splitBlocks_merge zero⟩

/-- Three rows of ten numbers take two blocks. -/
theorem blockPartition_bijective_ten :
    let p : Plane Nat := Plane.ofFn 3 10 fun y x => 10 * y + x
    let padded := p.padToBlocks 0
    (8 ∣ padded.height ∧ 8 ∣ padded.width) ∧ padded.height = 8 ∧ padded.width = 16 ∧
      (padded.splitBlocks 0).merge 0 = padded ∧
      ((padded.splitBlocks 0).merge 0).crop 0 3 10 = p := by
  intro p padded
  have hheight : 8 ∣ padded.height := by decide
  have hwidth : 8 ∣ padded.width := by decide
  obtain ⟨hpadded, hcut, _⟩ := blockPartition_bijective 0
  obtain ⟨_, _, _, _, hcrop⟩ := hpadded p
  exact ⟨⟨hheight, hwidth⟩, rfl, rfl, (hcut padded hheight hwidth).2.2, hcrop⟩

end

end Compression
