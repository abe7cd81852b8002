namespace Compression

/-- Values in rows of equal width. -/
structure Plane (α : Type) where
  height : Nat
  width : Nat
  entries : Array α
  size_eq : entries.size = height * width

/-- The plane with the value `f y x` in row `y` and column `x`. -/
def Plane.ofFn {α : Type} (height width : Nat) (f : Nat → Nat → α) : Plane α where
  height := height
  width := width
  entries := Array.ofFn fun i : Fin (height * width) => f (i / width) (i % width)
  size_eq := by simp

def Plane.get? {α : Type} (p : Plane α) (y x : Nat) : Option α :=
  if y < p.height ∧ x < p.width then p.entries[y * p.width + x]? else none

/-- The value in a place; `outside` beyond the plane. -/
def Plane.getD {α : Type} (p : Plane α) (y x : Nat) (outside : α) : α :=
  (p.get? y x).getD outside

/-- Sides of a block. -/
def blockSide : Nat := 8

/-- A square of values, row by row. -/
structure Block (α : Type) where
  entries : Vector α 64

def Block.ofFn {α : Type} (f : Fin 8 → Fin 8 → α) : Block α where
  entries := Vector.ofFn fun i : Fin 64 => f ⟨i / 8, by omega⟩ ⟨i % 8, by omega⟩

def Block.at {α : Type} (b : Block α) (y x : Fin 8) : α :=
  b.entries[8 * y.val + x.val]

def Block.map {α β : Type} (f : α → β) (b : Block α) : Block β where
  entries := b.entries.map f

def Block.zipWith {α β γ : Type} (f : α → β → γ) (a : Block α) (b : Block β) : Block γ where
  entries := Vector.zipWith f a.entries b.entries

def Block.toList {α : Type} (b : Block α) : List α :=
  b.entries.toList

/-- Blocks in rows. -/
structure BlockGrid (α : Type) where
  rows : Nat
  columns : Nat
  blocks : Array (Block α)
  size_eq : blocks.size = rows * columns

def BlockGrid.ofFn {α : Type} (rows columns : Nat) (f : Nat → Nat → Block α) : BlockGrid α where
  rows := rows
  columns := columns
  blocks := Array.ofFn fun i : Fin (rows * columns) => f (i / columns) (i % columns)
  size_eq := by simp

def BlockGrid.get? {α : Type} (g : BlockGrid α) (row column : Nat) : Option (Block α) :=
  if row < g.rows ∧ column < g.columns then g.blocks[row * g.columns + column]? else none

def BlockGrid.map {α β : Type} (f : Block α → Block β) (g : BlockGrid α) : BlockGrid β where
  rows := g.rows
  columns := g.columns
  blocks := g.blocks.map f
  size_eq := by simp [g.size_eq]

/-- The least number of blocks that cover a length. -/
def blocksAcross (length : Int) : Int :=
  -Int.fdiv (-length) blockSide

/-- Rows and columns of blocks that cover a size. -/
def blockGrid (width height : Int) : Int × Int :=
  (blocksAcross height, blocksAcross width)

/-- The plane with its sides stretched to whole blocks, `zero` in the new places. -/
def Plane.padToBlocks {α : Type} (zero : α) (p : Plane α) : Plane α :=
  Plane.ofFn (blockSide * (blocksAcross p.height).toNat)
    (blockSide * (blocksAcross p.width).toNat) fun y x => p.getD y x zero

/-- Cuts a plane whose sides are whole blocks. -/
def Plane.splitBlocks {α : Type} (zero : α) (p : Plane α) : BlockGrid α :=
  BlockGrid.ofFn (p.height / blockSide) (p.width / blockSide) fun row column =>
    Block.ofFn fun y x => p.getD (blockSide * row + y) (blockSide * column + x) zero

/-- Lays the blocks out side by side. -/
def BlockGrid.merge {α : Type} (zero : α) (g : BlockGrid α) : Plane α :=
  Plane.ofFn (blockSide * g.rows) (blockSide * g.columns) fun y x =>
    ((g.get? (y / blockSide) (x / blockSide)).map fun b =>
      b.at ⟨y % blockSide, Nat.mod_lt _ (by decide)⟩ ⟨x % blockSide, Nat.mod_lt _ (by decide)⟩).getD
      zero

/-- The upper left part of a plane. -/
def Plane.crop {α : Type} (zero : α) (height width : Nat) (p : Plane α) : Plane α :=
  Plane.ofFn height width fun y x => p.getD y x zero

def Plane.map {α β : Type} (f : α → β) (p : Plane α) : Plane β where
  height := p.height
  width := p.width
  entries := p.entries.map f
  size_eq := by simp [p.size_eq]

theorem Plane.index_lt {height width y x : Nat} (hy : y < height) (hx : x < width) :
    y * width + x < height * width := by
  calc
    y * width + x < y * width + width := by omega
    _ = (y + 1) * width := by rw [Nat.succ_mul]
    _ ≤ height * width := Nat.mul_le_mul_right _ hy

@[simp] theorem Plane.get?_ofFn {α : Type} {height width y x : Nat} (f : Nat → Nat → α)
    (hy : y < height) (hx : x < width) : (Plane.ofFn height width f).get? y x = some (f y x) := by
  have hi := Plane.index_lt hy hx
  have hw : 0 < width := by omega
  have hd : (y * width + x) / width = y := by
    rw [Nat.mul_comm, Nat.mul_add_div hw, Nat.div_eq_of_lt hx, Nat.add_zero]
  have hm : (y * width + x) % width = x := by
    rw [Nat.mul_comm, Nat.mul_add_mod, Nat.mod_eq_of_lt hx]
  simp [Plane.get?, Plane.ofFn, hy, hx, hi, hd, hm]

@[simp] theorem Block.at_ofFn {α : Type} (f : Fin 8 → Fin 8 → α) (y x : Fin 8) :
    (Block.ofFn f).at y x = f y x := by
  have hd : (8 * y.val + x.val) / 8 = y.val := by omega
  have hm : (8 * y.val + x.val) % 8 = x.val := by omega
  simp [Block.ofFn, Block.at, hd, hm]

@[simp] theorem Block.at_map {α β : Type} (f : α → β) (b : Block α) (y x : Fin 8) :
    (b.map f).at y x = f (b.at y x) := by
  simp [Block.map, Block.at]

@[simp] theorem Block.at_zipWith {α β γ : Type} (f : α → β → γ) (a : Block α) (b : Block β)
    (y x : Fin 8) : (Block.zipWith f a b).at y x = f (a.at y x) (b.at y x) := by
  simp [Block.zipWith, Block.at]

theorem Block.ext_at {α : Type} {a b : Block α} (h : ∀ y x, a.at y x = b.at y x) : a = b := by
  obtain ⟨a⟩ := a
  obtain ⟨b⟩ := b
  congr 1
  apply Vector.ext
  intro i hi
  have hy : i / 8 < 8 := by omega
  have hx : i % 8 < 8 := by omega
  have he : 8 * (i / 8) + i % 8 = i := by omega
  simpa [Block.at, he] using h ⟨i / 8, hy⟩ ⟨i % 8, hx⟩

end Compression
