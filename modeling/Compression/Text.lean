namespace Compression

/-- A character or a surrogate, by its number. -/
abbrev CodePoint := Fin 0x110000

/-- Text as a document can describe it. Surrogates may stand in it, also on their own. -/
abbrev Text := List CodePoint

def codePoint (c : Char) : CodePoint :=
  ⟨c.toNat, by
    have h := c.valid
    simp only [UInt32.isValidChar, Nat.isValidChar] at h
    simp only [Char.toNat]
    omega⟩

def textOf (s : String) : Text :=
  s.toList.map codePoint

instance : Coe String Text := ⟨textOf⟩

/-- The character with the number of a code point; surrogates have none. -/
def char? (c : CodePoint) : Option Char :=
  if h : c.val.isValidChar then some (Char.ofNatAux c.val h) else none

/-- Text without surrogates. -/
def string? (t : Text) : Option String :=
  (t.mapM char?).map String.ofList

end Compression
