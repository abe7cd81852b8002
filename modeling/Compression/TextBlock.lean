import Compression.Utf8

namespace Compression

/-- A file of text that is read piece by piece. -/
structure TextFile where
  data : Bytes
  cut : Option Utf8Open := none
  /-- Whether the last piece ended with a carriage return, which is held back. -/
  heldReturn : Bool := false
  /-- Bytes per character in the last piece. -/
  density : Float := 0.0
  decoded : List Char := []

/-- Ends every line with a line feed alone. -/
def unifyLineEnds : List Char → List Char
  | [] => []
  | '\r' :: '\n' :: rest => '\n' :: unifyLineEnds rest
  | '\r' :: rest => '\n' :: unifyLineEnds rest
  | c :: rest => c :: unifyLineEnds rest

/-- The least number of bytes that are asked for at once. -/
def pieceLength : Nat := 8192

/-- How many bytes are asked for to get `wanted` characters: as many as it takes if they are like
those before, but no fewer than one piece. -/
def bytesFor (density : Float) (wanted : Nat) : Nat :=
  let density := if density < 1.0 then 1.0 else density
  max pieceLength (density * Float.ofNat wanted).toUInt64.toNat

/-- Decodes the next piece. A carriage return at its end waits for the next one, since a line feed
may follow. The answer is none if nothing is left. -/
def TextFile.advance (wanted : Nat) (f : TextFile) : Except Utf8Error (Option TextFile) := do
  let piece := f.data.take (bytesFor f.density wanted)
  let (chars, cut) ← decodeUtf8Piece f.cut piece
  if piece.isEmpty then endUtf8 cut
  let chars := if f.heldReturn && (piece.isEmpty || !chars.isEmpty) then '\r' :: chars else chars
  let heldReturn := if piece.isEmpty then false
    else if chars.isEmpty then f.heldReturn
    else chars.getLast? = some '\r'
  let decoded := unifyLineEnds (if heldReturn then chars.dropLast else chars)
  if piece.isEmpty && decoded.isEmpty then return none
  return some {
    data := f.data.drop piece.length
    cut
    heldReturn
    density := if decoded.isEmpty then 0.0
      else Float.ofNat piece.length / Float.ofNat decoded.length
    decoded }

/-- Takes characters, fewer than are wanted only at the end. Every second step takes a piece. -/
def TextFile.take : Nat → Nat → TextFile → Except Utf8Error (List Char × TextFile)
  | 0, _, f => .ok ([], f)
  | steps + 1, wanted, f => do
    let ready := f.decoded.take wanted
    let f := { f with decoded := f.decoded.drop wanted }
    let missing := wanted - ready.length
    if missing = 0 then return (ready, f)
    match ← f.advance missing with
    | none => return (ready, f)
    | some f =>
      let (more, f) ← TextFile.take steps missing f
      return (ready ++ more, f)

/-- A part of a text, or why there is none. -/
abbrev TextBlock := Except Utf8Error (List Char)

/-- The characters of one block. -/
def blockLength : Nat := 4096

/-- The blocks of a text. The last one is empty, or does not decode. -/
def TextFile.blocks (f : TextFile) : Nat → List TextBlock
  | 0 => []
  | count + 1 =>
    match f.take (f.data.length + 2) blockLength with
    | .error e => [.error e]
    | .ok ([], _) => [.ok []]
    | .ok (block, f) => .ok block :: f.blocks count

/-- The blocks of the text in a file. The first two are taken together. -/
def textBlocks (data : Bytes) : List TextBlock :=
  match TextFile.blocks { data } (data.length + 2) with
  | .ok first :: .ok second :: rest =>
    .ok (first ++ second) :: if second.isEmpty then [.ok []] else rest
  | .ok _ :: .error e :: _ => [.error e]
  | blocks => blocks

end Compression
