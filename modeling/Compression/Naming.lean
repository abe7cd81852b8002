import Compression.Algorithm

namespace Compression

/-- What follows the last slash of a path. -/
def lastComponent (path : List Char) : List Char :=
  (path.reverse.takeWhile (· ≠ '/')).reverse

/-- A path up to its last slash, which belongs to it. -/
def directoryPart (path : List Char) : List Char :=
  path.take (path.length - (lastComponent path).length)

/-- A file name up to its last point, and the extension from this point on. A name without a
point has no extension, and neither has one with nothing but points before it. -/
def splitExtension (name : List Char) : List Char × List Char :=
  let ending := name.reverse.takeWhile (· ≠ '.')
  let stem := (name.reverse.drop (ending.length + 1)).reverse
  if ending.length < name.length ∧ stem.any (· ≠ '.') then (stem, '.' :: ending.reverse)
  else (name, [])

/-- Puts a mark in front of the extension of a path. -/
def markStem (mark path : List Char) : List Char :=
  let (stem, extension) := splitExtension (lastComponent path)
  directoryPart path ++ stem ++ mark ++ extension

/-- The suffix of the files that an algorithm writes. -/
def Algorithm.suffix : Algorithm → List Char
  | .huffman => ['.', 'h', 'u', 'f', 'f']
  | .lzss => ['.', 'l', 'z', 's', 's']
  | .dct => ['.', 'd', 'c', 't']

def decodedMark : List Char := ['_', 'D', 'C']

def restoredSuffix : List Char := ['.', 'o', 'r', 'i', 'g']

def pixelSuffix : List Char := ['.', 'p', 'g', 'm']

/-- Where a compressed file goes if no place is given. -/
def Algorithm.compressedChars (a : Algorithm) (path : List Char) : List Char :=
  path ++ a.suffix

/-- Where a decompressed file goes if no place is given. -/
def Algorithm.decompressedChars (a : Algorithm) (path : List Char) : List Char :=
  let base := path.take (path.length - a.suffix.length)
  let hasSuffix := a.suffix.isSuffixOf path
  match a with
  | .huffman => if hasSuffix then markStem decodedMark base else path ++ decodedMark
  | .lzss => if hasSuffix ∧ base ≠ [] then base else path ++ restoredSuffix
  | .dct => path ++ pixelSuffix

def Algorithm.compressedPath (a : Algorithm) (path : String) : String :=
  String.ofList (a.compressedChars path.toList)

def Algorithm.decompressedPath (a : Algorithm) (path : String) : String :=
  String.ofList (a.decompressedChars path.toList)

end Compression
