import Compression.Dispatch
import Compression.Proofs.FileNames

namespace Compression

theorem mem_markStem {mark path : List Char} {c : Char} (h : c ∈ markStem mark path) :
    c ∈ mark ∨ c ∈ path := by
  have hpath := directoryPart_append_lastComponent path
  rw [(hasExtension_splitExtension (lastComponent path)).name_eq] at hpath
  rw [← hpath]
  simp only [markStem, List.mem_append] at h ⊢
  rcases h with ((h | h) | h) | h <;> simp [h]

/-- A derived place is spelled with the characters of the path and those of fixed endings. -/
theorem mem_decompressedChars {a : Algorithm} {path : List Char} {c : Char}
    (h : c ∈ a.decompressedChars path) :
    c ∈ decodedMark ++ restoredSuffix ++ pixelSuffix ∨ c ∈ path := by
  have hbase : c ∈ path.take (path.length - a.suffix.length) → c ∈ path := List.mem_of_mem_take
  simp only [List.mem_append]
  cases a with
  | huffman =>
    simp only [Algorithm.decompressedChars] at h
    split at h
    next =>
      rcases mem_markStem h with h | h
      · simp [h]
      · exact .inr (hbase h)
    next => rcases List.mem_append.mp h with h | h <;> simp [h]
  | lzss =>
    simp only [Algorithm.decompressedChars] at h
    split at h
    next => exact .inr (hbase h)
    next => rcases List.mem_append.mp h with h | h <;> simp [h]
  | dct => rcases List.mem_append.mp h with h | h <;> simp [h]

theorem mem_compressedChars {a : Algorithm} {path : List Char} {c : Char}
    (h : c ∈ a.compressedChars path) : c ∈ a.suffix ∨ c ∈ path :=
  (List.mem_append.mp h).symm

/-- Of the places for an output, only one that is given brings a null of its own. -/
theorem null_mem_outputTarget_iff {operation : Operation} {a : Algorithm} {path : String}
    {output : Option String} (hp : '\x00' ∉ path.toList) :
    '\x00' ∈ (outputTarget operation a path output).toList ↔
      ∃ given, output = some given ∧ '\x00' ∈ given.toList := by
  have hdefault : '\x00' ∉ (outputTarget.default operation a path).toList := by
    intro hmem
    cases operation with
    | compress =>
      simp only [outputTarget.default, Algorithm.compressedPath, String.toList_ofList] at hmem
      rcases mem_compressedChars hmem with hfixed | hpath
      · revert hfixed
        cases a <;> decide
      · exact hp hpath
    | decompress =>
      simp only [outputTarget.default, Algorithm.decompressedPath, String.toList_ofList] at hmem
      rcases mem_decompressedChars hmem with hfixed | hpath
      · revert hfixed
        decide
      · exact hp hpath
  cases output with
  | none => exact iff_of_false hdefault (by simp)
  | some given =>
    simp only [outputTarget, Option.some.injEq, exists_eq_left']
    split
    next hempty =>
      obtain rfl : given = "" := by simpa using hempty
      exact iff_of_false hdefault (by simp)
    next => exact Iff.rfl

end Compression
