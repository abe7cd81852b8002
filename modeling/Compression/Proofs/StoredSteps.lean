import Compression.Proofs.IndependentBlocks

namespace Compression

theorem int16Value_int16Bytes {n : Int} (hlow : -32768 ≤ n) (hhigh : n ≤ 32767) :
    int16Value (int16Bytes n) = n := by
  have hnonneg := Int.emod_nonneg n (by decide : (65536 : Int) ≠ 0)
  have hlt : (n % 65536).toNat < 256 ^ 2 := by omega
  have hvalue : littleEndianValue (int16Bytes n) = (n % 65536).toNat :=
    littleEndianValue_littleEndian hlt
  unfold int16Value
  rw [hvalue, Int.toNat_of_nonneg hnonneg]
  dsimp only
  split
  · omega
  · omega

theorem clampInt16_range (n : Int) : -32768 ≤ clampInt16 n ∧ clampInt16 n ≤ 32767 := by
  rw [clampInt16]
  omega

theorem clampInt16_of_range {n : Int} (hlow : -32768 ≤ n) (hhigh : n ≤ 32767) :
    clampInt16 n = n := by
  rw [clampInt16]
  omega

section

variable {α : Type} [TransformArithmetic α]

theorem at_quantize (coefficients : Block α) (v u : Fin 8) :
    (quantize coefficients).at v u = clampInt16
      (TransformArithmetic.nearest (coefficients.at v u / ofInt (quantSteps.at v u))) :=
  Block.at_zipWith _ coefficients quantSteps v u

theorem at_dequantize (steps : Block Int) (v u : Fin 8) :
    (dequantize steps : Block α).at v u = ofInt (steps.at v u) * ofInt (quantSteps.at v u) :=
  Block.at_zipWith _ steps quantSteps v u

theorem payloadSteps_encodeBlock (block : Block α) :
    payloadSteps (encodeBlock block) = quantize (forwardTransform block) := by
  refine Block.ext_at fun y x => ?_
  have htwo : ∀ n ∈ (quantize (forwardTransform block)).toList, (int16Bytes n).length = 2 :=
    fun n _ => length_littleEndian 2 _
  have hrun := take_drop_flatMap htwo ((quantize (forwardTransform block)).getElem?_toList y x)
  rw [payloadSteps, Block.at_ofFn, encodeBlock, hrun, at_quantize]
  obtain ⟨hlow, hhigh⟩ := clampInt16_range (TransformArithmetic.nearest
    ((forwardTransform block).at y x / ofInt (quantSteps.at y x)))
  exact int16Value_int16Bytes hlow hhigh

/-- What the file of an image tells of each block. -/
theorem exists_stored_steps {image : Image}
    (hblack : brightness image.channels (fun _ => 0) = (ofInt 0 : α))
    (hwidth : image.width ≤ 65535) (hheight : image.height ≤ 65535)
    (hchannels : image.channels = 1 ∨ image.channels = 3) :
    ∃ file, encodeImageWith α image = .ok file ∧
      ∀ row < (image.height + 7) / 8, ∀ column < (image.width + 7) / 8,
        payloadSteps (blockPayload ((image.width + 7) / 8) file row column) =
          quantize (forwardTransform (image.blockAt row column : Block α)) := by
  obtain ⟨blocks, hencode, _, hblocks⟩ := exists_encoded_blocks hblack hwidth hheight hchannels
  refine ⟨_, hencode, fun row hrow column hcolumn => ?_⟩
  rw [blockPayload_encoded (hblocks row hrow column hcolumn), payloadSteps_encodeBlock]

end

end Compression
