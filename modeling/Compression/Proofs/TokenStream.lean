import Compression.Lzss
import Compression.Proofs.FieldBytes

namespace Compression

/-- What a token adds to the text before it. -/
def Token.extend (out : Array UInt8) : Token → Array UInt8
  | .literal byte => out.push byte
  | .copy m => copyBack m.offset m.length out

/-- A copy fits behind a text if it begins inside of it, is not empty, and fits its fields. -/
def Token.Fits (out : Array UInt8) : Token → Prop
  | .literal _ => True
  | .copy m => (1 ≤ m.offset ∧ m.offset ≤ out.size ∧ m.offset < 256 ^ 2) ∧
      1 ≤ m.length ∧ m.length < 256

/-- Each of the tokens fits behind the text that those before it give. -/
def Fitting (out : Array UInt8) : List Token → Prop
  | [] => True
  | t :: tokens => t.Fits out ∧ Fitting (t.extend out) tokens

theorem fitting_append {out : Array UInt8} {xs ys : List Token} :
    Fitting out (xs ++ ys) ↔ Fitting out xs ∧ Fitting (xs.foldl Token.extend out) ys := by
  induction xs generalizing out with
  | nil => simp [Fitting]
  | cons t xs ih => rw [List.cons_append, Fitting, Fitting, ih, List.foldl_cons, and_assoc]

/-- The bytes of a token that fits. -/
def Token.fieldBytes : Token → Bytes
  | .literal byte => [byte]
  | .copy m => littleEndian 2 m.offset ++ littleEndian 1 m.length

/-- The numbers of a token have room in its fields. -/
def Token.Storable : Token → Prop
  | .literal _ => True
  | .copy m => m.offset < 256 ^ 2 ∧ m.length < 256

theorem Token.Storable.toBytes_eq {t : Token} (h : t.Storable) :
    t.toBytes = some t.fieldBytes := by
  cases t with
  | literal byte => rfl
  | copy m =>
    obtain ⟨hoffset, hlength⟩ := h
    have hlength' : m.length < 256 ^ 1 := by omega
    rw [Token.toBytes, field?_natCast hoffset, field?_natCast hlength']
    rfl

theorem Token.Storable.exists_fields {m : Match} (h : (Token.copy m).Storable) :
    ∃ low high length : UInt8, (Token.copy m).fieldBytes = [low, high, length] ∧
      low.toNat + 256 * high.toNat = m.offset ∧ length.toNat = m.length := by
  obtain ⟨hoffset, hlength⟩ := h
  refine ⟨UInt8.ofNat m.offset, UInt8.ofNat (m.offset / 256), UInt8.ofNat m.length, rfl, ?_, ?_⟩
  · simp only [UInt8.toNat_ofNat']
    omega
  · simp only [UInt8.toNat_ofNat']
    omega

theorem Token.Fits.storable {out : Array UInt8} {t : Token} (h : t.Fits out) : t.Storable := by
  cases t with
  | literal byte => trivial
  | copy m => exact ⟨h.1.2.2, h.2.2⟩

theorem Fitting.storable {out : Array UInt8} {tokens : List Token} (h : Fitting out tokens) :
    ∀ t ∈ tokens, t.Storable := by
  induction tokens generalizing out with
  | nil => simp
  | cons t tokens ih =>
    intro u hu
    rcases List.mem_cons.mp hu with rfl | hu
    · exact h.1.storable
    · exact ih h.2 u hu

/-- One token is read off the front of a stream. Its flag is the lowest bit of those that are
left. -/
theorem decodeItems_token {out : Array UInt8} {t : Token} (h : t.Fits out) (rest : Bytes)
    (position items flags : Nat) :
    decodeItems (t.fieldBytes ++ rest) position (items + 1) (t.isCopy.toNat + 2 * flags) out =
      decodeItems rest (position + t.fieldBytes.length) items flags (t.extend out) := by
  cases t with
  | literal byte =>
    have hodd : ((Token.literal byte).isCopy.toNat + 2 * flags) % 2 = 0 := by simp [Token.isCopy]
    have hnext : ((Token.literal byte).isCopy.toNat + 2 * flags) / 2 = flags := by
      simp [Token.isCopy]
    rw [Token.fieldBytes, List.singleton_append, decodeItems.eq_def]
    simp only [if_pos hodd, hnext]
    rfl
  | copy m =>
    obtain ⟨low, high, length, hbytes, ho, hl⟩ := h.storable.exists_fields
    obtain ⟨⟨hfirst, hinside, _⟩, hsome, _⟩ := h
    have hodd : ¬ ((Token.copy m).isCopy.toNat + 2 * flags) % 2 = 0 := by
      simp only [Token.isCopy, Bool.toNat_true]
      omega
    have hnext : ((Token.copy m).isCopy.toNat + 2 * flags) / 2 = flags := by
      simp only [Token.isCopy, Bool.toNat_true]
      omega
    rw [hbytes]
    simp only [List.cons_append, List.nil_append, decodeItems, if_neg hodd, hnext, ho, hl]
    rw [if_neg (by omega)]
    rfl

/-- The flags of a group as a number, the first token in the lowest bit. -/
def groupFlags (group : List Token) : Nat :=
  group.foldr (fun t n => t.isCopy.toNat + 2 * n) 0

theorem groupFlags_lt (group : List Token) : groupFlags group < 2 ^ group.length := by
  induction group with
  | nil => simp [groupFlags]
  | cons t group ih =>
    have hflag : t.isCopy.toNat ≤ 1 := Bool.toNat_le t.isCopy
    rw [groupFlags] at ih ⊢
    rw [List.foldr_cons, List.length_cons, Nat.pow_succ]
    omega

theorem flagByte_toNat {group : List Token} (h : group.length ≤ groupSize) :
    (flagByte group).toNat = groupFlags group := by
  have hlt := groupFlags_lt group
  have hle : 2 ^ group.length ≤ 2 ^ groupSize := Nat.pow_le_pow_right (by omega) h
  rw [flagByte, UInt8.toNat_ofNat']
  exact Nat.mod_eq_of_lt (Nat.lt_of_lt_of_le hlt hle)

theorem decodeItems_group {out : Array UInt8} {group : List Token} (h : Fitting out group)
    (rest : Bytes) (position items : Nat) :
    decodeItems ((group.map Token.fieldBytes).flatten ++ rest) position (group.length + items)
        (groupFlags group) out =
      decodeItems rest (position + (group.map Token.fieldBytes).flatten.length) items 0
        (group.foldl Token.extend out) := by
  induction group generalizing out position with
  | nil => simp [groupFlags]
  | cons t group ih =>
    have hcount : (t :: group).length + items = group.length + items + 1 := by
      rw [List.length_cons]
      omega
    have htoken := decodeItems_token h.1 ((group.map Token.fieldBytes).flatten ++ rest) position
      (group.length + items) (groupFlags group)
    rw [hcount, List.map_cons, List.flatten_cons, List.append_assoc]
    refine htoken.trans ?_
    rw [ih h.2, List.length_append, List.foldl_cons, Nat.add_assoc]

def groupFieldBytes (group : List Token) : Bytes :=
  flagByte group :: (group.map Token.fieldBytes).flatten

theorem groupBytes_eq {group : List Token} (h : ∀ t ∈ group, t.Storable) :
    groupBytes group = some (groupFieldBytes group) := by
  rw [groupBytes, mapM_eq_some_map fun t ht => (h t ht).toBytes_eq]
  rfl

/-- A stream is read group by group: the flags say how to read what follows them, and a group
ends with its eighth token or with the stream. -/
theorem decodeItems_groups {out : Array UInt8} {tokens : List Token} (h : Fitting out tokens)
    (position flags : Nat) :
    ∃ groups, (groupsOf groupSize (by decide) tokens).mapM groupBytes = some groups ∧
      decodeItems groups.flatten position 0 flags out = .ok (tokens.foldl Token.extend out) := by
  fun_induction groupsOf groupSize _ tokens generalizing out position flags with
  | case1 => exact ⟨[], rfl, rfl⟩
  | case2 t tokens ih =>
    rw [← List.take_append_drop groupSize (t :: tokens)] at h
    obtain ⟨hgroup, hrest⟩ := fitting_append.mp h
    let group := (t :: tokens).take groupSize
    let text := group.foldl Token.extend out
    have hsize : group.length ≤ groupSize := List.length_take_le _ _
    obtain ⟨groups, hgroups, hdecode⟩ := ih hrest
      (position + 1 + (group.map Token.fieldBytes).flatten.length) 0
    refine ⟨groupFieldBytes group :: groups, ?_, ?_⟩
    · rw [List.mapM_cons, groupBytes_eq hgroup.storable, hgroups]
      rfl
    · have hread := decodeItems_group hgroup groups.flatten (position + 1)
        (groupSize - group.length)
      rw [show group.length + (groupSize - group.length) = groupSize by omega] at hread
      rw [List.flatten_cons, groupFieldBytes, List.cons_append, decodeItems,
        flagByte_toNat hsize, hread]
      have htext : (t :: tokens).foldl Token.extend out =
          ((t :: tokens).drop groupSize).foldl Token.extend text := by
        rw [← List.foldl_append, List.take_append_drop]
      rw [htext]
      -- A group before the last is full, so the next byte is read as flags; behind the last one
      -- the stream ends.
      by_cases hlast : (t :: tokens).drop groupSize = []
      · rw [hlast, groupsOf] at hgroups
        cases Option.some.inj hgroups
        rw [hlast]
        rfl
      · have hfull : group.length = groupSize := by
          have hmore := List.length_pos_iff.mpr hlast
          rw [List.length_drop] at hmore
          exact List.length_take_of_le (by omega)
        rw [hfull, Nat.sub_self]
        exact hdecode

theorem lzssDecode_tokenStream {tokens : List Token} (h : Fitting #[] tokens) :
    ∃ stream, tokenStream tokens = some stream ∧
      lzssDecode stream = .ok (tokens.foldl Token.extend #[]).toList := by
  obtain ⟨groups, hgroups, hdecode⟩ := decodeItems_groups h 0 0
  refine ⟨groups.flatten, ?_, ?_⟩
  · rw [tokenStream, hgroups]
    rfl
  · rw [lzssDecode, hdecode]
    rfl

end Compression
