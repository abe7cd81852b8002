import Compression.Proofs.GreedyParse

namespace Compression

theorem length_flatMap_fieldBytes (tokens : List Token) :
    (tokens.flatMap Token.fieldBytes).length =
      tokens.countP (fun t => !t.isCopy) + 3 * tokens.countP Token.isCopy := by
  induction tokens with
  | nil => rfl
  | cons t tokens ih =>
    rw [List.flatMap_cons, List.length_append, ih, List.countP_cons, List.countP_cons]
    cases t with
    | literal b =>
      have hbytes : (Token.literal b).fieldBytes.length = 1 := rfl
      have hkind : (Token.literal b).isCopy = false := rfl
      simp only [hbytes, hkind, Bool.not_false, if_true, Bool.false_eq_true, if_false]
      omega
    | copy m =>
      have hbytes : (Token.copy m).fieldBytes.length = 3 := rfl
      have hkind : (Token.copy m).isCopy = true := rfl
      simp only [hbytes, hkind, Bool.not_true, if_true, Bool.false_eq_true, if_false]
      omega

/-- Every group adds its byte of flags to the bytes of its tokens. -/
theorem length_flatMap_groupFieldBytes (groups : List (List Token)) :
    (groups.flatMap groupFieldBytes).length =
      groups.length + (groups.flatten.flatMap Token.fieldBytes).length := by
  induction groups with
  | nil => rfl
  | cons group groups ih =>
    rw [List.flatMap_cons, List.flatten_cons, List.flatMap_append, List.length_append,
      List.length_append, ih, groupFieldBytes, List.length_cons, List.length_cons,
      ← List.flatMap_def]
    omega

theorem length_greedyStream (params : LzssParams) (data : Bytes) :
    (greedyStream params data).length = ((greedyParse params data 0).length + 7) / 8 +
      ((greedyParse params data 0).flatMap Token.fieldBytes).length := by
  rw [greedyStream, length_flatMap_groupFieldBytes, length_groupsOf_groupSize, flatten_groupsOf]

/-- What a token costs is no more than its share of the text: a byte covers itself, and the three
bytes of a copy cover a least match. -/
theorem Token.Allowed.cost_le {params : LzssParams} {position : Nat} {t : Token}
    (h : t.Allowed params position) :
    t.fieldBytes.length * min params.minMatch 3 ≤ 3 * t.span := by
  cases t with
  | literal b =>
    show 1 * min params.minMatch 3 ≤ 3 * 1
    omega
  | copy m =>
    have hlong := h.2.1
    show 3 * min params.minMatch 3 ≤ 3 * m.length
    omega

section

variable (params : LzssParams) (data : Bytes) (position : Nat)

theorem length_greedyParse_le :
    (greedyParse params data position).length ≤
      itemsSpan ((greedyParse params data position).map .whole) := by
  fun_induction greedyParse params data position with
  | case1 => exact Nat.le_refl 0
  | case2 position t hsome ih =>
    have hpos := (tokenAt?_allowed hsome).1.span_pos
    rw [List.length_cons, List.map_cons, itemsSpan, Item.span]
    omega

theorem cost_greedyParse_le :
    ((greedyParse params data position).flatMap Token.fieldBytes).length * min params.minMatch 3 ≤
      3 * itemsSpan ((greedyParse params data position).map .whole) := by
  fun_induction greedyParse params data position with
  | case1 => simp
  | case2 position t hsome ih =>
    have hcost := (tokenAt?_allowed hsome).1.cost_le
    rw [List.flatMap_cons, List.length_append, Nat.add_mul, List.map_cons, itemsSpan, Item.span]
    omega

end

/-- A stream has a byte for every eight tokens or less, one for every literal and three for every
copy. Its tokens are not more than the bytes of the text, and if a copy covers three bytes or more,
no byte but the flags is added. -/
theorem lzssEncode_expansion (params : LzssParams) (data : Bytes) :
    ∃ stream, lzssEncode params data = .ok stream ∧
      let tokens := greedyParse params data 0
      let flags := (tokens.length + 7) / 8
      streamItems stream = tokens.map .whole ∧
      tokens.length ≤ data.length ∧
      stream.length =
        flags + tokens.countP (fun t => !t.isCopy) + 3 * tokens.countP Token.isCopy ∧
      (stream.length - flags) * min params.minMatch 3 ≤ 3 * data.length ∧
      (3 ≤ params.minMatch → stream.length ≤ data.length + (data.length + 7) / 8) := by
  have hspan := itemsSpan_greedyParse params (Nat.zero_le data.length)
  have hcount := length_greedyParse_le params data 0
  have hcost := cost_greedyParse_le params data 0
  have hlength := length_greedyStream params data
  have hfields := length_flatMap_fieldBytes (greedyParse params data 0)
  rw [Nat.zero_add] at hspan
  rw [hspan] at hcount hcost
  refine ⟨greedyStream params data, lzssEncode_eq_greedyStream params data,
    streamItems_greedyStream params data, hcount, by omega, ?_, fun hlong => ?_⟩
  · rwa [hlength, Nat.add_sub_cancel_left]
  · rw [Nat.min_eq_right hlong] at hcost
    omega

end Compression
