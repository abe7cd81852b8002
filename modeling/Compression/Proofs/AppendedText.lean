import Compression.Proofs.GreedyParse

namespace Compression

section

variable {params : LzssParams} {data : Bytes} {position : Nat}

/-- Bytes behind the lookahead of a position do not count for its candidates. -/
theorem agreesFor_append (more : Bytes) (hroom : position + params.lookahead ≤ data.length)
    {candidate : Nat} (hbefore : candidate < position) (n : Nat) :
    AgreesFor params (data ++ more) position candidate n ↔
      AgreesFor params data position candidate n := by
  unfold AgreesFor
  refine and_congr_right fun hn => and_congr ?_ ?_
  · rw [List.length_append]
    omega
  · refine forall₂_congr fun k hk => ?_
    rw [List.getElem?_append_left (by omega), List.getElem?_append_left (by omega)]

theorem scanMatch_append (more : Bytes) (hroom : position + params.lookahead ≤ data.length) :
    scanMatch params (data ++ more) position = scanMatch params data position := by
  have hsame : ∀ candidate < position, agreement params (data ++ more) position candidate =
      agreement params data position candidate := by
    intro candidate hbefore
    refine eq_of_forall_le_iff fun n => ?_
    rw [le_agreement_iff, le_agreement_iff]
    exact agreesFor_append more hroom hbefore n
  have hstep : ∀ best : Match, ∀ place ∈ List.range' (position - params.windowSize)
      (position - (position - params.windowSize)),
      keepLonger (agreement params (data ++ more) position) position best place =
        keepLonger (agreement params data position) position best place := by
    intro best place hplace
    obtain ⟨_, hbefore⟩ := List.mem_range'_1.mp hplace
    unfold keepLonger
    rw [hsame place (by omega)]
  simp only [scanMatch]
  rw [List.foldl_ext _ _ _ hstep]

theorem tokenAt?_append (more : Bytes) (hroom : position + params.lookahead ≤ data.length) :
    tokenAt? params (data ++ more) position = tokenAt? params data position := by
  have hlookahead := params.lookahead_range
  have hlt : position < data.length := by omega
  unfold tokenAt?
  rw [List.getElem?_append_left hlt, findMatch_eq_scanMatch, findMatch_eq_scanMatch,
    scanMatch_append more hroom]

end

/-- Two parses go together until less than a lookahead is left of the shorter text. -/
theorem exists_common_greedyParse (params : LzssParams) (data more : Bytes) (position : Nat) :
    ∃ common rest rest', greedyParse params data position = common ++ rest ∧
      greedyParse params (data ++ more) position = common ++ rest' ∧
      data.length < position + itemsSpan (common.map .whole) + params.lookahead := by
  have hlookahead := params.lookahead_range
  fun_induction greedyParse params data position with
  | case1 position hnone =>
    have hend := tokenAt?_eq_none hnone
    refine ⟨[], [], greedyParse params (data ++ more) position, rfl, rfl, ?_⟩
    rw [List.map_nil, itemsSpan]
    omega
  | case2 position t hsome ih =>
    by_cases hroom : position + params.lookahead ≤ data.length
    · obtain ⟨common, rest, rest', hparse, hparse', hend⟩ := ih
      have hsome' := (tokenAt?_append more hroom).trans hsome
      refine ⟨t :: common, rest, rest', by rw [hparse]; rfl, ?_, ?_⟩
      · rw [greedyParse_of_some hsome', hparse']
        rfl
      · rw [List.map_cons, itemsSpan, Item.span]
        omega
    · refine ⟨[], t :: greedyParse params data (position + t.span),
        greedyParse params (data ++ more) position, rfl, rfl, ?_⟩
      rw [List.map_nil, itemsSpan]
      omega

theorem length_lt_of_span_lt {common rest before after : List Item} {item : Item}
    (heq : common ++ rest = before ++ item :: after)
    (hlt : itemsSpan before < itemsSpan common) : before.length < common.length := by
  by_contra hge
  have hprefix : common <+: before :=
    List.prefix_of_prefix_length_le ⟨rest, heq⟩ (List.prefix_append _ _) (by omega)
  obtain ⟨gap, rfl⟩ := hprefix
  rw [itemsSpan_append] at hlt
  omega

theorem BeginsAt.of_common {common rest rest' : List Item} {position : Nat} {item : Item}
    (h : BeginsAt (common ++ rest) position item) (hlt : position < itemsSpan common) :
    BeginsAt (common ++ rest') position item := by
  obtain ⟨before, after, heq, rfl⟩ := h
  have hlength := length_lt_of_span_lt heq hlt
  have hprefix : before ++ [item] <+: common :=
    List.prefix_of_prefix_length_le ⟨after, by simp [heq]⟩ (List.prefix_append common rest)
      (by rw [List.length_append]; exact hlength)
  obtain ⟨gap, rfl⟩ := hprefix
  exact ⟨before, gap ++ rest', by simp, rfl⟩

section

variable {tokens tokens' common : List Token} {before after : List (List Token)}
  {group : List Token}

/-- A group whose tokens all begin in what is common lies in it as a whole. -/
theorem length_flatten_le_of_span_lt (hcommon : common <+: tokens)
    (hgroups : groupsOf groupSize groupSize_pos tokens = before ++ group :: after)
    (hbegin : ∀ position item, BeginsAt (group.map .whole) position item →
      itemsSpan (before.flatten.map .whole) + position < itemsSpan (common.map .whole)) :
    (before ++ [group]).flatten.length ≤ common.length := by
  have hne : group ≠ [] := List.ne_nil_of_length_pos (length_of_groupsOf_eq hgroups).1
  obtain ⟨front, last, rfl⟩ : ∃ front last, group = front ++ [last] :=
    ⟨group.dropLast, group.getLast hne, (List.dropLast_append_getLast hne).symm⟩
  have hlt := hbegin _ _ ⟨front.map .whole, [], List.map_append, rfl⟩
  obtain ⟨rest, hrest⟩ := hcommon
  have htokens : (groupsOf groupSize groupSize_pos tokens).flatten = tokens :=
    flatten_groupsOf tokens
  rw [hgroups] at htokens
  have hsplit : common ++ rest = (before.flatten ++ front) ++ last :: after.flatten := by
    rw [hrest, ← htokens]
    simp
  have hitems := congrArg (List.map Item.whole) hsplit
  rw [List.map_append, List.map_append, List.map_cons] at hitems
  rw [← itemsSpan_append, ← List.map_append] at hlt
  have hlength := length_lt_of_span_lt hitems hlt
  rw [List.length_map, List.length_map] at hlength
  simp only [List.flatten_append, List.flatten_singleton, List.length_append,
    List.length_singleton] at hlength ⊢
  omega

theorem exists_groupsOf_eq_of_common (hcommon : common <+: tokens) (hcommon' : common <+: tokens')
    (hgroups : groupsOf groupSize groupSize_pos tokens = before ++ group :: after)
    (hfull : group.length = groupSize)
    (hle : (before ++ [group]).flatten.length ≤ common.length) :
    ∃ after', groupsOf groupSize groupSize_pos tokens' = before ++ group :: after' := by
  have hall : ∀ g ∈ before ++ [group], g.length = groupSize := by
    intro g hg
    rcases List.mem_append.mp hg with hg | hg
    · obtain ⟨front, back, rfl⟩ := List.append_of_mem hg
      rw [List.append_assoc, List.cons_append] at hgroups
      exact (length_of_groupsOf_eq hgroups).2.2 (by simp)
    · rw [List.mem_singleton.mp hg, hfull]
  have htokens : (groupsOf groupSize groupSize_pos tokens).flatten = tokens :=
    flatten_groupsOf tokens
  rw [hgroups] at htokens
  have hprefix : (before ++ [group]).flatten <+: tokens :=
    ⟨after.flatten, by rw [← htokens]; simp⟩
  obtain ⟨rest, hrest⟩ := (List.prefix_of_prefix_length_le hprefix hcommon hle).trans hcommon'
  refine ⟨groupsOf groupSize groupSize_pos rest, ?_⟩
  rw [← hrest, groupsOf_flatten_append hall]
  simp

end

/-- A full group that begins in what two parses have in common is a group of both streams. -/
theorem exists_streamGroups_eq_of_common {params : LzssParams} {data data' : Bytes}
    {common : List Token} {before after : List StreamGroup} {group : StreamGroup}
    (hcommon : common <+: greedyParse params data 0)
    (hcommon' : common <+: greedyParse params data' 0)
    (hgroups : streamGroups (greedyStream params data) = before ++ group :: after)
    (hfull : group.items.length = groupSize)
    (hbegin : ∀ position item, BeginsAt group.items position item →
      itemsSpan (before.flatMap StreamGroup.items) + position < itemsSpan (common.map .whole)) :
    ∃ after', streamGroups (greedyStream params data') = before ++ group :: after' := by
  rw [streamGroups_greedyStream] at hgroups
  obtain ⟨before, rest, htokens, rfl, hrest⟩ := List.map_eq_append_iff.mp hgroups
  obtain ⟨group, after, rfl, rfl, rfl⟩ := List.map_eq_cons_iff.mp hrest
  rw [flatMap_items_tokenGroup] at hbegin
  have hlength : group.length = groupSize := by rwa [tokenGroup, List.length_map] at hfull
  have hle := length_flatten_le_of_span_lt hcommon htokens hbegin
  obtain ⟨after', htokens'⟩ := exists_groupsOf_eq_of_common hcommon hcommon' htokens hlength hle
  refine ⟨after'.map tokenGroup, ?_⟩
  rw [streamGroups_greedyStream, htokens', List.map_append, List.map_cons]

theorem prefix_of_streamGroups_eq {stream : Bytes} {before : List StreamGroup} {group : StreamGroup}
    (h : ∃ after, streamGroups stream = before ++ group :: after) :
    (before ++ [group]).flatMap StreamGroup.bytes <+: stream := by
  obtain ⟨after, hgroups⟩ := h
  have hbytes := flatMap_bytes_streamGroups stream
  rw [hgroups] at hbytes
  exact ⟨after.flatMap StreamGroup.bytes, by rw [← hbytes]; simp⟩

/-- Bytes that are appended to a text leave every token alone that begins a lookahead or more before
them. So the two streams have the same full groups of such tokens, byte for byte and in the same
places. -/
theorem lzssEncode_append_keeps_tokens (params : LzssParams) (data more : Bytes) :
    ∃ stream stream', lzssEncode params data = .ok stream ∧
      lzssEncode params (data ++ more) = .ok stream' ∧
      streamItems stream = (greedyParse params data 0).map .whole ∧
      streamItems stream' = (greedyParse params (data ++ more) 0).map .whole ∧
      (∀ position item, position + params.lookahead ≤ data.length →
        (BeginsAt (streamItems stream) position item ↔
          BeginsAt (streamItems stream') position item)) ∧
      ∀ before group, group.items.length = 8 →
        (∀ position item, BeginsAt group.items position item →
          itemsSpan (before.flatMap StreamGroup.items) + position + params.lookahead ≤
            data.length) →
        ((∃ after, streamGroups stream = before ++ group :: after) ↔
          ∃ after, streamGroups stream' = before ++ group :: after) ∧
        ((∃ after, streamGroups stream = before ++ group :: after) →
          (before ++ [group]).flatMap StreamGroup.bytes <+: stream ∧
            (before ++ [group]).flatMap StreamGroup.bytes <+: stream') := by
  obtain ⟨common, rest, rest', hparse, hparse', hend⟩ :=
    exists_common_greedyParse params data more 0
  rw [Nat.zero_add] at hend
  have hitems := streamItems_greedyStream params data
  have hitems' := streamItems_greedyStream params (data ++ more)
  refine ⟨greedyStream params data, greedyStream params (data ++ more),
    lzssEncode_eq_greedyStream _ _, lzssEncode_eq_greedyStream _ _, hitems, hitems', ?_, ?_⟩
  · intro position item hroom
    have hlt : position < itemsSpan (common.map .whole) := by omega
    rw [hitems, hitems', hparse, hparse', List.map_append, List.map_append]
    exact ⟨fun h => h.of_common hlt, fun h => h.of_common hlt⟩
  · intro before group hfull hroom
    have hcommon : common <+: greedyParse params data 0 := ⟨rest, hparse.symm⟩
    have hcommon' : common <+: greedyParse params (data ++ more) 0 := ⟨rest', hparse'.symm⟩
    have hbegin : ∀ position item, BeginsAt group.items position item →
        itemsSpan (before.flatMap StreamGroup.items) + position <
          itemsSpan (common.map .whole) := by
      intro position item hitem
      have := hroom position item hitem
      omega
    have hsame : (∃ after, streamGroups (greedyStream params data) = before ++ group :: after) ↔
        ∃ after, streamGroups (greedyStream params (data ++ more)) = before ++ group :: after :=
      ⟨fun ⟨_, h⟩ => exists_streamGroups_eq_of_common hcommon hcommon' h hfull hbegin,
        fun ⟨_, h⟩ => exists_streamGroups_eq_of_common hcommon' hcommon h hfull hbegin⟩
    exact ⟨hsame, fun h => ⟨prefix_of_streamGroups_eq h, prefix_of_streamGroups_eq (hsame.mp h)⟩⟩

end Compression
