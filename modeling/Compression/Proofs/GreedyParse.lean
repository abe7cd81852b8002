import Compression.Proofs.LzssRoundTrip
import Compression.Proofs.StreamGroups

namespace Compression

/-- How many bytes of text an item stands for. -/
def Item.span : Item → Nat
  | .whole t => t.span
  | .cut _ => 0

def itemsSpan : List Item → Nat
  | [] => 0
  | item :: items => item.span + itemsSpan items

theorem itemsSpan_append (xs ys : List Item) :
    itemsSpan (xs ++ ys) = itemsSpan xs + itemsSpan ys := by
  induction xs with
  | nil => simp [itemsSpan]
  | cons item xs ih =>
    rw [List.cons_append, itemsSpan, itemsSpan, ih]
    omega

/-- An item of the list has items before it that stand for `position` bytes of text. -/
def BeginsAt (items : List Item) (position : Nat) (item : Item) : Prop :=
  ∃ before after, items = before ++ item :: after ∧ itemsSpan before = position

theorem beginsAt_cons {first item : Item} {items : List Item} {position : Nat}
    (h : BeginsAt (first :: items) position item) :
    (position = 0 ∧ item = first) ∨
      ∃ q, position = first.span + q ∧ BeginsAt items q item := by
  obtain ⟨before, after, heq, rfl⟩ := h
  cases before with
  | nil => exact .inl ⟨rfl, (List.cons.inj heq).1.symm⟩
  | cons x before =>
    obtain ⟨rfl, hrest⟩ := List.cons.inj heq
    exact .inr ⟨itemsSpan before, rfl, before, after, hrest, rfl⟩

/-- The token for a position: the best match there, or else the next byte. -/
def tokenAt? (params : LzssParams) (data : Bytes) (position : Nat) : Option Token :=
  data[position]?.map fun b =>
    match findMatch params (.at params.windowSize data position) with
    | some m => .copy m
    | none => .literal b

/-- A copy that the parameters allow behind `position` bytes of text. -/
def Match.Allowed (params : LzssParams) (position : Nat) (m : Match) : Prop :=
  (1 ≤ m.offset ∧ m.offset ≤ min params.windowSize position) ∧
    params.minMatch ≤ m.length ∧ m.length ≤ params.lookahead

def Token.Allowed (params : LzssParams) (position : Nat) : Token → Prop
  | .literal _ => True
  | .copy m => m.Allowed params position

section

variable {params : LzssParams} {data : Bytes} {position : Nat}

theorem LongestMatch.allowed {m : Match} (h : LongestMatch params data position (some m)) :
    m.Allowed params position ∧ m.length ≤ data.length - position := by
  obtain ⟨hlong, j, ⟨hlow, hhigh⟩, hoffset, ⟨hlimit, hroom, _⟩, _, _⟩ := h
  exact ⟨⟨⟨by omega, by omega⟩, hlong, hlimit⟩, hroom⟩

theorem Token.Allowed.span_pos {t : Token} (h : t.Allowed params position) : 1 ≤ t.span := by
  cases t with
  | literal b => exact le_rfl
  | copy m => exact params.minMatch_range.1.trans h.2.1

theorem Token.Allowed.storable {t : Token} (h : t.Allowed params position) : t.Storable := by
  cases t with
  | literal b => trivial
  | copy m =>
    obtain ⟨⟨_, hoffset⟩, _, hlength⟩ := h
    have hwindow := params.windowSize_range
    have hlookahead := params.lookahead_range
    exact ⟨by omega, by omega⟩

theorem lt_length_of_tokenAt? {t : Token} (h : tokenAt? params data position = some t) :
    position < data.length := by
  obtain ⟨b, hb, _⟩ := Option.map_eq_some_iff.mp h
  exact (List.getElem?_eq_some_iff.mp hb).1

theorem tokenAt?_eq_none (h : tokenAt? params data position = none) :
    data.length ≤ position := by
  rw [tokenAt?, Option.map_eq_none_iff] at h
  exact List.getElem?_eq_none_iff.mp h

theorem tokenAt?_allowed {t : Token} (h : tokenAt? params data position = some t) :
    t.Allowed params position ∧ position + t.span ≤ data.length := by
  have hlt := lt_length_of_tokenAt? h
  have hlongest := scanMatch_longest params data position
  obtain ⟨b, _, rfl⟩ := Option.map_eq_some_iff.mp h
  rw [← findMatch_eq_scanMatch] at hlongest
  split
  next m hm =>
    rw [hm] at hlongest
    obtain ⟨hallowed, hroom⟩ := hlongest.allowed
    refine ⟨hallowed, ?_⟩
    rw [Token.span]
    omega
  next => exact ⟨trivial, hlt⟩

end

/-- The tokens from a position on, each for the position at which the one before it ends. -/
def greedyParse (params : LzssParams) (data : Bytes) (position : Nat) : List Token :=
  match _h : tokenAt? params data position with
  | none => []
  | some t => t :: greedyParse params data (position + t.span)
termination_by data.length - position
decreasing_by
  have hlt := lt_length_of_tokenAt? _h
  have hpos := (tokenAt?_allowed _h).1.span_pos
  omega

section

variable {params : LzssParams} {data : Bytes} {position : Nat}

theorem greedyParse_of_none (h : tokenAt? params data position = none) :
    greedyParse params data position = [] := by
  rw [greedyParse]
  split
  next => rfl
  next t ht => cases h.symm.trans ht

theorem greedyParse_of_some {t : Token} (h : tokenAt? params data position = some t) :
    greedyParse params data position = t :: greedyParse params data (position + t.span) := by
  rw [greedyParse]
  split
  next hnone => cases h.symm.trans hnone
  next u hu =>
    obtain rfl := Option.some.inj (h.symm.trans hu)
    rfl

theorem getElem?_of_drop {b : UInt8} {rest : Bytes} (h : data.drop position = b :: rest) :
    data[position]? = some b := by
  rw [← List.head?_drop, h]
  rfl

/-- The tokens of the encoder, which moves a cursor and puts the latest token first. -/
theorem greedyTokens_eq_greedyParse {c : Cursor} (done : List Token)
    (hc : c = .at params.windowSize data position) :
    greedyTokens params c done = done.reverse ++ greedyParse params data position := by
  fun_induction greedyTokens params c done generalizing position with
  | case1 c done hend =>
    subst hc
    rw [Cursor.at_here, List.drop_eq_nil_iff] at hend
    have hnone : tokenAt? params data position = none := by
      rw [tokenAt?, List.getElem?_eq_none hend]
      rfl
    rw [greedyParse_of_none hnone, List.append_nil]
  | case2 c done b rest hhere m hm ih =>
    subst hc
    rw [Cursor.at_here] at hhere
    have htoken : tokenAt? params data position = some (.copy m) := by
      rw [tokenAt?, getElem?_of_drop hhere, Option.map_some, hm]
    rw [ih (Cursor.advance_at ..), greedyParse_of_some htoken, List.reverse_cons,
      List.append_assoc]
    rfl
  | case3 c done b rest hhere hm ih =>
    subst hc
    rw [Cursor.at_here] at hhere
    have htoken : tokenAt? params data position = some (.literal b) := by
      rw [tokenAt?, getElem?_of_drop hhere, Option.map_some, hm]
    rw [ih (Cursor.advance_at ..), greedyParse_of_some htoken, List.reverse_cons,
      List.append_assoc]
    rfl

theorem itemsSpan_greedyParse (params : LzssParams) (h : position ≤ data.length) :
    position + itemsSpan ((greedyParse params data position).map .whole) = data.length := by
  fun_induction greedyParse params data position with
  | case1 position hnone =>
    have hend := tokenAt?_eq_none hnone
    rw [List.map_nil, itemsSpan]
    omega
  | case2 position t hsome ih =>
    have hspan := ih (tokenAt?_allowed hsome).2
    rw [List.map_cons, itemsSpan, Item.span]
    omega

/-- Every token of the parse is the token for the position at which it begins. -/
theorem tokenAt?_of_beginsAt {q : Nat} {t : Token}
    (h : BeginsAt ((greedyParse params data position).map .whole) q (.whole t)) :
    tokenAt? params data (position + q) = some t := by
  fun_induction greedyParse params data position generalizing q with
  | case1 =>
    obtain ⟨before, after, heq, _⟩ := h
    simp at heq
  | case2 position u hsome ih =>
    rw [List.map_cons] at h
    obtain ⟨rfl, heq⟩ | ⟨r, rfl, hrest⟩ := beginsAt_cons h
    · cases heq
      exact hsome
    · rw [Item.span, ← Nat.add_assoc]
      exact ih hrest

theorem storable_of_mem_greedyParse {t : Token} (h : t ∈ greedyParse params data position) :
    t.Storable := by
  obtain ⟨before, after, heq⟩ := List.append_of_mem h
  have hbegins : BeginsAt ((greedyParse params data position).map .whole)
      (itemsSpan (before.map .whole)) (.whole t) :=
    ⟨before.map .whole, after.map .whole, by rw [heq]; simp, rfl⟩
  exact (tokenAt?_allowed (tokenAt?_of_beginsAt hbegins)).1.storable

end

/-- The stream of a text, written group by group. -/
def greedyStream (params : LzssParams) (data : Bytes) : Bytes :=
  (groupsOf groupSize groupSize_pos (greedyParse params data 0)).flatMap groupFieldBytes

theorem lzssEncode_eq_greedyStream (params : LzssParams) (data : Bytes) :
    lzssEncode params data = .ok (greedyStream params data) := by
  have hstart := greedyTokens_eq_greedyParse []
    (Cursor.start_eq_at params.windowSize data)
  rw [List.reverse_nil, List.nil_append] at hstart
  rw [lzssEncode, hstart, tokenStream_eq fun t ht => storable_of_mem_greedyParse ht]
  rfl

theorem streamGroups_greedyStream (params : LzssParams) (data : Bytes) :
    streamGroups (greedyStream params data) =
      (groupsOf groupSize groupSize_pos (greedyParse params data 0)).map tokenGroup :=
  streamGroups_of_tokens fun _ ht => storable_of_mem_greedyParse ht

theorem streamItems_greedyStream (params : LzssParams) (data : Bytes) :
    streamItems (greedyStream params data) = (greedyParse params data 0).map .whole := by
  rw [streamItems_eq_flatMap, streamGroups_greedyStream, flatMap_items_tokenGroup,
    flatten_groupsOf]

/-- A stream is read back as the greedy parse of the text: its items are the best matches, or else
the bytes, at the positions that they reach, and its groups are full but for the last, whose other
flags are zero. -/
theorem lzssEncode_writes_greedyParse (params : LzssParams) (data : Bytes) :
    ∃ stream, lzssEncode params data = .ok stream ∧
      streamItems stream = (streamGroups stream).flatMap StreamGroup.items ∧
      streamItems stream = (greedyParse params data 0).map .whole ∧
      itemsSpan (streamItems stream) = data.length ∧
      (∀ position m, BeginsAt (streamItems stream) position (.whole (.copy m)) →
        (1 ≤ m.offset ∧ m.offset ≤ min params.windowSize position) ∧
          params.minMatch ≤ m.length ∧ m.length ≤ params.lookahead) ∧
      (∀ before group after, streamGroups stream = before ++ group :: after →
        (1 ≤ group.items.length ∧ group.items.length ≤ 8) ∧
          (after ≠ [] → group.items.length = 8) ∧
          ∀ i, group.items.length ≤ i → group.flags.toNat.testBit i = false) ∧
      (data = [] → stream = []) := by
  have hitems := streamItems_greedyStream params data
  refine ⟨greedyStream params data, lzssEncode_eq_greedyStream params data,
    streamItems_eq_flatMap _, hitems, ?_, ?_, ?_, ?_⟩
  · have hspan := itemsSpan_greedyParse params (Nat.zero_le data.length)
    rwa [hitems, ← Nat.zero_add (itemsSpan _)]
  · intro position m hbegins
    rw [hitems] at hbegins
    have htoken := tokenAt?_of_beginsAt hbegins
    rw [Nat.zero_add] at htoken
    exact (tokenAt?_allowed htoken).1
  · intro before group after heq
    rw [streamGroups_greedyStream] at heq
    obtain ⟨before, rest, hgroups, rfl, hrest⟩ := List.map_eq_append_iff.mp heq
    obtain ⟨group, after, rfl, rfl, rfl⟩ := List.map_eq_cons_iff.mp hrest
    obtain ⟨hpos, hle, hfull⟩ := length_of_groupsOf_eq hgroups
    have hlength : (tokenGroup group).items.length = group.length := List.length_map _
    rw [hlength]
    refine ⟨⟨hpos, hle⟩, fun hne => hfull fun hnil => hne (by rw [hnil]; rfl), ?_⟩
    exact fun i hi => flagByte_testBit hle hi
  · rintro rfl
    have hnone : tokenAt? params [] 0 = none := rfl
    rw [greedyStream, greedyParse_of_none hnone, groupsOf]
    rfl

end Compression
