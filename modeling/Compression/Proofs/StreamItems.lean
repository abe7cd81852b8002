import Compression.Failure
import Mathlib.Data.List.Induction

namespace Compression

/-- What stands in a stream behind its flags. -/
inductive Item where
  | whole (t : Token)
  /-- A copy of which only so many bytes are left. -/
  | cut (available : Nat)

/-- The item at the front of a stream, and what follows it. -/
def nextItem? (isCopy : Bool) : Bytes → Option (Item × Bytes)
  | [] => none
  | b :: rest =>
    if isCopy then
      match rest with
      | high :: length :: rest =>
        some (.whole (.copy ⟨b.toNat + 256 * high.toNat, length.toNat⟩), rest)
      | _ => some (.cut (rest.length + 1), [])
    else some (.whole (.literal b), rest)

/-- The items that the flags of a group tell of, as far as the stream goes, and what follows
them. -/
def groupItems : List Bool → Bytes → List Item × Bytes
  | [], stream => ([], stream)
  | flag :: flags, stream =>
    match nextItem? flag stream with
    | none => ([], [])
    | some (item, rest) =>
      let group := groupItems flags rest
      (item :: group.1, group.2)

/-- The lowest `count` bits of a number, the lowest first. -/
def lowBits (count n : Nat) : List Bool :=
  (List.range count).map n.testBit

theorem length_nextItem? {isCopy : Bool} {stream rest : Bytes} {item : Item}
    (h : nextItem? isCopy stream = some (item, rest)) : rest.length ≤ stream.length := by
  unfold nextItem? at h
  split at h
  next => cases h
  next b tail =>
    split at h
    next =>
      split at h
      next => cases h; simp only [List.length_cons]; omega
      next => cases h; simp
    next => cases h; simp

theorem length_groupItems (flags : List Bool) (stream : Bytes) :
    (groupItems flags stream).2.length ≤ stream.length := by
  induction flags generalizing stream with
  | nil => simp [groupItems]
  | cons flag flags ih =>
    rw [groupItems]
    split
    next => simp
    next item rest hnext => exact Nat.le_trans (ih rest) (length_nextItem? hnext)

/-- The items of a stream: groups of one byte of flags and up to eight items, to the end. -/
def streamItems : Bytes → List Item
  | [] => []
  | flags :: rest =>
    let group := groupItems (lowBits groupSize flags.toNat) rest
    group.1 ++ streamItems group.2
termination_by stream => stream.length
decreasing_by
  have := length_groupItems (lowBits groupSize flags.toNat) rest
  simp only [List.length_cons]
  omega

/-- The last `offset` bytes of a text over and over, `length` bytes in all. -/
def repetition (text : Bytes) (offset length : Nat) : Bytes :=
  (List.range length).map fun k => text[text.length - offset + k % offset]?.getD 0

def Item.append (text : Bytes) : Item → Bytes
  | .whole (.literal byte) => text ++ [byte]
  | .whole (.copy m) => text ++ repetition text m.offset m.length
  | .cut _ => text

/-- A copy is whole, not empty, and begins inside of the text before it. -/
def Item.Sound (text : Bytes) : Item → Prop
  | .whole (.literal _) => True
  | .whole (.copy m) => 1 ≤ m.offset ∧ 1 ≤ m.length ∧ m.offset ≤ text.length
  | .cut _ => False

/-- What is reported of an item that is not sound in a stream of `size` bytes. -/
def Item.fault? (size : Nat) (text : Bytes) : Item → Option LzssError
  | .whole (.literal _) => none
  | .whole (.copy m) =>
    if 1 ≤ m.offset ∧ 1 ≤ m.length ∧ m.offset ≤ text.length then none
    else some (.badCopy m.offset m.length text.length)
  | .cut available => some (.cutCopy (size - available) available)

def Item.faultCode : Item → ErrorCode
  | .whole _ => .corrupt
  | .cut _ => .truncated

/-- The text of items, one after the other. -/
def itemsText (items : List Item) : Bytes :=
  items.foldl Item.append []

/-- Every item is sound behind the text of those before it. -/
def SoundItems (items : List Item) : Prop :=
  ∀ before item after, items = before ++ item :: after → item.Sound (itemsText before)

/-- Adds the items to a text one by one, up to the first that is not sound. -/
def addItems (size : Nat) : Bytes → List Item → Except LzssError Bytes
  | text, [] => .ok text
  | text, item :: items =>
    match item.fault? size text with
    | some e => .error e
    | none => addItems size (item.append text) items

theorem Item.fault?_eq_none_iff (size : Nat) {text : Bytes} {item : Item} :
    item.fault? size text = none ↔ item.Sound text := by
  match item with
  | .whole (.literal _) => simp [fault?, Sound]
  | .whole (.copy _) => simp [fault?, Sound]
  | .cut _ => simp [fault?, Sound]

theorem Item.code?_of_fault? {size : Nat} {text : Bytes} {item : Item} {e : LzssError}
    (h : item.fault? size text = some e) : e.code? = some item.faultCode := by
  match item with
  | .whole (.literal _) => cases h
  | .whole (.copy _) =>
    rw [fault?] at h
    split at h
    next => cases h
    next => cases h; rfl
  | .cut _ => cases h; rfl

theorem addItems_append (size : Nat) (text : Bytes) (before after : List Item) :
    addItems size text (before ++ after) =
      (addItems size text before).bind fun text => addItems size text after := by
  induction before generalizing text with
  | nil => rfl
  | cons item before ih =>
    rw [List.cons_append, addItems, addItems]
    cases item.fault? size text with
    | none => exact ih _
    | some e => rfl

theorem SoundItems.of_append {before after : List Item} (h : SoundItems (before ++ after)) :
    SoundItems before := by
  rintro front item rest rfl
  exact h front item (rest ++ after) (by simp)

theorem addItems_of_sound (size : Nat) {items : List Item} (h : SoundItems items) :
    addItems size [] items = .ok (itemsText items) := by
  -- The last item is sound behind the text of all the others.
  induction items using List.reverseRecOn with
  | nil => rfl
  | append_singleton before item ih =>
    have hsound : item.Sound (itemsText before) := h before item [] rfl
    have hfault := (Item.fault?_eq_none_iff size).mpr hsound
    have htext : itemsText (before ++ [item]) = item.append (itemsText before) := by
      simp [itemsText]
    rw [addItems_append, ih h.of_append, htext]
    simp [Except.bind, addItems, hfault]

/-- The first item that is not sound decides what is reported. -/
theorem addItems_of_fault (size : Nat) {before : List Item} {item : Item} (after : List Item)
    (h : SoundItems before) (hitem : ¬ item.Sound (itemsText before)) :
    ∃ e, addItems size [] (before ++ item :: after) = .error e ∧
      item.fault? size (itemsText before) = some e := by
  obtain ⟨e, he⟩ := Option.ne_none_iff_exists'.mp
    (mt (Item.fault?_eq_none_iff size).mp hitem)
  refine ⟨e, ?_, he⟩
  rw [addItems_append, addItems_of_sound size h]
  simp [Except.bind, addItems, he]

theorem exists_fault_of_not_sound {items : List Item} (h : ¬ SoundItems items) :
    ∃ before item after, items = before ++ item :: after ∧ SoundItems before ∧
      ¬ item.Sound (itemsText before) := by
  induction items using List.reverseRecOn with
  | nil => exact absurd (fun before item after hnil => by simp at hnil) h
  | append_singleton items last ih =>
    by_cases hitems : SoundItems items
    · refine ⟨items, last, [], rfl, hitems, fun hlast => h ?_⟩
      intro before item after heq
      rcases List.eq_nil_or_concat after with rfl | ⟨rest, x, rfl⟩
      · obtain ⟨rfl, hx⟩ := List.append_inj' heq rfl
        cases hx
        exact hlast
      · rw [List.concat_eq_append, ← List.cons_append, ← List.append_assoc] at heq
        exact hitems before item rest (List.append_inj_left' heq rfl)
    · obtain ⟨before, item, after, rfl, hbefore, hitem⟩ := ih hitems
      exact ⟨before, item, after ++ [last], by simp, hbefore, hitem⟩

/-- Behind its first byte a repetition goes on as that of the text with this byte added. -/
theorem repetition_succ {text : Bytes} {offset : Nat} {b : UInt8} (h : 1 ≤ offset)
    (hin : offset ≤ text.length) (hb : text[text.length - offset]? = some b) (length : Nat) :
    repetition text offset (length + 1) = b :: repetition (text ++ [b]) offset length := by
  have hnext : ∀ k, text[text.length - offset + (k + 1) % offset]? =
      (text ++ [b])[text.length + 1 - offset + k % offset]? := by
    intro k
    have hk : k % offset < offset := Nat.mod_lt k h
    have hsucc : k + 1 = offset * (k / offset) + (k % offset + 1) := by
      have := Nat.div_add_mod k offset
      omega
    by_cases hlast : k % offset + 1 = offset
    · have hwrap : (k + 1) % offset = 0 := by
        rw [hsucc, hlast, Nat.mul_add_mod, Nat.mod_self]
      have hplace : text.length + 1 - offset + k % offset = text.length := by omega
      rw [hwrap, hplace, Nat.add_zero, hb, List.getElem?_concat_length]
    · have hstep : (k + 1) % offset = k % offset + 1 := by
        rw [hsucc, Nat.mul_add_mod, Nat.mod_eq_of_lt (by omega)]
      have hplace : text.length + 1 - offset + k % offset =
          text.length - offset + (k % offset + 1) := by omega
      rw [hstep, hplace, List.getElem?_append_left (by omega)]
  rw [repetition, List.range_succ_eq_map, List.map_cons, Nat.zero_mod, Nat.add_zero, hb,
    List.map_map]
  refine congrArg (b :: ·) (List.map_congr_left fun k _ => ?_)
  simp [hnext]

/-- Copying byte by byte, also past the end of the text, adds a repetition. -/
theorem toList_copyBack {offset : Nat} (length : Nat) {out : Array UInt8} (h : 1 ≤ offset)
    (hin : offset ≤ out.size) :
    (copyBack offset length out).toList = out.toList ++ repetition out.toList offset length := by
  induction length generalizing out with
  | zero => simp [copyBack, repetition]
  | succ length ih =>
    have hlt : out.size - offset < out.size := by omega
    have hb : out.toList[out.toList.length - offset]? = some out[out.size - offset] := by
      simp [hlt]
    have hget : out.getD (out.size - offset) 0 = out[out.size - offset] := by
      simp [Array.getD_eq_getD_getElem?, hlt]
    rw [copyBack, hget, ih (by rw [Array.size_push]; omega), Array.toList_push,
      repetition_succ h (by simpa using hin) hb, List.append_assoc, List.singleton_append]

example : (copyBack 2 5 #[97, 98, 99]).toList = [97, 98, 99] ++ [98, 99, 98, 99, 98] := by decide

theorem lowBits_succ (count n : Nat) :
    lowBits (count + 1) n = decide (n % 2 = 1) :: lowBits count (n / 2) := by
  simp [lowBits, List.range_succ_eq_map, Nat.testBit_succ, Function.comp_def]

/-- The items to come when `count` more of them may follow in a group, as `flags` tell. -/
def itemsAhead (count flags : Nat) (stream : Bytes) : List Item :=
  let group := groupItems (lowBits count flags) stream
  group.1 ++ streamItems group.2

theorem itemsAhead_nil (count flags : Nat) : itemsAhead count flags [] = [] := by
  cases count with
  | zero => simp [itemsAhead, lowBits, groupItems, streamItems]
  | succ count => simp [itemsAhead, lowBits_succ, groupItems, nextItem?, streamItems]

theorem itemsAhead_zero (flags : Nat) (b : UInt8) (rest : Bytes) :
    itemsAhead 0 flags (b :: rest) = itemsAhead groupSize b.toNat rest := by
  simp [itemsAhead, lowBits, groupItems, streamItems]

theorem itemsAhead_succ {count flags : Nat} {stream rest : Bytes} {item : Item}
    (h : nextItem? (decide (flags % 2 = 1)) stream = some (item, rest)) :
    itemsAhead (count + 1) flags stream = item :: itemsAhead count (flags / 2) rest := by
  simp [itemsAhead, lowBits_succ, groupItems, h]

/-- A stream is decoded as its items tell. -/
theorem decodeItems_eq_addItems {stream : Bytes} {position count flags size : Nat}
    {out : Array UInt8} (hsize : position + stream.length = size) :
    decodeItems stream position count flags out =
      (addItems size out.toList (itemsAhead count flags stream)).map List.toArray := by
  fun_induction decodeItems stream position count flags out with
  | case1 => simp [itemsAhead_nil, addItems, Except.map]
  | case2 position flags out b rest ih =>
    rw [itemsAhead_zero]
    exact ih (by rw [← hsize, List.length_cons]; omega)
  | case3 b rest position count flags out hflag ih =>
    have hnext : nextItem? (decide (flags % 2 = 1)) (b :: rest) =
        some (.whole (.literal b), rest) := by simp [nextItem?, hflag]
    rw [itemsAhead_succ hnext, addItems]
    simpa [Item.fault?, Item.append] using ih (by rw [← hsize, List.length_cons]; omega)
  | case4 b position count flags out hflag high len rest offset length hbad =>
    have hnext : nextItem? (decide (flags % 2 = 1)) (b :: high :: len :: rest) =
        some (.whole (.copy ⟨offset, length⟩), rest) := by
      rw [decide_eq_true (by omega)]; rfl
    have hfault : (Item.whole (.copy ⟨offset, length⟩)).fault? size out.toList =
        some (.badCopy offset length out.size) := by
      rw [Item.fault?, if_neg (by simp only [Array.length_toList]; omega), Array.length_toList]
    rw [itemsAhead_succ hnext, addItems, hfault]
    rfl
  | case5 b position count flags out hflag high len rest offset length hgood ih =>
    have hnext : nextItem? (decide (flags % 2 = 1)) (b :: high :: len :: rest) =
        some (.whole (.copy ⟨offset, length⟩), rest) := by
      rw [decide_eq_true (by omega)]; rfl
    have hfault : (Item.whole (.copy ⟨offset, length⟩)).fault? size out.toList = none := by
      rw [Item.fault?, if_pos (by simp only [Array.length_toList]; omega)]
    rw [itemsAhead_succ hnext, addItems, hfault, ih (by simp at hsize; omega),
      toList_copyBack length (by omega) (by omega)]
    rfl
  | case6 b rest position count flags out hflag hshort =>
    have hnext : nextItem? (decide (flags % 2 = 1)) (b :: rest) =
        some (.cut (rest.length + 1), []) := by
      rw [decide_eq_true (by omega), nextItem?, if_pos rfl]
      exact hshort
    rw [itemsAhead_succ hnext, addItems, Item.fault?]
    simp only [List.length_cons] at hsize
    simp [Except.map, ← hsize]

theorem lzssDecode_eq_addItems (stream : Bytes) :
    lzssDecode stream = addItems stream.length [] (streamItems stream) := by
  have hahead : itemsAhead 0 0 stream = streamItems stream := by
    simp [itemsAhead, lowBits, groupItems]
  rw [lzssDecode, decodeItems_eq_addItems (Nat.zero_add _), hahead]
  cases addItems stream.length [] (streamItems stream) <;> rfl

theorem lzssDecode_of_not_sound {stream : Bytes} (h : ¬ SoundItems (streamItems stream)) :
    ∃ text item e, lzssDecode stream = .error e ∧
      Item.fault? stream.length text item = some e := by
  obtain ⟨before, item, after, heq, hbefore, hitem⟩ := exists_fault_of_not_sound h
  obtain ⟨e, herror, hfault⟩ := addItems_of_fault stream.length after hbefore hitem
  rw [← heq, ← lzssDecode_eq_addItems] at herror
  exact ⟨itemsText before, item, e, herror, hfault⟩

theorem size_copyBack (offset length : Nat) (out : Array UInt8) :
    (copyBack offset length out).size = out.size + length := by
  induction length generalizing out with
  | zero => rfl
  | succ length ih => rw [copyBack, ih, Array.size_push]; omega

/-- A copy of three bytes gives no more than 255, and no other byte of a stream gives more than
one. -/
theorem size_le_of_decodeItems {stream : Bytes} {position count flags : Nat}
    {out text : Array UInt8}
    (h : decodeItems stream position count flags out = .ok text) :
    text.size ≤ out.size + 85 * stream.length := by
  fun_induction decodeItems stream position count flags out with
  | case1 => cases h; simp
  | case2 position flags out b rest ih =>
    have := ih h
    rw [List.length_cons]
    omega
  | case3 b rest position count flags out hflag ih =>
    have := ih h
    rw [Array.size_push] at this
    rw [List.length_cons]
    omega
  | case4 => cases h
  | case5 b position count flags out hflag high len rest offset length hgood ih =>
    have := ih h
    have hlength : length < 256 := len.toNat_lt
    rw [size_copyBack] at this
    simp only [List.length_cons]
    omega
  | case6 => cases h

/-- Decoding is reading the stream item by item. If all items are sound, their text is the answer;
otherwise the first that is not decides: the stream is truncated if it is a copy that is cut, and
corrupt if not. The text is at most 85 times as long as the stream. -/
theorem lzssDecode_reads_items (stream : Bytes) :
    (SoundItems (streamItems stream) →
      lzssDecode stream = .ok (itemsText (streamItems stream))) ∧
    (∀ before item after, streamItems stream = before ++ item :: after → SoundItems before →
      ¬ item.Sound (itemsText before) →
      ∃ e, lzssDecode stream = .error e ∧ item.fault? stream.length (itemsText before) = some e ∧
        e.code? = some item.faultCode) ∧
    (∀ e, lzssDecode stream = .error e → ¬ SoundItems (streamItems stream) ∧
      (e.code? = some .truncated ∨ e.code? = some .corrupt)) ∧
    ∀ out, lzssDecode stream = .ok out → out.length ≤ 85 * stream.length := by
  have hsound : SoundItems (streamItems stream) →
      lzssDecode stream = .ok (itemsText (streamItems stream)) := by
    intro h
    rw [lzssDecode_eq_addItems, addItems_of_sound _ h]
  have hfault : ∀ before item after, streamItems stream = before ++ item :: after →
      SoundItems before → ¬ item.Sound (itemsText before) →
      ∃ e, lzssDecode stream = .error e ∧ item.fault? stream.length (itemsText before) = some e ∧
        e.code? = some item.faultCode := by
    intro before item after heq hbefore hitem
    obtain ⟨e, herror, he⟩ := addItems_of_fault stream.length after hbefore hitem
    rw [← heq, ← lzssDecode_eq_addItems] at herror
    exact ⟨e, herror, he, Item.code?_of_fault? he⟩
  refine ⟨hsound, hfault, ?_, ?_⟩
  · intro e he
    have hnot : ¬ SoundItems (streamItems stream) := by
      intro h
      rw [hsound h] at he
      cases he
    obtain ⟨before, item, after, heq, hbefore, hitem⟩ := exists_fault_of_not_sound hnot
    obtain ⟨e', he', _, hcode⟩ := hfault before item after heq hbefore hitem
    obtain rfl : e' = e := by simpa [he'] using he
    refine ⟨hnot, ?_⟩
    cases item with
    | whole t => exact .inr hcode
    | cut available => exact .inl hcode
  · intro out hout
    cases hdecode : decodeItems stream 0 0 0 #[] with
    | error e => simp [lzssDecode, hdecode, Except.map] at hout
    | ok text =>
      have hbound := size_le_of_decodeItems hdecode
      have htext : text.toList = out := by simpa [lzssDecode, hdecode, Except.map] using hout
      rw [← htext, Array.length_toList]
      simpa using hbound

end Compression
