import Compression.Proofs.StreamItems

namespace Compression

/-- What follows each other in a stream: bytes of flags, and items. -/
inductive Record where
  | flags (byte : UInt8)
  | item (i : Item)

namespace Record

def size : Record → Nat
  | .flags _ => 1
  | .item (.whole (.literal _)) => 1
  | .item (.whole (.copy _)) => 3
  | .item (.cut available) => available

def item? : Record → Option Item
  | .flags _ => none
  | .item i => some i

end Record

def streamRecords : Bytes → List Record
  | [] => []
  | flags :: rest =>
    let group := groupItems (lowBits groupSize flags.toNat) rest
    .flags flags :: (group.1.map .item ++ streamRecords group.2)
termination_by stream => stream.length
decreasing_by
  have := length_groupItems (lowBits groupSize flags.toNat) rest
  simp only [List.length_cons]
  omega

def recordsSize : List Record → Nat
  | [] => 0
  | r :: records => r.size + recordsSize records

/-- A copy begins in this place of a stream. It takes three bytes. -/
def HasCopyAt (stream : Bytes) (start : Nat) : Prop :=
  ∃ before m after, streamRecords stream = before ++ .item (.whole (.copy m)) :: after ∧
    recordsSize before = start

/-- The records of a stream that is cut behind `k` bytes: those before the cut, and the rest of the
one that it goes through. -/
inductive CutAt (k : Nat) : List Record → List Record → Prop
  | between (before after : List Record) : recordsSize before = k →
      CutAt k (before ++ after) before
  | inside (before : List Record) (r : Record) (after : List Record) : recordsSize before < k →
      k < recordsSize before + r.size →
      CutAt k (before ++ r :: after) (before ++ [.item (.cut (k - recordsSize before))])

theorem recordsSize_append (xs ys : List Record) :
    recordsSize (xs ++ ys) = recordsSize xs + recordsSize ys := by
  induction xs with
  | nil => simp [recordsSize]
  | cons r xs ih =>
    rw [List.cons_append, recordsSize, recordsSize, ih]
    omega

theorem CutAt.cons {k : Nat} {records part : List Record} (h : CutAt k records part) (r : Record) :
    CutAt (r.size + k) (r :: records) (r :: part) := by
  cases h with
  | between _ after hsize => exact .between (r :: part) after (by rw [recordsSize, hsize])
  | inside before cut after hlow hhigh =>
    have hleft : r.size + k - recordsSize (r :: before) = k - recordsSize before := by
      rw [recordsSize]
      omega
    have hin := CutAt.inside (k := r.size + k) (r :: before) cut after
      (by rw [recordsSize]; omega) (by rw [recordsSize]; omega)
    rw [hleft] at hin
    exact hin

theorem streamItems_eq_filterMap (stream : Bytes) :
    streamItems stream = (streamRecords stream).filterMap Record.item? := by
  fun_induction streamRecords stream with
  | case1 => simp [streamItems]
  | case2 flags rest group ih =>
    have hgroup : (group.1.map Record.item).filterMap Record.item? = group.1 := by
      rw [List.filterMap_map]
      exact List.filterMap_some
    rw [streamItems, List.filterMap_cons_none rfl, List.filterMap_append, hgroup, ← ih]

/-- The records to come when `count` more items may follow in a group, as `flags` tell. -/
def recordsAhead (count flags : Nat) (stream : Bytes) : List Record :=
  let group := groupItems (lowBits count flags) stream
  group.1.map .item ++ streamRecords group.2

theorem recordsAhead_nil (count flags : Nat) : recordsAhead count flags [] = [] := by
  cases count with
  | zero => simp [recordsAhead, lowBits, groupItems, streamRecords]
  | succ count => simp [recordsAhead, lowBits_succ, groupItems, nextItem?, streamRecords]

theorem recordsAhead_zero (flags : Nat) (b : UInt8) (rest : Bytes) :
    recordsAhead 0 flags (b :: rest) = .flags b :: recordsAhead groupSize b.toNat rest := by
  simp [recordsAhead, lowBits, groupItems, streamRecords]

theorem recordsAhead_succ {count flags : Nat} {stream rest : Bytes} {item : Item}
    (h : nextItem? (decide (flags % 2 = 1)) stream = some (item, rest)) :
    recordsAhead (count + 1) flags stream = .item item :: recordsAhead count (flags / 2) rest := by
  simp [recordsAhead, lowBits_succ, groupItems, h]

theorem recordsAhead_of_short {count flags : Nat} {b : UInt8} {rest : Bytes}
    (hflag : decide (flags % 2 = 1) = true) (h : rest.length < 2) :
    recordsAhead (count + 1) flags (b :: rest) = [.item (.cut (rest.length + 1))] := by
  have hnext : nextItem? (decide (flags % 2 = 1)) (b :: rest) =
      some (.cut (rest.length + 1), []) := by
    rw [hflag]
    match rest, h with
    | [], _ => rfl
    | [_], _ => rfl
  rw [recordsAhead_succ hnext, recordsAhead_nil]

/-- A copy that the stream ends in is cut again. -/
theorem cutAt_recordsAhead_short {count flags k : Nat} {b : UInt8} {rest : Bytes}
    (hflag : decide (flags % 2 = 1) = true) (hshort : rest.length < 2) (hk : k ≤ rest.length) :
    CutAt (k + 1) (recordsAhead (count + 1) flags (b :: rest))
      (recordsAhead (count + 1) flags (b :: rest.take k)) := by
  have htake : (rest.take k).length < 2 := by rw [List.length_take]; omega
  rw [recordsAhead_of_short hflag hshort, recordsAhead_of_short hflag htake,
    List.length_take_of_le hk]
  by_cases hall : k = rest.length
  · rw [hall]
    exact .between [.item (.cut (rest.length + 1))] [] rfl
  · have hless : k + 1 < recordsSize [] + Record.size (.item (.cut (rest.length + 1))) := by
      simp only [recordsSize, Record.size]
      omega
    exact .inside [] (.item (.cut (rest.length + 1))) [] (Nat.succ_pos k) hless

/-- A copy is cut behind its first or its second byte, or the cut is behind the copy. -/
theorem cutAt_recordsAhead_copy {count flags k : Nat} {b high len : UInt8} {tail : Bytes}
    (hflag : decide (flags % 2 = 1) = true)
    (ih : ∀ j ≤ tail.length, CutAt j (recordsAhead count (flags / 2) tail)
      (recordsAhead count (flags / 2) (tail.take j)))
    (hk : k ≤ tail.length + 2) :
    CutAt (k + 1) (recordsAhead (count + 1) flags (b :: high :: len :: tail))
      (recordsAhead (count + 1) flags (b :: (high :: len :: tail).take k)) := by
  let copy : Item := .whole (.copy ⟨b.toNat + 256 * high.toNat, len.toNat⟩)
  have hnext : ∀ tail, nextItem? (decide (flags % 2 = 1)) (b :: high :: len :: tail) =
      some (copy, tail) := by
    intro tail
    rw [hflag]
    rfl
  have hcopy : recordsSize [] + Record.size (.item copy) = 3 := rfl
  rw [recordsAhead_succ (hnext tail)]
  match k with
  | 0 =>
    rw [List.take_zero, recordsAhead_of_short hflag (by simp)]
    exact .inside [] (.item copy) _ (Nat.succ_pos 0) (by omega)
  | 1 =>
    rw [List.take_succ_cons, List.take_zero, recordsAhead_of_short hflag (by simp)]
    exact .inside [] (.item copy) _ (Nat.succ_pos 1) (by omega)
  | k + 2 =>
    have hplace : k + 2 + 1 = Record.size (.item copy) + k := Nat.add_comm k 3
    rw [List.take_succ_cons, List.take_succ_cons, recordsAhead_succ (hnext _), hplace]
    exact (ih k (by omega)).cons (.item copy)

/-- A cut stream has the records up to the cut. -/
theorem cutAt_recordsAhead {stream : Bytes} {k : Nat} (hk : k ≤ stream.length)
    (count flags : Nat) :
    CutAt k (recordsAhead count flags stream) (recordsAhead count flags (stream.take k)) := by
  induction hn : stream.length using Nat.strongRecOn generalizing stream k count flags with
  | ind n ih =>
    subst hn
    match k, stream, hk with
    | 0, stream, _ =>
      rw [List.take_zero, recordsAhead_nil]
      exact .between [] _ rfl
    | k + 1, b :: rest, hk =>
      have hrest : k ≤ rest.length := Nat.le_of_succ_le_succ hk
      rw [List.take_succ_cons]
      cases count with
      | zero =>
        have hcut := (ih rest.length (by simp) hrest groupSize b.toNat rfl).cons (.flags b)
        rw [recordsAhead_zero, recordsAhead_zero, Nat.add_comm]
        exact hcut
      | succ count =>
        cases hflag : decide (flags % 2 = 1) with
        | false =>
          have hnext : ∀ tail, nextItem? (decide (flags % 2 = 1)) (b :: tail) =
              some (.whole (.literal b), tail) := by
            intro tail
            rw [hflag]
            rfl
          have hcut := (ih rest.length (by simp) hrest count (flags / 2) rfl).cons
            (.item (.whole (.literal b)))
          rw [recordsAhead_succ (hnext rest), recordsAhead_succ (hnext (rest.take k)),
            Nat.add_comm]
          exact hcut
        | true =>
          match rest, hrest, ih with
          | [], hrest, _ => exact cutAt_recordsAhead_short hflag (by simp) hrest
          | [_], hrest, _ => exact cutAt_recordsAhead_short hflag (by simp) hrest
          | high :: len :: tail, hrest, ih =>
            refine cutAt_recordsAhead_copy hflag (fun j hj => ?_) hrest
            exact ih tail.length (by simp only [List.length_cons]; omega) hj count (flags / 2) rfl

theorem cutAt_streamRecords {stream : Bytes} {k : Nat} (hk : k ≤ stream.length) :
    CutAt k (streamRecords stream) (streamRecords (stream.take k)) := by
  have hahead : ∀ s, recordsAhead 0 0 s = streamRecords s := by
    intro s
    simp [recordsAhead, lowBits, groupItems]
  rw [← hahead, ← hahead]
  exact cutAt_recordsAhead hk 0 0

/-- A record that a cut does not go through is on one side of it. -/
theorem le_or_le_of_append_eq {before after front back : List Record} {r : Record}
    (h : before ++ after = front ++ r :: back) :
    recordsSize before ≤ recordsSize front ∨
      recordsSize front + r.size ≤ recordsSize before := by
  obtain ⟨gap, rfl, _⟩ | ⟨gap, rfl, hgap⟩ := List.append_eq_append_iff.mp h
  · left
    rw [recordsSize_append]
    omega
  · cases gap with
    | nil => simp
    | cons r' gap =>
      right
      obtain rfl := (List.cons.inj hgap).1
      rw [recordsSize_append, recordsSize]
      omega

theorem lzssDecode_eq_ok_iff {stream out : Bytes} :
    lzssDecode stream = .ok out ↔
      SoundItems (streamItems stream) ∧ itemsText (streamItems stream) = out := by
  constructor
  · intro h
    have hsound : SoundItems (streamItems stream) := by
      by_contra hnot
      obtain ⟨_, _, e, herror, _⟩ := lzssDecode_of_not_sound hnot
      cases h.symm.trans herror
    rw [lzssDecode_eq_addItems, addItems_of_sound _ hsound] at h
    exact ⟨hsound, Except.ok.inj h⟩
  · rintro ⟨hsound, rfl⟩
    rw [lzssDecode_eq_addItems, addItems_of_sound _ hsound]

theorem Item.prefix_append_text (text : Bytes) (item : Item) : text <+: item.append text := by
  match item with
  | .whole (.literal _) => exact List.prefix_append _ _
  | .whole (.copy _) => exact List.prefix_append _ _
  | .cut _ => exact List.prefix_rfl

theorem itemsText_prefix (before after : List Item) :
    itemsText before <+: itemsText (before ++ after) := by
  induction after using List.reverseRecOn with
  | nil => simp
  | append_singleton after item ih =>
    have htext : itemsText (before ++ (after ++ [item])) =
        item.append (itemsText (before ++ after)) := by
      simp [itemsText]
    rw [htext]
    exact ih.trans (Item.prefix_append_text _ _)

/-- A stream that can be decoded ends in no cut copy. -/
theorem SoundItems.eq_copy_of_two_le {before after : List Record} {r : Record}
    (h : SoundItems ((before ++ r :: after).filterMap Record.item?)) (hr : 2 ≤ r.size) :
    ∃ m, r = .item (.whole (.copy m)) := by
  match r, hr with
  | .item (.whole (.copy m)), _ => exact ⟨m, rfl⟩
  | .item (.cut available), _ =>
    have hitem : Item.Sound _ (.cut available) :=
      h (before.filterMap Record.item?) _ (after.filterMap Record.item?)
        (by rw [List.filterMap_append]; rfl)
    exact hitem.elim

theorem HasCopyAt.le_or_le {stream : Bytes} {start start' : Nat} (h : HasCopyAt stream start)
    (h' : HasCopyAt stream start') : start + 3 ≤ start' ∨ start' ≤ start := by
  obtain ⟨before, m, after, heq, rfl⟩ := h
  obtain ⟨front, m', back, heq', rfl⟩ := h'
  have hsame : (before ++ [.item (.whole (.copy m))]) ++ after =
      front ++ .item (.whole (.copy m')) :: back := by
    rw [List.append_assoc, ← heq', heq]
    rfl
  have hsize : recordsSize (before ++ [.item (.whole (.copy m))]) = recordsSize before + 3 := by
    rw [recordsSize_append]
    rfl
  have hside := le_or_le_of_append_eq hsame
  rw [hsize] at hside
  rcases hside with hfront | hback
  · exact .inl hfront
  · exact .inr (Nat.le_of_add_le_add_right hback)

/-- What becomes of a stream that can be decoded if it is cut behind `k` bytes. -/
theorem lzssDecode_take_cases {stream out : Bytes} (h : lzssDecode stream = .ok out) {k : Nat}
    (hk : k ≤ stream.length) :
    (∃ part, lzssDecode (stream.take k) = .ok part ∧ part <+: out ∧
      ∀ start, HasCopyAt stream start → k ≤ start ∨ start + 3 ≤ k) ∨
    ∃ start, lzssDecode (stream.take k) = .error (.cutCopy start (k - start)) ∧
      HasCopyAt stream start ∧ start < k ∧ k < start + 3 := by
  obtain ⟨hsound, rfl⟩ := lzssDecode_eq_ok_iff.mp h
  have hcut := cutAt_streamRecords hk
  have hitems := streamItems_eq_filterMap stream
  have hpart := streamItems_eq_filterMap (stream.take k)
  generalize hwhole : streamRecords stream = records at hcut hitems
  generalize streamRecords (stream.take k) = records' at hcut hpart
  cases hcut with
  | between _ after hsize =>
    rw [List.filterMap_append, ← hpart] at hitems
    rw [hitems] at hsound ⊢
    refine .inl ⟨itemsText (streamItems (stream.take k)),
      lzssDecode_eq_ok_iff.mpr ⟨hsound.of_append, rfl⟩, itemsText_prefix _ _, ?_⟩
    rintro start ⟨front, m, back, heq, rfl⟩
    rw [← hsize]
    exact le_or_le_of_append_eq (hwhole.symm.trans heq)
  | inside before r after hlow hhigh =>
    rw [hitems] at hsound
    obtain ⟨m, rfl⟩ := hsound.eq_copy_of_two_le (by omega)
    rw [List.filterMap_append] at hsound hpart
    have hunsound : ¬ Item.Sound (itemsText (before.filterMap Record.item?))
        (.cut (k - recordsSize before)) := fun hitem => hitem
    obtain ⟨e, herror, hfault⟩ :=
      addItems_of_fault (stream.take k).length [] hsound.of_append hunsound
    have hleft : (stream.take k).length - (k - recordsSize before) = recordsSize before := by
      rw [List.length_take_of_le hk]
      omega
    have he : e = .cutCopy (recordsSize before) (k - recordsSize before) := by
      rw [Item.fault?, hleft] at hfault
      exact (Option.some.inj hfault).symm
    refine .inr ⟨recordsSize before, ?_, ⟨before, m, after, hwhole, rfl⟩, hlow, hhigh⟩
    rw [lzssDecode_eq_addItems, hpart, ← he]
    exact herror

/-- A stream that can be decoded may be cut anywhere. It is truncated if the cut goes through a
copy, and only then; otherwise what is left gives a beginning of the text, and more of it the later
the cut. -/
theorem lzssDecode_take {stream out : Bytes} (h : lzssDecode stream = .ok out) {k : Nat}
    (hk : k ≤ stream.length) :
    (∀ e, lzssDecode (stream.take k) = .error e ↔
      ∃ start, HasCopyAt stream start ∧ start < k ∧ k < start + 3 ∧
        e = .cutCopy start (k - start)) ∧
    (∀ e, lzssDecode (stream.take k) = .error e → e.code? = some .truncated) ∧
    (∀ part, lzssDecode (stream.take k) = .ok part → part <+: out) ∧
    ∀ k' part part', k ≤ k' → k' ≤ stream.length → lzssDecode (stream.take k) = .ok part →
      lzssDecode (stream.take k') = .ok part' → part <+: part' := by
  have hcases := lzssDecode_take_cases h hk
  refine ⟨fun e => ⟨fun he => ?_, ?_⟩, fun e he => ?_, fun part hpart => ?_, ?_⟩
  · obtain ⟨part, hok, _⟩ | ⟨start, herror, hcopy, hlow, hhigh⟩ := hcases
    · cases he.symm.trans hok
    · exact ⟨start, hcopy, hlow, hhigh, Except.error.inj (he.symm.trans herror)⟩
  · rintro ⟨start, hcopy, hlow, hhigh, rfl⟩
    obtain ⟨_, _, _, hoff⟩ | ⟨start', herror, hcopy', hlow', hhigh'⟩ := hcases
    · have := hoff start hcopy
      omega
    · have := hcopy.le_or_le hcopy'
      have := hcopy'.le_or_le hcopy
      obtain rfl : start' = start := by omega
      exact herror
  · obtain ⟨part, hok, _⟩ | ⟨start, herror, _⟩ := hcases
    · cases he.symm.trans hok
    · obtain rfl := Except.error.inj (he.symm.trans herror)
      rfl
  · obtain ⟨part', hok, hprefix, _⟩ | ⟨start, herror, _⟩ := hcases
    · obtain rfl := Except.ok.inj (hpart.symm.trans hok)
      exact hprefix
    · cases hpart.symm.trans herror
  · intro k' part part' hle hk' hpart hpart'
    -- The earlier cut is one of what the later cut leaves.
    have hshort : k ≤ (stream.take k').length := by rw [List.length_take_of_le hk']; exact hle
    have hagain := lzssDecode_take_cases hpart' hshort
    rw [List.take_take, Nat.min_eq_left hle] at hagain
    obtain ⟨part'', hok, hprefix, _⟩ | ⟨start, herror, _⟩ := hagain
    · obtain rfl := Except.ok.inj (hpart.symm.trans hok)
      exact hprefix
    · cases hpart.symm.trans herror

/-- Two letters and a copy of them, cut inside of the copy. -/
theorem lzssDecode_take_in_copy :
    let stream : Bytes := [4, 97, 98, 2, 0, 4]
    lzssDecode stream = .ok [97, 98, 97, 98, 97, 98] ∧ 5 ≤ stream.length ∧
      (∀ e, lzssDecode (stream.take 5) = .error e ↔
        ∃ start, HasCopyAt stream start ∧ start < 5 ∧ 5 < start + 3 ∧
          e = .cutCopy start (5 - start)) ∧
      (∀ e, lzssDecode (stream.take 5) = .error e → e.code? = some .truncated) ∧
      (∀ part, lzssDecode (stream.take 5) = .ok part → part <+: [97, 98, 97, 98, 97, 98]) ∧
      ∀ k' part part', 5 ≤ k' → k' ≤ stream.length → lzssDecode (stream.take 5) = .ok part →
        lzssDecode (stream.take k') = .ok part' → part <+: part' := by
  intro stream
  have hdecode : lzssDecode stream = .ok [97, 98, 97, 98, 97, 98] := rfl
  have hk : 5 ≤ stream.length := by decide
  exact ⟨hdecode, hk, lzssDecode_take hdecode hk⟩

end Compression
