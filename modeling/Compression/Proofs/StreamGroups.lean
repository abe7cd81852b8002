import Compression.Proofs.StreamItems
import Compression.Proofs.TokenStream

namespace Compression

/-- A byte of flags, the bytes behind it that it describes, and the items that these make up. -/
structure StreamGroup where
  flags : UInt8
  fields : Bytes
  items : List Item

def StreamGroup.bytes (group : StreamGroup) : Bytes :=
  group.flags :: group.fields

def streamGroups : Bytes → List StreamGroup
  | [] => []
  | flags :: rest =>
    let group := groupItems (lowBits groupSize flags.toNat) rest
    ⟨flags, rest.take (rest.length - group.2.length), group.1⟩ :: streamGroups group.2
termination_by stream => stream.length
decreasing_by
  have := length_groupItems (lowBits groupSize flags.toNat) rest
  simp only [List.length_cons]
  omega

theorem streamItems_eq_flatMap (stream : Bytes) :
    streamItems stream = (streamGroups stream).flatMap StreamGroup.items := by
  fun_induction streamGroups stream with
  | case1 => simp [streamItems]
  | case2 flags rest group ih => rw [streamItems, List.flatMap_cons, ← ih]

theorem nextItem?_suffix {isCopy : Bool} {stream rest : Bytes} {item : Item}
    (h : nextItem? isCopy stream = some (item, rest)) : rest <:+ stream := by
  unfold nextItem? at h
  split at h
  next => cases h
  next b tail =>
    split at h
    next =>
      split at h
      next high length tail => cases h; exact ⟨[b, high, length], rfl⟩
      next => cases h; exact List.nil_suffix
    next => cases h; exact List.suffix_cons b rest

theorem groupItems_suffix (flags : List Bool) (stream : Bytes) :
    (groupItems flags stream).2 <:+ stream := by
  induction flags generalizing stream with
  | nil => exact List.suffix_rfl
  | cons flag flags ih =>
    rw [groupItems]
    split
    next => exact List.nil_suffix
    next item rest hnext => exact (ih rest).trans (nextItem?_suffix hnext)

/-- The groups lie behind each other without a gap. -/
theorem flatMap_bytes_streamGroups (stream : Bytes) :
    (streamGroups stream).flatMap StreamGroup.bytes = stream := by
  fun_induction streamGroups stream with
  | case1 => rfl
  | case2 flags rest group ih =>
    have hcut := List.suffix_iff_eq_append.mp
      (groupItems_suffix (lowBits groupSize flags.toNat) rest)
    rw [List.flatMap_cons, ih, StreamGroup.bytes, List.cons_append]
    exact congrArg (flags :: ·) hcut

section

variable {α : Type} {size : Nat} {h : 0 < size}

theorem flatten_groupsOf (xs : List α) : (groupsOf size h xs).flatten = xs := by
  fun_induction groupsOf size h xs with
  | case1 => rfl
  | case2 x xs ih => rw [List.flatten_cons, ih, List.take_append_drop]

theorem mem_of_mem_groupsOf {xs group : List α} (hgroup : group ∈ groupsOf size h xs) {x : α}
    (hx : x ∈ group) : x ∈ xs := by
  rw [← flatten_groupsOf (h := h) xs]
  exact List.mem_flatten_of_mem hgroup hx

theorem length_of_groupsOf_eq {xs group : List α} {before after : List (List α)}
    (heq : groupsOf size h xs = before ++ group :: after) :
    1 ≤ group.length ∧ group.length ≤ size ∧ (after ≠ [] → group.length = size) := by
  fun_induction groupsOf size h xs generalizing before with
  | case1 => simp at heq
  | case2 x xs ih =>
    cases before with
    | nil =>
      obtain ⟨rfl, hafter⟩ := List.cons.inj heq
      have hlength : ((x :: xs).take size).length = min size (xs.length + 1) := by simp
      refine ⟨by omega, by omega, fun hne => ?_⟩
      by_contra hshort
      have hend : (x :: xs).drop size = [] := List.drop_eq_nil_of_le (by simp; omega)
      rw [hend, groupsOf] at hafter
      exact hne hafter.symm
    | cons first before => exact ih (List.cons.inj heq).2

/-- Full groups in front stay groups, whatever follows them. -/
theorem groupsOf_flatten_append {groups : List (List α)} (hfull : ∀ g ∈ groups, g.length = size)
    (xs : List α) : groupsOf size h (groups.flatten ++ xs) = groups ++ groupsOf size h xs := by
  induction groups with
  | nil => rfl
  | cons group groups ih =>
    have hlength := hfull group List.mem_cons_self
    obtain ⟨x, rest, rfl⟩ := List.exists_cons_of_length_pos (hlength ▸ h)
    have htail := ih fun g hg => hfull g (List.mem_cons_of_mem _ hg)
    rw [List.flatten_cons, List.append_assoc, List.cons_append, groupsOf, ← List.cons_append,
      List.take_left' hlength, List.drop_left' hlength, htail, List.cons_append]

end

theorem groupSize_pos : 0 < groupSize := by decide

theorem length_groupsOf_groupSize {α : Type} (xs : List α) :
    (groupsOf groupSize groupSize_pos xs).length = (xs.length + 7) / 8 := by
  fun_induction groupsOf groupSize _ xs with
  | case1 => simp
  | case2 x xs ih =>
    have hrest : ((x :: xs).drop groupSize).length = xs.length + 1 - 8 := by simp [groupSize]
    rw [List.length_cons, ih, hrest, List.length_cons]
    omega

theorem tokenStream_eq {tokens : List Token} (h : ∀ t ∈ tokens, t.Storable) :
    tokenStream tokens =
      some ((groupsOf groupSize groupSize_pos tokens).flatMap groupFieldBytes) := by
  have hgroups : ∀ group ∈ groupsOf groupSize groupSize_pos tokens,
      groupBytes group = some (groupFieldBytes group) := fun group hgroup =>
    groupBytes_eq fun t ht => h t (mem_of_mem_groupsOf hgroup ht)
  rw [tokenStream, mapM_eq_some_map hgroups, List.flatMap_def]
  rfl

/-- A token is the item that is read from its bytes. -/
theorem nextItem?_fieldBytes {t : Token} (h : t.Storable) (rest : Bytes) :
    nextItem? t.isCopy (t.fieldBytes ++ rest) = some (.whole t, rest) := by
  cases t with
  | literal byte => rfl
  | copy m =>
    obtain ⟨low, high, length, hbytes, ho, hl⟩ := h.exists_fields
    rw [hbytes]
    show some (Item.whole (.copy ⟨_, _⟩), rest) = _
    rw [ho, hl]

theorem groupItems_nil (flags : List Bool) : groupItems flags [] = ([], []) := by
  cases flags <;> rfl

theorem groupItems_fieldBytes {group : List Token} (h : ∀ t ∈ group, t.Storable)
    (flags : List Bool) (rest : Bytes) :
    groupItems (group.map Token.isCopy ++ flags) ((group.map Token.fieldBytes).flatten ++ rest) =
      (group.map Item.whole ++ (groupItems flags rest).1, (groupItems flags rest).2) := by
  induction group with
  | nil => rfl
  | cons t group ih =>
    have hnext := nextItem?_fieldBytes (h t List.mem_cons_self)
      ((group.map Token.fieldBytes).flatten ++ rest)
    have htail := ih fun u hu => h u (List.mem_cons_of_mem t hu)
    rw [List.map_cons, List.map_cons, List.flatten_cons, List.append_assoc, List.cons_append,
      groupItems, hnext]
    simp only [htail, List.map_cons, List.cons_append]

theorem lowBits_groupFlags {group : List Token} {count : Nat} (h : group.length ≤ count) :
    lowBits count (groupFlags group) =
      group.map Token.isCopy ++ List.replicate (count - group.length) false := by
  induction group generalizing count with
  | nil => simp [groupFlags, lowBits, List.eq_replicate_iff]
  | cons t group ih =>
    obtain ⟨count, rfl⟩ : ∃ n, count = n + 1 := ⟨count - 1, by simp at h; omega⟩
    have hflags : groupFlags (t :: group) = t.isCopy.toNat + 2 * groupFlags group := rfl
    have hlow : decide (groupFlags (t :: group) % 2 = 1) = t.isCopy := by
      cases hcopy : t.isCopy with
      | false => simp [hflags, hcopy]
      | true => simp [hflags, hcopy, Nat.add_mul_mod_self_left]
    have hhigh : groupFlags (t :: group) / 2 = groupFlags group := by
      have := Bool.toNat_le t.isCopy
      have := Bool.toNat_lt t.isCopy
      omega
    have hcount : count + 1 - (t :: group).length = count - group.length := by
      rw [List.length_cons]
      omega
    rw [lowBits_succ, hlow, hhigh, ih (by simpa using h), hcount, List.map_cons, List.cons_append]

theorem flagByte_testBit {group : List Token} (h : group.length ≤ groupSize) {i : Nat}
    (hi : group.length ≤ i) : (flagByte group).toNat.testBit i = false := by
  have hlt := groupFlags_lt group
  have hle : 2 ^ group.length ≤ 2 ^ i := Nat.pow_le_pow_right (by omega) hi
  rw [flagByte_toNat h]
  exact Nat.testBit_lt_two_pow (Nat.lt_of_lt_of_le hlt hle)

/-- The group of a stream that tokens are written as. -/
def tokenGroup (group : List Token) : StreamGroup where
  flags := flagByte group
  fields := (group.map Token.fieldBytes).flatten
  items := group.map Item.whole

theorem flatMap_items_tokenGroup (groups : List (List Token)) :
    (groups.map tokenGroup).flatMap StreamGroup.items = groups.flatten.map .whole := by
  induction groups with
  | nil => rfl
  | cons group groups ih =>
    rw [List.map_cons, List.flatMap_cons, ih, List.flatten_cons, List.map_append]
    rfl

/-- Reading gives the groups that were written, with the tokens of each. -/
theorem streamGroups_of_tokens {tokens : List Token} (h : ∀ t ∈ tokens, t.Storable) :
    streamGroups ((groupsOf groupSize groupSize_pos tokens).flatMap groupFieldBytes) =
      (groupsOf groupSize groupSize_pos tokens).map tokenGroup := by
  fun_induction groupsOf groupSize _ tokens with
  | case1 => simp [streamGroups]
  | case2 t tokens ih =>
    let group := (t :: tokens).take groupSize
    have hsize : group.length ≤ groupSize := List.length_take_le _ _
    have hgroup : ∀ u ∈ group, u.Storable := fun u hu => h u (List.mem_of_mem_take hu)
    have htail := ih fun u hu => h u (List.mem_of_mem_drop hu)
    generalize hrest : (groupsOf groupSize groupSize_pos
      ((t :: tokens).drop groupSize)).flatMap groupFieldBytes = rest at htail
    have hflags := lowBits_groupFlags hsize
    rw [← flagByte_toNat hsize] at hflags
    -- Flags that describe no token have nothing to read: they are those of the last group.
    have hunused :
        groupItems (List.replicate (groupSize - group.length) false) rest = ([], rest) := by
      by_cases hlast : (t :: tokens).drop groupSize = []
      · rw [hlast, groupsOf] at hrest
        rw [← hrest, List.flatMap_nil, groupItems_nil]
      · have hmore := List.length_pos_iff.mpr hlast
        rw [List.length_drop] at hmore
        have hfull : group.length = groupSize := List.length_take_of_le (by omega)
        rw [hfull, Nat.sub_self]
        rfl
    have hread := groupItems_fieldBytes hgroup
      (List.replicate (groupSize - group.length) false) rest
    rw [← hflags, hunused, List.append_nil] at hread
    have hfields : (group.map Token.fieldBytes).flatten.length + rest.length - rest.length =
        (group.map Token.fieldBytes).flatten.length := by omega
    rw [List.flatMap_cons, hrest, groupFieldBytes, List.cons_append, streamGroups]
    simp only [group] at hread hfields
    simp only [hread, htail, List.map_cons, List.length_append, hfields, List.take_left',
      tokenGroup]

end Compression
