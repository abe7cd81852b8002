import Compression.Proofs.LongestMatch
import Compression.Proofs.TokenStream

namespace Compression

theorem Cursor.start_eq_at (reach : Nat) (data : Bytes) :
    Cursor.start data = Cursor.at reach data 0 := by
  ext1
  · simp [Cursor.start]
  · simp [Cursor.start]
  · simp [Cursor.start]

theorem Cursor.advance_at (reach : Nat) (data : Bytes) (position n : Nat) :
    (Cursor.at reach data position).advance reach n = Cursor.at reach data (position + n) := by
  have hbehind : min reach (min reach position + n) = min reach (position + n) := by omega
  ext1
  · simp [Cursor.advance, hbehind]
  · simp only [Cursor.advance, Cursor.at_behind, Cursor.at_window, List.drop_drop, hbehind]
    congr 1
    omega
  · simp [Cursor.advance]

/-- A copy repeats the data from a candidate on as far as they agree with the data from the present
position on, also past that position. -/
theorem copyBack_take {data : Bytes} {candidate position length : Nat}
    (hbefore : candidate < position) (hroom : position + length ≤ data.length)
    (hsame : ∀ k < length, data[candidate + k]? = data[position + k]?) :
    copyBack (position - candidate) length (data.take position).toArray =
      (data.take (position + length)).toArray := by
  induction length generalizing candidate position with
  | zero => rfl
  | succ length ih =>
    have hin : position < data.length := by omega
    have hsize : (data.take position).toArray.size = position := by
      rw [List.size_toArray, List.length_take_of_le (by omega)]
    have hback : (data.take position).toArray.getD (position - (position - candidate)) 0 =
        data[position] := by
      have hfirst := hsame 0 (by omega)
      rw [Nat.add_zero, Nat.add_zero, List.getElem?_eq_getElem hin] at hfirst
      rw [show position - (position - candidate) = candidate by omega, Array.getD_eq_getD_getElem?,
        List.getElem?_toArray, List.getElem?_take_of_lt hbefore, hfirst, Option.getD_some]
    -- Behind the byte just copied, the candidate is as far away as before.
    have hrest : copyBack (position + 1 - (candidate + 1)) length
        (data.take (position + 1)).toArray = (data.take (position + 1 + length)).toArray := by
      refine ih (by omega) (by omega) fun k hk => ?_
      have hnext := hsame (k + 1) (by omega)
      rwa [Nat.add_comm k 1, ← Nat.add_assoc, ← Nat.add_assoc] at hnext
    rw [copyBack, hsize, hback, List.push_toArray, List.take_append_getElem hin,
      ← Nat.add_sub_add_right position 1 candidate, hrest, Nat.add_assoc, Nat.add_comm 1 length]

/-- Which text the tokens of `done` have given when the encoder is at a position, the latest of
them first. -/
def Covers (data : Bytes) (position : Nat) (done : List Token) : Prop :=
  Fitting #[] done.reverse ∧
    done.reverse.foldl Token.extend #[] = (data.take position).toArray

theorem Covers.token {data : Bytes} {position next : Nat} {done : List Token} {t : Token}
    (h : Covers data position done) (hfit : t.Fits (data.take position).toArray)
    (hextend : t.extend (data.take position).toArray = (data.take next).toArray) :
    Covers data next (t :: done) := by
  obtain ⟨hfitting, htext⟩ := h
  refine ⟨?_, ?_⟩
  · rw [List.reverse_cons, fitting_append, htext]
    exact ⟨hfitting, hfit, trivial⟩
  · rw [List.reverse_cons, List.foldl_append, htext]
    exact hextend

theorem Covers.literal {data : Bytes} {position : Nat} {done : List Token}
    (h : Covers data position done) (hin : position < data.length) :
    Covers data (position + 1) (.literal data[position] :: done) := by
  refine h.token trivial ?_
  rw [Token.extend, List.push_toArray, List.take_append_getElem hin]

/-- A match that is the longest can be copied, and the copy is the text it was found for. -/
theorem Covers.copy {params : LzssParams} {data : Bytes} {position : Nat} {done : List Token}
    {m : Match} (h : Covers data position done) (hin : position ≤ data.length)
    (hm : LongestMatch params data position (some m)) :
    position + m.length ≤ data.length ∧ Covers data (position + m.length) (.copy m :: done) := by
  obtain ⟨hlong, j, ⟨hlow, hhigh⟩, hoffset, ⟨hlimit, hroom, hsame⟩, _, _⟩ := hm
  have hwindow := params.windowSize_range
  have hlookahead := params.lookahead_range
  have hmin := params.minMatch_range
  have hcopy := copyBack_take hhigh (by omega) hsame
  rw [← hoffset] at hcopy
  refine ⟨by omega, h.token ?_ hcopy⟩
  have hsize : (data.take position).toArray.size = position := by
    rw [List.size_toArray, List.length_take_of_le hin]
  exact ⟨⟨by omega, by omega, by omega⟩, by omega, by omega⟩

/-- The greedy tokens from a position on complete those that led to it. -/
theorem covers_greedyTokens {params : LzssParams} {data : Bytes} {position : Nat} {c : Cursor}
    {done : List Token} (hc : c = .at params.windowSize data position)
    (hin : position ≤ data.length) (h : Covers data position done) :
    ∃ tokens, greedyTokens params c done = tokens.reverse ∧ Covers data data.length tokens := by
  -- The induction follows the encoder, and what `done` covers is its invariant.
  fun_induction greedyTokens params c done generalizing position with
  | case1 c done hend =>
    subst hc
    rw [Cursor.at_here, List.drop_eq_nil_iff] at hend
    have hlast : position = data.length := by omega
    exact ⟨done, rfl, hlast ▸ h⟩
  | case2 c done b rest hhere m hm ih =>
    subst hc
    have hlongest := scanMatch_longest params data position
    rw [← findMatch_eq_scanMatch, hm] at hlongest
    obtain ⟨hroom, hcovers⟩ := h.copy hin hlongest
    exact ih (Cursor.advance_at ..) hroom hcovers
  | case3 c done b rest hhere hm ih =>
    subst hc
    rw [Cursor.at_here] at hhere
    have hlt : position < data.length := by
      by_contra hge
      rw [List.drop_eq_nil_of_le (by omega)] at hhere
      cases hhere
    rw [List.drop_eq_getElem_cons hlt] at hhere
    obtain ⟨rfl, _⟩ := List.cons.inj hhere
    exact ih (Cursor.advance_at ..) hlt (h.literal hlt)

/-- The stream of a text is that of tokens which fit and stand for it. -/
theorem lzssEncode_eq_tokenStream (params : LzssParams) (data : Bytes) :
    ∃ tokens stream, Fitting #[] tokens ∧ tokens.foldl Token.extend #[] = data.toArray ∧
      tokenStream tokens = some stream ∧ lzssEncode params data = .ok stream := by
  have hstart : Covers data 0 [] := ⟨trivial, rfl⟩
  obtain ⟨tokens, htokens, hfitting, htext⟩ :=
    covers_greedyTokens (Cursor.start_eq_at params.windowSize data) (by omega) hstart
  obtain ⟨stream, hstream, _⟩ := lzssDecode_tokenStream hfitting
  rw [List.take_length] at htext
  refine ⟨tokens.reverse, stream, hfitting, htext, hstream, ?_⟩
  rw [lzssEncode, htokens, hstream]

/-- Every text is encoded, and its stream is read back without the parameters. -/
theorem lzssDecode_lzssEncode (params : LzssParams) (data : Bytes) :
    ∃ stream, lzssEncode params data = .ok stream ∧ lzssDecode stream = .ok data := by
  have hstart : Covers data 0 [] := ⟨trivial, rfl⟩
  obtain ⟨tokens, htokens, hfitting, htext⟩ :=
    covers_greedyTokens (Cursor.start_eq_at params.windowSize data) (by omega) hstart
  obtain ⟨stream, hstream, hdecode⟩ := lzssDecode_tokenStream hfitting
  refine ⟨stream, ?_, ?_⟩
  · rw [lzssEncode, htokens, hstream]
  · rw [hdecode, htext, List.take_length]

end Compression
