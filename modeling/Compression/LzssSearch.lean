import Compression.Bytes
import Compression.LzssParams

namespace Compression

/-- A copy of `length` bytes that begins `offset` bytes before the present position. -/
structure Match where
  offset : Nat
  length : Nat
deriving DecidableEq

/-- Length of the longest common beginning. -/
def commonLength : Bytes → Bytes → Nat
  | a :: as, b :: bs => if a = b then commonLength as bs + 1 else 0
  | _, _ => 0

/-- The first of `count` places, of which the first is `place` and begins `rest`, at which the
needle can be read. -/
def findFrom (needle : Bytes) : Nat → Nat → Bytes → Option Nat
  | 0, _, _ => none
  | count + 1, place, rest =>
    if needle.isPrefixOf rest then some place else findFrom needle count (place + 1) rest.tail

/-- The first place in `data`, from `start` on, at which the needle can be read and ends at `stop`
or before it. -/
def findBytes (needle data : Bytes) (start stop : Nat) : Option Nat :=
  findFrom needle (stop + 1 - (start + needle.length)) start (data.drop start)

/-- A position of the encoder: the candidates of its window, from the farthest on, and the bytes
from the position on. -/
@[ext] structure Cursor where
  behind : Nat
  window : Bytes
  here : Bytes
  here_eq : here = window.drop behind

def Cursor.start (data : Bytes) : Cursor where
  behind := 0
  window := data
  here := data
  here_eq := rfl

/-- The cursor `n` bytes further on, with no more than `reach` bytes behind it. -/
def Cursor.advance (reach n : Nat) (c : Cursor) : Cursor where
  behind := min reach (c.behind + n)
  window := c.window.drop (c.behind + n - min reach (c.behind + n))
  here := c.here.drop n
  here_eq := by
    rw [c.here_eq, List.drop_drop, List.drop_drop]
    congr 1
    omega

/-- The cursor at a position of the data. -/
def Cursor.at (reach : Nat) (data : Bytes) (position : Nat) : Cursor :=
  (Cursor.start data).advance reach position

/-- Improves on `best` from the candidates of the window, from the place `start` on, until the
whole target is matched. The next candidate is the first that agrees with the target in one byte
more than the best so far, and it has to begin before the cursor. -/
def improveMatch (target : Bytes) (c : Cursor) (start : Nat) (best : Match) : Match :=
  if _h : best.length < target.length then
    let size := best.length + 1
    match findBytes (target.take size) c.window start (c.behind + size - 1) with
    | none => best
    | some place =>
      let more := commonLength (target.drop size) (c.window.drop (place + size))
      improveMatch target c (place + 1) ⟨c.behind - place, size + more⟩
  else best
termination_by target.length - best.length
decreasing_by omega

/-- The longest match at the cursor, of equally long ones the farthest. It may run on past the
cursor. None counts that is shorter than the least length. -/
def findMatch (params : LzssParams) (c : Cursor) : Option Match :=
  let best := improveMatch (c.here.take params.lookahead) c 0 ⟨0, 0⟩
  if best.length < params.minMatch then none else some best

theorem minMatch_le_of_findMatch {params : LzssParams} {c : Cursor} {m : Match}
    (h : findMatch params c = some m) : params.minMatch ≤ m.length := by
  simp only [findMatch] at h
  split at h
  · cases h
  · cases Option.some.inj h
    omega

end Compression
