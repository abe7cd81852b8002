import Compression.Numerals

namespace Compression

/-- How far back the encoder looks, and how long its matches are. -/
structure LzssParams where
  windowSize : Nat := 4096
  lookahead : Nat := 18
  minMatch : Nat := 3
  windowSize_range : 1 ≤ windowSize ∧ windowSize ≤ 65535 := by decide
  lookahead_range : 1 ≤ lookahead ∧ lookahead ≤ 255 := by decide
  minMatch_range : 1 ≤ minMatch ∧ minMatch ≤ lookahead := by decide

/-- A parameter that lies outside of its range, which begins at one. -/
inductive LzssParams.Error where
  | windowSize (found : Int)
  | lookahead (found : Int)
  | minMatch (found longest : Int)
  /-- A number out of its range that has too many digits to be told. -/
  | unwritable

def LzssParams.Error.message : LzssParams.Error → String
  | .windowSize found => s!"window_size {found} out of range [1, 65535]"
  | .lookahead found => s!"lookahead {found} out of range [1, 255]"
  | .minMatch found longest => s!"min_match {found} out of range [1, {longest}]"
  | .unwritable => unwritableText

/-- The error that reports a number. -/
def LzssParams.report (found : Int) (e : LzssParams.Error) : LzssParams.Error :=
  if isWritable found then e else .unwritable

/-- Parameters from three numbers, which are checked in this order. -/
def LzssParams.ofNumbers (windowSize lookahead minMatch : Int) :
    Except LzssParams.Error LzssParams :=
  if hw : 1 ≤ windowSize ∧ windowSize ≤ 65535 then
    if hl : 1 ≤ lookahead ∧ lookahead ≤ 255 then
      if hm : 1 ≤ minMatch ∧ minMatch ≤ lookahead then
        .ok {
          windowSize := windowSize.toNat
          lookahead := lookahead.toNat
          minMatch := minMatch.toNat
          windowSize_range := by omega
          lookahead_range := by omega
          minMatch_range := by omega }
      else .error (report minMatch (.minMatch minMatch lookahead))
    else .error (report lookahead (.lookahead lookahead))
  else .error (report windowSize (.windowSize windowSize))

/-- The parameters on one line. -/
def LzssParams.summary (p : LzssParams) : String :=
  s!"LzssParams(window_size={p.windowSize}, lookahead={p.lookahead}, min_match={p.minMatch})"

end Compression
