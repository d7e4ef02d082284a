/-!
# Durations

A duration of whole milliseconds is written in seconds, or in milliseconds if it is shorter than one second;
zero is written in nanoseconds.
-/

namespace KconfigLang.Text

/-- The thousandths of a number below 1000 as decimals, without zeros at the end. -/
def thousandths (n : Nat) : List Char :=
  let digits := (toString n).toList
  let padded := List.replicate (3 - digits.length) '0' ++ digits
  (padded.reverse.dropWhile (· == '0')).reverse

/-- A number of milliseconds with its unit. -/
def durationText (ms : Nat) : String :=
  if ms = 0 then "0ns"
  else if ms < 1000 then toString ms ++ "ms"
  else
    let decimals := thousandths (ms % 1000)
    let point := if decimals.isEmpty then [] else '.' :: decimals
    toString (ms / 1000) ++ String.ofList (point ++ ['s'])

end KconfigLang.Text
