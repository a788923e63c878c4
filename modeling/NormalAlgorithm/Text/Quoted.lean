import NormalAlgorithm.Text.Numeral
import NormalAlgorithm.Text.Visible

/-!
# Quoted text

A text between double quotes, on one line, in which every character shows what it is: a few have
an escape of their own, other invisible characters are written by their number in hexadecimal.
-/

namespace NormalAlgorithm

/-- A character inside quotes. -/
def quoteChar (c : Char) : Text :=
  if c = '\x00' then "\\0".toList
  else if c = '\t' then "\\t".toList
  else if c = '\r' then "\\r".toList
  else if c = '\n' then "\\n".toList
  else if c = '\\' || c = '"' then ['\\', c]
  else if isVisible c then [c]
  else "\\u\x7b".toList ++ hexadecimal c.toNat ++ ['\x7d']

/-- A text between quotes. Model of the debug form of a text. -/
def quote (t : Text) : Text := ['"'] ++ t.flatMap quoteChar ++ ['"']

example : quote "a\"\u0301é".toList = "\"a\\\"\\u\x7b301\x7dé\"".toList := by decide +kernel

end NormalAlgorithm
