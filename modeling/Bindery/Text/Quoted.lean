import Bindery.Text.CodePoint
import Bindery.Text.Hex
import Bindery.Text.Printable

/-!
# Quoted texts

Inside a message a text is quoted: in single quotes, unless it holds a single quote and no double
one. The quote in use, the backslash and everything that does not print are escaped.
-/

namespace Bindery.Text

/-- The single quote. -/
def singleQuote : Char := '\x27'

/-- The double quote. -/
def doubleQuote : Char := '\x22'

/-- The backslash. -/
def backslash : Char := '\x5c'

/-- The quote a text is put in. -/
def quoteFor (cs : List Char) : Char :=
  if singleQuote ∈ cs ∧ doubleQuote ∉ cs then doubleQuote else singleQuote

/-- A code point as an escape, with the fewest digits of two, four or eight that suffice. -/
def codeEscape (n : Nat) : List Char :=
  if n < 0x100 then backslash :: 'x' :: hexDigits 2 n
  else if n < 0x10000 then backslash :: 'u' :: hexDigits 4 n
  else backslash :: 'U' :: hexDigits 8 n

/-- A code point as it stands inside the given quotes. -/
def escape (quote : Char) (n : Nat) : List Char :=
  let c := Char.ofNat n
  if c = quote ∨ c = backslash then [backslash, c]
  else if c = '\n' then [backslash, 'n']
  else if c = '\r' then [backslash, 'r']
  else if c = '\t' then [backslash, 't']
  else if isPrintable n then [c]
  else codeEscape n

/-- The quoted form of a text. -/
def quoted (cs : List Char) : List Char :=
  let quote := quoteFor cs
  quote :: ((codes cs).flatMap (escape quote) ++ [quote])

end Bindery.Text
