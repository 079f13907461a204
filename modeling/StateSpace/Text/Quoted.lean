import StateSpace.Text.Half
import StateSpace.Text.Printable

/-!
Texts in quotes. The single quote is used unless the text holds one and no double quote; the quote
in use and the backslash are escaped, and what is not printable is written by its code point.
-/
namespace StateSpace.Text

def singleQuote : Char := '\x27'

def doubleQuote : Char := '\x22'

def backslash : Char := '\x5c'

def hexDigit (n : Nat) : Char :=
  Char.ofNat (if n < 10 then 48 + n else 87 + n)

/-- The low `places` hexadecimal digits of a number, in lower case. -/
def hex : Nat → Nat → List Char
  | 0, _ => []
  | places + 1, n => hex places (n / 16) ++ [hexDigit (n % 16)]

def quoteFor (s : List Char) : Char :=
  if s.contains singleQuote && !s.contains doubleQuote then doubleQuote else singleQuote

/-- A code point by its number, as short as it can be. -/
def escapeCode (code : Nat) : List Char :=
  if code < 0x100 then backslash :: 'x' :: hex 2 code
  else if code < 0x10000 then backslash :: 'u' :: hex 4 code
  else backslash :: 'U' :: hex 8 code

/-- How one code point stands inside the given quotes. -/
def escapeIn (quote : Char) (code : Nat) : List Char :=
  let c := Char.ofNat code
  if c = quote || c = backslash then [backslash, c]
  else if c = '\n' then [backslash, 'n']
  else if c = '\r' then [backslash, 'r']
  else if c = '\t' then [backslash, 't']
  else if isPrintable code then [c]
  else escapeCode code

def quoted (s : String) : String :=
  let quote := quoteFor s.toList
  String.ofList (quote :: (codesOf s).flatMap (escapeIn quote) ++ [quote])

example : quoted "it\x27s" = "\"it\x27s\"" := by decide +kernel

example : quoted "a\x07" = "\x27a\x5cx07\x27" := by decide +kernel

example : quoted (ofCodes [0xd800, 97]) = "\x27\x5cud800a\x27" := by decide +kernel

end StateSpace.Text
