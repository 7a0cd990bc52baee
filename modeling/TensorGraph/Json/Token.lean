import TensorGraph.Json.Basic
import TensorGraph.Number.Decimal

/-!
# JSON tokens

`Token.scan` cuts a text into tokens, one character at a time. A token can be well written and still
have no value: a number that is too large, or a text with half of a surrogate pair. Such a token
carries `none`; whether that is a fault is for the reader of the document to say.
-/

namespace TensorGraph.Json

/-- A token of a JSON text. -/
inductive Token where
  /-- One of `[`, `]`, `,`, `:` and the two braces. -/
  | mark (c : Char)
  /-- A word or a number. -/
  | scalar (value : Option Json)
  /-- A text in quotes. -/
  | text (value : Option String)

namespace Token

/-- The value of a literal word. -/
def word? (cs : List Char) : Option Token :=
  if cs == "null".toList then some (.scalar (some .null))
  else if cs == "true".toList then some (.scalar (some (.bool true)))
  else if cs == "false".toList then some (.scalar (some (.bool false)))
  else none

/-- The digits of a fraction behind a whole part, and what follows it. -/
def fraction? : List Char → Option (List Char × List Char)
  | '.' :: cs =>
    let digits := cs.takeWhile Char.isDigit
    if digits.isEmpty then none else some (digits, cs.dropWhile Char.isDigit)
  | cs => some ([], cs)

/-- An exponent that ends the number. -/
def exponent? : List Char → Option Int
  | [] => some 0
  | c :: cs =>
    if c == 'e' || c == 'E' then
      let (sign, cs) : Int × List Char := match cs with
        | '+' :: cs => (1, cs)
        | '-' :: cs => (-1, cs)
        | cs => (1, cs)
      if cs.isEmpty || !cs.all Char.isDigit then none else some (sign * Text.digitsValue cs)
    else none

/-- The value of a number whose parts are known. Without fraction and exponent it is whole if a
64-bit word can hold it; minus zero is not whole. -/
def numberValue (whole : Bool) (d : Decimal.Digits) : Option Json :=
  let n := Text.digitsValue d.whole
  if whole && !d.negative && n ≤ Text.wordMax then some (.int n)
  else if whole && d.negative && 0 < n && n ≤ 0x8000000000000000 then some (.int (-n))
  else d.value?.map .real

/-- A number: a sign, a whole part without leading zeros, a fraction, an exponent. -/
def number? (cs : List Char) : Option Token := do
  let (negative, cs) := match cs with
    | '-' :: cs => (true, cs)
    | cs => (false, cs)
  let whole := cs.takeWhile Char.isDigit
  let rest := cs.dropWhile Char.isDigit
  if whole.isEmpty || (whole.head? == some '0' && whole.length != 1) then none
  else
    let (fraction, tail) ← fraction? rest
    let exponent ← exponent? tail
    return .scalar (numberValue rest.isEmpty { negative, whole, fraction, exponent })

/-- Is the code unit the first half of a surrogate pair? -/
def isHighSurrogate (n : Nat) : Bool :=
  0xD800 ≤ n && n ≤ 0xDBFF

/-- Is the code unit the second half of a surrogate pair? -/
def isLowSurrogate (n : Nat) : Bool :=
  0xDC00 ≤ n && n ≤ 0xDFFF

/-- Join the surrogate pairs among code points. Half a pair has no character. -/
def assemble : List Nat → Option (List Char)
  | [] => some []
  | [n] => if isHighSurrogate n || isLowSurrogate n then none else some [Char.ofNat n]
  | n :: m :: rest =>
    if isHighSurrogate n then
      if isLowSurrogate m then
        (assemble rest).map (Char.ofNat (0x10000 + (n - 0xD800) * 0x400 + (m - 0xDC00)) :: ·)
      else none
    else if isLowSurrogate n then none
    else (assemble (m :: rest)).map (Char.ofNat n :: ·)

/-- The value of a hexadecimal digit. -/
def hexValue? (c : Char) : Option Nat :=
  if '0' ≤ c && c ≤ '9' then some (c.toNat - '0'.toNat)
  else if 'a' ≤ c && c ≤ 'f' then some (c.toNat - 'a'.toNat + 10)
  else if 'A' ≤ c && c ≤ 'F' then some (c.toNat - 'A'.toNat + 10)
  else none

/-- The code point of a one-letter escape. -/
def escaped? (c : Char) : Option Nat :=
  if c == '"' || c == '\\' || c == '/' then some c.toNat
  else if c == 'b' then some 8
  else if c == 'f' then some 12
  else if c == 'n' then some 10
  else if c == 'r' then some 13
  else if c == 't' then some 9
  else none

/-- What the scanner is in the middle of. What it has read comes last first. -/
inductive Mode where
  | between
  | word (read : List Char)
  | number (read : List Char)
  | text (read : List Nat)
  | escape (read : List Nat)
  | hex (read : List Nat) (digits value : Nat)

/-- Begin a token with `c`, between two tokens. -/
def start (c : Char) : Option (Mode × List Token) :=
  if c == ' ' || c == '\t' || c == '\n' || c == '\r' then some (.between, [])
  else if c == '[' || c == ']' || c == '\x7b' || c == '\x7d' || c == ',' || c == ':' then
    some (.between, [.mark c])
  else if c == '"' then some (.text [], [])
  else if c == '-' || c.isDigit then some (.number [c], [])
  else if c.isAlpha then some (.word [c], [])
  else none

/-- Can the character stand in a number? -/
def isNumberChar (c : Char) : Bool :=
  c.isDigit || c == '+' || c == '-' || c == '.' || c == 'e' || c == 'E'

/-- Read one character. The tokens that end with it come last first. -/
def step : Mode → Char → Option (Mode × List Token)
  | .between, c => start c
  | .word read, c =>
    if c.isAlpha then some (.word (c :: read), [])
    else do
      let token ← word? read.reverse
      let (mode, tokens) ← start c
      return (mode, tokens ++ [token])
  | .number read, c =>
    if isNumberChar c then some (.number (c :: read), [])
    else do
      let token ← number? read.reverse
      let (mode, tokens) ← start c
      return (mode, tokens ++ [token])
  | .text read, c =>
    if c == '"' then some (.between, [.text ((assemble read.reverse).map String.ofList)])
    else if c == '\\' then some (.escape read, [])
    else if c.toNat < 0x20 then none
    else some (.text (c.toNat :: read), [])
  | .escape read, c =>
    if c == 'u' then some (.hex read 0 0, [])
    else (escaped? c).map fun n => (.text (n :: read), [])
  | .hex read digits value, c =>
    (hexValue? c).map fun d =>
      let value := 16 * value + d
      if digits == 3 then (.text (value :: read), []) else (.hex read (digits + 1) value, [])

/-- End the text. -/
def finish : Mode → Option (List Token)
  | .between => some []
  | .word read => (word? read.reverse).map ([·])
  | .number read => (number? read.reverse).map ([·])
  | _ => none

/-- Scan from the middle of a token, with the tokens before it, last first. -/
def scanFrom (mode : Mode) (before : List Token) : List Char → Option (List Token)
  | [] => (finish mode).map fun tokens => (tokens ++ before).reverse
  | c :: cs =>
    match step mode c with
    | none => none
    | some (next, tokens) => scanFrom next (tokens ++ before) cs

/-- The tokens of a text, if each of them is well written. -/
def scan (cs : List Char) : Option (List Token) :=
  scanFrom .between [] cs

end Token

end TensorGraph.Json
