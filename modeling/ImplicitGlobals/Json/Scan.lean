import ImplicitGlobals.Decimal.Shortest
import ImplicitGlobals.Json.Fault
import ImplicitGlobals.Text.Identifier

/-!
# Scanning JSON scalars

Readers of strings, numbers and literals. A reader takes what is left of the text
and gives its result with what is left after it, or the fault it stopped at.
-/

namespace ImplicitGlobals.Json

/-- The bytes of some characters. -/
def byteCount (cs : List Char) : Nat := (cs.map (·.utf8Size)).foldr (· + ·) 0

/-- A fault just before `rest`. -/
def fault {α : Type} (cause : Cause) (rest : List Char) : Except Fault α :=
  .error ⟨cause, byteCount rest⟩

/-- A fault at the first byte of `rest`, which counts as read. -/
def faultAt {α : Type} (cause : Cause) (rest : List Char) : Except Fault α :=
  .error ⟨cause, byteCount rest - 1⟩

/-- The four characters that may stand between values. -/
def isGap (c : Char) : Bool := c == ' ' || c == '\n' || c == '\t' || c == '\r'

def skipGaps (cs : List Char) : List Char := cs.dropWhile isGap

/-! ### Strings -/

def hexDigit? (c : Char) : Option Nat :=
  if '0' ≤ c ∧ c ≤ '9' then some (c.toNat - '0'.toNat)
  else if 'a' ≤ c ∧ c ≤ 'f' then some (c.toNat - 'a'.toNat + 10)
  else if 'A' ≤ c ∧ c ≤ 'F' then some (c.toNat - 'A'.toNat + 10)
  else none

/-- The code unit that four hexadecimal digits spell. -/
def codeUnit? : List Char → Option Nat
  | [a, b, c, d] => do
    return (((← hexDigit? a) * 16 + (← hexDigit? b)) * 16 + (← hexDigit? c)) * 16 + (← hexDigit? d)
  | _ => none

/-- Four bytes are taken for the digits, whatever they are. -/
def readCodeUnit (cs : List Char) : Except Fault (Nat × List Char) :=
  if byteCount cs < 4 then fault .endOfText []
  else
    match codeUnit? (cs.take 4) with
    | some n => .ok (n, cs.drop 4)
    | none => .error ⟨.escape, byteCount cs - 4⟩

def isHighSurrogate (n : Nat) : Bool := 0xD800 ≤ n && n ≤ 0xDBFF

def isLowSurrogate (n : Nat) : Bool := 0xDC00 ≤ n && n ≤ 0xDFFF

/-- The character that two surrogates spell together. -/
def joinSurrogates (high low : Nat) : Char :=
  Char.ofNat ((high - 0xD800) * 0x400 + (low - 0xDC00) + 0x10000)

/-- The character behind `\u`: one code unit, or a pair of surrogates. -/
def readCodePoint (cs : List Char) : Except Fault (Char × List Char) := do
  let (first, rest) ← readCodeUnit cs
  if isLowSurrogate first then fault .loneSurrogate rest
  else if !isHighSurrogate first then return (Char.ofNat first, rest)
  else
    match rest with
    | [] => fault .endOfText []
    | '\\' :: [] => fault .endOfText []
    | '\\' :: 'u' :: more =>
      let (second, after) ← readCodeUnit more
      if isLowSurrogate second then return (joinSurrogates first second, after)
      else fault .loneSurrogate after
    | '\\' :: more => faultAt .surrogatePair more
    | other => faultAt .surrogatePair other

/-- The characters that a backslash and one letter spell. -/
def shortEscapes : List (Char × Char) :=
  [('"', '"'), ('\\', '\\'), ('/', '/'), ('b', '\x08'), ('f', '\x0c'), ('n', '\n'), ('r', '\r'),
   ('t', '\t')]

/-- What follows a backslash. -/
def readEscape : List Char → Except Fault (Char × List Char)
  | [] => fault .endOfText []
  | 'u' :: rest => readCodePoint rest
  | c :: rest =>
    match shortEscapes.lookup c with
    | some e => .ok (e, rest)
    | none => faultAt .escape (c :: rest)

/-- The inside of a string up to its closing quote; `seen` holds what is read, last
character first, and `fuel` is at least the length of the text. -/
def readInside (seen : List Char) : Nat → List Char → Except Fault (String × List Char)
  | _, [] => fault .endOfText []
  | 0, _ => fault .endOfText []
  | fuel + 1, c :: rest =>
    if c = '"' then .ok (String.ofList seen.reverse, rest)
    else if c = '\\' then do
      let (e, after) ← readEscape rest
      readInside (e :: seen) fuel after
    else if c < ' ' then fault .controlCharacter rest
    else readInside (c :: seen) fuel rest

/-- A string whose opening quote is read. -/
def readText (cs : List Char) : Except Fault (String × List Char) := readInside [] cs.length cs

/-! ### Literals and numbers -/

/-- The characters `expected`, one after the other. -/
def readLiteral : List Char → List Char → Except Fault (List Char)
  | [], rest => .ok rest
  | _ :: _, [] => fault .endOfValue []
  | e :: expected, c :: rest =>
    if c = e then readLiteral expected rest else faultAt .literal (c :: rest)

/-- The greatest significand; digits that would lead beyond it are dropped. -/
def maxSignificand : Nat := Nat.pow 2 64 - 1

/-- A number that is being read: `significand · 10 ^ exponent`. -/
structure Partial where
  significand : Nat
  exponent : Int
deriving DecidableEq, Repr, Inhabited

/-- Appends digits while they fit. `place` is what a digit that fits adds to the
exponent, `dropped` what one that does not fit adds. -/
def Partial.append (place dropped : Int) (p : Partial) : List Char → Partial
  | [] => p
  | c :: rest =>
    let s := p.significand * 10 + (c.toNat - '0'.toNat)
    if s ≤ maxSignificand then
      append place dropped ⟨s, p.exponent + place⟩ rest
    else ⟨p.significand, p.exponent + dropped * (rest.length + 1)⟩

def digitRun (cs : List Char) : List Char × List Char := cs.span Text.isAsciiDigit

/-- The greatest exponent that is told apart from larger ones. -/
def maxExponent : Nat := Nat.pow 2 31 - 1

/-- The number as it is shown, if it is in range. -/
def finishDecimal (positive : Bool) (p : Partial) (rest : List Char) : Except Fault (Found × List Char) :=
  match (Decimal.Double.ofNat p.significand).shift? p.exponent with
  | some x => .ok (.decimal ((if positive then "" else "-") ++ x.text), rest)
  | none => fault .numberRange rest

/-- The exponent behind its mark. -/
def readExponent (positive : Bool) (p : Partial) (cs : List Char) : Except Fault (Found × List Char) :=
  let (negative, cs) :=
    match cs with
    | '+' :: rest => (false, rest)
    | '-' :: rest => (true, rest)
    | _ => (false, cs)
  match cs with
  | [] => fault .endOfValue []
  | c :: rest =>
    if !Text.isAsciiDigit c then faultAt .number (c :: rest)
    else
      let (digits, after) := digitRun cs
      let taken := (List.range (digits.length + 1)).find? fun n =>
        (Nat.ofDigitChars 10 (digits.take n) 0) > maxExponent
      match taken with
      | some n =>
        if p.significand ≠ 0 ∧ !negative then fault .numberRange (cs.drop n)
        else .ok (.decimal (if positive then "0.0" else "-0.0"), after)
      | none =>
        let e : Int := Nat.ofDigitChars 10 digits 0
        finishDecimal positive { p with exponent := p.exponent + (if negative then -e else e) } after

/-- An exponent, if its mark stands here. -/
def readScale (positive : Bool) (p : Partial) : List Char → Except Fault (Found × List Char)
  | c :: rest =>
    if c = 'e' ∨ c = 'E' then readExponent positive p rest else finishDecimal positive p (c :: rest)
  | [] => finishDecimal positive p []

/-- The digits behind a point. -/
def readFraction (positive : Bool) (p : Partial) (cs : List Char) : Except Fault (Found × List Char) :=
  match digitRun cs with
  | ([], []) => fault .endOfValue []
  | ([], rest) => faultAt .number rest
  | (digits, rest) => readScale positive (p.append (-1) 0 digits) rest

/-- What an integer part without point and exponent is. -/
def integerOf (positive : Bool) (digits : List Char) : Option Found :=
  let n := Nat.ofDigitChars 10 digits 0
  if positive then
    if n ≤ maxSignificand then some (.integer (toString n)) else none
  else if n = 0 ∨ Nat.pow 2 63 < n then none
  else some (.integer ("-" ++ toString n))

/-- A number whose sign is read. -/
def readNumber (positive : Bool) (cs : List Char) : Except Fault (Found × List Char) :=
  match digitRun cs with
  | ([], []) => fault .endOfValue []
  | ([], rest) => faultAt .number rest
  | (digits, rest) =>
    if digits.length ≠ 1 ∧ digits.head? = some '0' then faultAt .number (cs.drop 1)
    else
      let p := Partial.append 0 1 ⟨0, 0⟩ digits
      match rest with
      | '.' :: more => readFraction positive p more
      | _ =>
        match integerOf positive digits with
        | some found =>
          match rest with
          | c :: more =>
            if c = 'e' ∨ c = 'E' then readExponent positive p more else .ok (found, rest)
          | [] => .ok (found, [])
        | none => readScale positive p rest

end ImplicitGlobals.Json
