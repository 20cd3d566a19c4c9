import ImplicitGlobals.Syntax.Kind
import ImplicitGlobals.Syntax.Regex

/-!
# Token rules

The table `rules` gives the texts of each kind of token. Where two rules match
equally much, the earlier one decides.
-/

namespace ImplicitGlobals.TokenRules

open Regex

def digit : CharSet := ⟨[('0', '9')], false⟩

/-- A decimal digit or the separator `_`. -/
def digits : CharSet := ⟨[('0', '9'), ('_', '_')], false⟩

def nameStart : CharSet := ⟨[('a', 'z'), ('A', 'Z'), ('_', '_'), ('$', '$')], false⟩

def namePart : CharSet :=
  ⟨[('a', 'z'), ('A', 'Z'), ('0', '9'), ('_', '_'), ('$', '$')], false⟩

def anyChar : CharSet := .except []

/-- A literal between two marks. A backslash takes the character after it; other
characters stand for themselves unless they are in `excluded`. -/
def delimited (mark : Char) (excluded : List Char) : Regex :=
  concat [char mark,
    star (.alt (set (.except (mark :: '\\' :: excluded))) (.seq (char '\\') (set anyChar))),
    char mark]

/-- `e` or `E`, perhaps a sign, and digits. -/
def exponent : Regex :=
  opt (concat [set (.ofList ['e', 'E']), opt (set (.ofList ['+', '-'])), plus (set digits)])

/-- `0`, one of the letters, digits of the base, and perhaps `n`. -/
def based (letters : List Char) (ds : CharSet) : Regex :=
  concat [char '0', set (.ofList letters), plus (set ds), opt (char 'n')]

def identifier : Regex := .seq (set nameStart) (star (set namePart))

/-- Digits, perhaps a fraction, perhaps an exponent, perhaps `n`. -/
def decimal : Regex :=
  concat [set digit, star (set digits), opt (.seq (char '.') (star (set digits))), exponent,
    opt (char 'n')]

/-- A number that starts with its point. -/
def fraction : Regex := concat [char '.', set digit, star (set digits), exponent]

/-- `/*` up to the first `*/`. -/
def comment : Regex :=
  let body := star (set (.except ['*']))
  let stars := plus (char '*')
  concat [text "/*", body, stars,
    star (concat [set (.except ['/', '*']), body, stars]), char '/']

/-- The texts of each kind. -/
def rules : List (TokenKind × Regex) :=
  [(.parenOpen, text "("), (.parenClose, text ")"), (.bracketOpen, text "["),
   (.bracketClose, text "]"), (.braceOpen, text "\x7b"), (.braceClose, text "\x7d"),
   (.angleOpen, text "<"), (.angleClose, text ">"), (.semicolon, text ";"), (.comma, text ","),
   (.dotDotDot, text "..."), (.dot, text "."), (.question, text "?"), (.colon, text ":"),
   (.fatArrow, text "=>"), (.equals, text "="), (.pipe, text "|"), (.amp, text "&"),
   (.bang, text "!"), (.plus, text "+"), (.minus, text "-"), (.star, text "*"),
   (.slash, text "/"), (.percent, text "%"), (.caret, text "^"), (.tilde, text "~"),
   (.at, text "@"),
   (.stringLiteral, delimited '"' ['\n']), (.stringLiteral, delimited '\'' ['\n']),
   (.templateLiteral, delimited '\x60' []),
   (.number, decimal), (.number, fraction),
   (.number, based ['x', 'X'] ⟨[('0', '9'), ('a', 'f'), ('A', 'F'), ('_', '_')], false⟩),
   (.number, based ['b', 'B'] (.ofList ['0', '1', '_'])),
   (.number, based ['o', 'O'] ⟨[('0', '7'), ('_', '_')], false⟩),
   (.privateName, .seq (char '#') identifier), (.ident, identifier),
   (.whitespace, plus (set (.ofList [' ', '\t', '\x0c']))), (.whitespace, text "\ufeff"),
   (.newline, text "\n"), (.newline, text "\r\n"), (.newline, text "\r"),
   (.lineComment, .seq (text "//") (star (set (.except ['\n', '\r'])))),
   (.blockComment, comment)]

end ImplicitGlobals.TokenRules
