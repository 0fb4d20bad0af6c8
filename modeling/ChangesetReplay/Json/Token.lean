import ChangesetReplay.Json.Basic

/-! # JSON tokens

A text is cut into tokens one character at a time. Blanks between tokens are skipped. -/

namespace ChangesetReplay.Json

inductive Token where
  | openArray
  | closeArray
  | openObject
  | closeObject
  | comma
  | colon
  | null
  | bool (value : Bool)
  | number (numeral : Numeral)
  | string (raw : List Char)
deriving DecidableEq

namespace Token

def ofPunctuation? (c : Char) : Option Token :=
  if c = '[' then some openArray
  else if c = ']' then some closeArray
  else if c = '\x7b' then some openObject
  else if c = '\x7d' then some closeObject
  else if c = ',' then some comma
  else if c = ':' then some colon
  else none

/-- The token that a run of letters, digits, signs and points makes. -/
def ofWord? (word : List Char) : Option Token :=
  if word = ['n', 'u', 'l', 'l'] then some null
  else if word = ['t', 'r', 'u', 'e'] then some (bool true)
  else if word = ['f', 'a', 'l', 's', 'e'] then some (bool false)
  else (Numeral.ofText? word).map number

end Token

def isSpace (c : Char) : Bool := c = ' ' ∨ c = '\n' ∨ c = '\t' ∨ c = '\r'

def isWordChar (c : Char) : Bool := c.isAlphanum ∨ c = '-' ∨ c = '+' ∨ c = '.'

/-- Where the scan stands: between tokens, in a word, or in a string, and there perhaps after a
backslash or before the last digits of a unit. What was read of the token comes last character
first. -/
inductive Scan where
  | between
  | word (read : List Char)
  | string (read : List Char)
  | escape (read : List Char)
  | unit (read : List Char) (missing : Nat)
deriving DecidableEq

/-- The tokens found so far, last first, and where the scan stands. -/
structure Scanner where
  found : List Token
  scan : Scan

namespace Scanner

def start : Scanner := ⟨[], .between⟩

/-- Takes a character that begins a token or separates tokens. -/
def begin? (found : List Token) (c : Char) : Option Scanner :=
  if isSpace c then some ⟨found, .between⟩
  else if c = '"' then some ⟨found, .string []⟩
  else if isWordChar c then some ⟨found, .word [c]⟩
  else (Token.ofPunctuation? c).map fun t => ⟨t :: found, .between⟩

def step? (s : Scanner) (c : Char) : Option Scanner :=
  match s.scan with
  | .between => begin? s.found c
  | .word read =>
    if isWordChar c then some ⟨s.found, .word (c :: read)⟩
    else do
      let t ← Token.ofWord? read.reverse
      begin? (t :: s.found) c
  | .string read =>
    if c = '"' then some ⟨.string read.reverse :: s.found, .between⟩
    else if c = '\\' then some ⟨s.found, .escape (c :: read)⟩
    else if c.toNat < 0x20 then none
    else some ⟨s.found, .string (c :: read)⟩
  | .escape read =>
    if c = 'u' then some ⟨s.found, .unit (c :: read) 4⟩
    else if (escaped? c).isSome then some ⟨s.found, .string (c :: read)⟩
    else none
  | .unit read missing =>
    if (hexValue? c).isNone then none
    else if missing ≤ 1 then some ⟨s.found, .string (c :: read)⟩
    else some ⟨s.found, .unit (c :: read) (missing - 1)⟩

/-- All tokens, when the text may end here. -/
def finish? (s : Scanner) : Option (List Token) :=
  match s.scan with
  | .between => some s.found.reverse
  | .word read => (Token.ofWord? read.reverse).map fun t => (t :: s.found).reverse
  | _ => none

end Scanner

def tokens? (cs : List Char) : Option (List Token) := do
  (← cs.foldlM Scanner.step? .start).finish?

end ChangesetReplay.Json
