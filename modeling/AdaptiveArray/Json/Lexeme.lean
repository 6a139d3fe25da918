import AdaptiveArray.Json.Problem

/-!
The lexemes of JSON: blanks, words, strings and numerals.

Each scanner reads one lexeme from the front of a text and answers what is left.
-/

namespace AdaptiveArray.Json

def isBlank (c : Char) : Bool :=
  c = ' ' || c = '\n' || c = '\t' || c = '\r'

def skipBlanks (text : List Char) : List Char :=
  text.dropWhile isBlank

def word : List Char → List Char → Except Problem (List Char)
  | [], text => .ok text
  | _ :: _, [] => .error .truncated
  | w :: ws, c :: text => if w = c then word ws text else .error .malformed

def hexDigit? (c : Char) : Option Nat :=
  if '0' ≤ c && c ≤ '9' then some (c.toNat - 48)
  else if 'a' ≤ c && c ≤ 'f' then some (c.toNat - 87)
  else if 'A' ≤ c && c ≤ 'F' then some (c.toNat - 55)
  else none

/-- Four hexadecimal digits.  The text counts as ended when fewer than four bytes are left. -/
def hexCode (text : List Char) : Except Problem (Nat × List Char) :=
  match text with
  | a :: b :: c :: d :: rest =>
      match hexDigit? a, hexDigit? b, hexDigit? c, hexDigit? d with
      | some a, some b, some c, some d => .ok (a * 4096 + b * 256 + c * 16 + d, rest)
      | _, _, _, _ => .error .malformed
  | short =>
      if short.foldl (fun n c => n + c.utf8Size) 0 < 4 then .error .truncated else .error .malformed

/-- A character from its code, which for a character beyond the first plane is followed by the
second half of a surrogate pair. -/
def escapedCode (text : List Char) : Except Problem (Char × List Char) := do
  let (code, rest) ← hexCode text
  if 0xdc00 ≤ code && code < 0xe000 then throw .malformed
  else if 0xd800 ≤ code && code < 0xdc00 then
    let rest ← word ['\\', 'u'] rest
    let (low, rest) ← hexCode rest
    if 0xdc00 ≤ low && low < 0xe000 then
      return (Char.ofNat (0x10000 + (code - 0xd800) * 1024 + (low - 0xdc00)), rest)
    else throw .malformed
  else return (Char.ofNat code, rest)

def simpleEscape? : Char → Option Char
  | '"' => some '"'
  | '\\' => some '\\'
  | '/' => some '/'
  | 'b' => some '\x08'
  | 'f' => some '\x0c'
  | 'n' => some '\n'
  | 'r' => some '\r'
  | 't' => some '\t'
  | _ => none

/-- What follows a backslash.  `strict` is false in a text that is only skipped, where any code will
do. -/
def escaped (strict : Bool) : List Char → Except Problem (Char × List Char)
  | [] => .error .truncated
  | 'u' :: rest =>
      if strict then escapedCode rest else (hexCode rest).map fun (_, rest) => ('u', rest)
  | c :: rest =>
      match simpleEscape? c with
      | some c => .ok (c, rest)
      | none => .error .malformed

def stringBody (strict : Bool) : (steps : Nat) → (done : List Char) → List Char →
    Except Problem (String × List Char)
  | 0, _, _ => .error .truncated
  | _ + 1, _, [] => .error .truncated
  | steps + 1, done, c :: rest =>
      if c = '"' then .ok (String.ofList done.reverse, rest)
      else if c = '\\' then do
        let (c, rest) ← escaped strict rest
        stringBody strict steps (c :: done) rest
      else if c.toNat < 32 then .error .malformed
      else stringBody strict steps (c :: done) rest

def string (text : List Char) : Except Problem (String × List Char) :=
  stringBody true (text.length + 1) [] text

def skipString (text : List Char) : Except Problem (List Char) :=
  (stringBody false (text.length + 1) [] text).map Prod.snd

structure Numeral where
  negative : Bool
  whole : List Char
  fraction : List Char
  exponent : Option (Bool × List Char)
  deriving DecidableEq, Repr

def digits (text : List Char) : List Char × List Char :=
  text.span Char.isDigit

def someDigits (atEnd : Problem) (text : List Char) : Except Problem (List Char × List Char) :=
  match digits text with
  | ([], []) => .error atEnd
  | ([], _ :: _) => .error .malformed
  | (ds, rest) => .ok (ds, rest)

def wholePart (atEnd : Problem) (text : List Char) : Except Problem (List Char × List Char) := do
  let (ds, rest) ← someDigits atEnd text
  match ds with
  | '0' :: _ :: _ => throw .malformed
  | ds => return (ds, rest)

def fractionPart (atEnd : Problem) : List Char → Except Problem (List Char × List Char)
  | '.' :: rest => someDigits atEnd rest
  | text => .ok ([], text)

def exponentPart (atEnd : Problem) : List Char →
    Except Problem (Option (Bool × List Char) × List Char)
  | [] => .ok (none, [])
  | c :: rest =>
      if c = 'e' || c = 'E' then do
        let (positive, rest) := match rest with
          | '+' :: rest => (true, rest)
          | '-' :: rest => (false, rest)
          | rest => (true, rest)
        let (ds, rest) ← someDigits atEnd rest
        return (some (positive, ds), rest)
      else .ok (none, c :: rest)

def unsignedNumeral (negative : Bool) (atEnd : Problem) (text : List Char) :
    Except Problem (Numeral × List Char) := do
  let (whole, rest) ← wholePart atEnd text
  let (fraction, rest) ← fractionPart atEnd rest
  let (exponent, rest) ← exponentPart atEnd rest
  return (⟨negative, whole, fraction, exponent⟩, rest)

def numeral (atEnd : Problem) : List Char → Except Problem (Numeral × List Char)
  | '-' :: rest => unsignedNumeral true atEnd rest
  | text => unsignedNumeral false atEnd text

end AdaptiveArray.Json
