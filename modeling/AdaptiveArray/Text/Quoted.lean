import AdaptiveArray.Text.GraphemeExtend

/-!
Strings between double quotes, as `inspect` shows them.
-/

namespace AdaptiveArray.Text

def escapeCode (c : Char) : List Char :=
  '\\' :: 'u' :: '\x7b' :: Nat.toDigits 16 c.toNat ++ ['\x7d']

/-- A quote and a backslash are escaped, four controls have letters of their own, and any other
character that would not stand on its own is written by its code point. -/
def escape (c : Char) : List Char :=
  match c with
  | '"' => ['\\', '"']
  | '\\' => ['\\', '\\']
  | '\n' => ['\\', 'n']
  | '\r' => ['\\', 'r']
  | '\t' => ['\\', 't']
  | '\x00' => ['\\', '0']
  | c => if isCombining c || !isPrintable c then escapeCode c else [c]

def quote (text : String) : String :=
  String.ofList ('"' :: text.toList.flatMap escape ++ ['"'])

end AdaptiveArray.Text
