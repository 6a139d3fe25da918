import AdaptiveArray.Json.Number
import AdaptiveArray.Options

/-!
Options as JSON.

They are an object with the names of the options as keys, or an array with their values
in order.  What is left out has its default; a key that names no option is skipped
together with its value, whatever that is.
-/

namespace AdaptiveArray

namespace Json

def optionNames : List String :=
  ["array_uninitialized_size", "array_small", "array_max_explode_size", "safepoint_stride"]

end Json

namespace Options

def values (o : Options) : List Nat :=
  [o.uninitializedSize, o.smallSize, o.maxExplodeSize, o.safepointStride]

def set (o : Options) (index n : Nat) : Options :=
  match index with
  | 0 => { o with uninitializedSize := n }
  | 1 => { o with smallSize := n }
  | 2 => { o with maxExplodeSize := n }
  | _ => { o with safepointStride := n }

def toJson (o : Options) : String :=
  let entries := (Json.optionNames.zip o.values).map fun (name, n) =>
    "\"" ++ name ++ "\":" ++ toString n
  "\x7b" ++ String.intercalate "," entries ++ "\x7d"

end Options

namespace Json

def misplacedSize (c : Char) (rest : List Char) : Problem :=
  let found : Except Problem Found := do
    if c = 'n' then let _ ← word ['u', 'l', 'l'] rest; return .null
    else if c = 't' then let _ ← word ['r', 'u', 'e'] rest; return .bool true
    else if c = 'f' then let _ ← word ['a', 'l', 's', 'e'] rest; return .bool false
    else if c = '"' then return .string (← string rest).1
    else if c = '[' then return .sequence
    else if c = '\x7b' then return .map
    else throw .malformed
  match found with
  | .ok found => .wrongType found "usize"
  | .error p => p

def size (text : List Char) : Except Problem (Nat × List Char) :=
  match skipBlanks text with
  | [] => .error .truncated
  | c :: rest =>
      if c = '-' || c.isDigit then
        match number (c :: rest) with
        | .ok (.unsigned n, rest) => .ok (n, rest)
        | .ok (.negative i, _) => .error (.wrongValue i "usize")
        | .ok (.float x, _) => .error (.wrongType (.float x) "usize")
        | .error p => .error p
      else .error (misplacedSize c rest)

def skipKey (text : List Char) : Except Problem (List Char) :=
  match skipBlanks text with
  | [] => .error .truncated
  | c :: rest => do
      if c ≠ '"' then throw .malformed
      let rest ← skipString rest
      match skipBlanks rest with
      | ':' :: rest => return rest
      | [] => throw .truncated
      | _ => throw .malformed

def skipScalar (c : Char) (rest : List Char) : Except Problem (List Char) := do
  if c = 'n' then word ['u', 'l', 'l'] rest
  else if c = 't' then word ['r', 'u', 'e'] rest
  else if c = 'f' then word ['a', 'l', 's', 'e'] rest
  else if c = '"' then skipString rest
  else if c = '-' || c.isDigit then return (← numeral .malformed (c :: rest)).2
  else throw .malformed

mutual

/-- Skips a value inside the open brackets `frames`, true for an object, and then what is left of
them.  At most `steps` brackets and values are read. -/
def skipNested : (steps : Nat) → (frames : List Bool) → List Char → Except Problem (List Char)
  | 0, _, _ => .error .truncated
  | steps + 1, frames, text =>
      match skipBlanks text with
      | [] => .error .truncated
      | c :: rest =>
          if c = '[' then skipInside steps false (false :: frames) rest
          else if c = '\x7b' then skipInside steps false (true :: frames) rest
          else do
            let rest ← skipScalar c rest
            skipInside steps true frames rest

def skipInside : (steps : Nat) → (comma : Bool) → (frames : List Bool) → List Char →
    Except Problem (List Char)
  | 0, _, _, _ => .error .truncated
  | _ + 1, _, [], text => .ok text
  | steps + 1, comma, isObject :: frames, text =>
      match skipBlanks text with
      | [] => .error .truncated
      | c :: rest =>
          if c = (if isObject then '\x7d' else ']') then skipInside steps true frames rest
          else if comma && c ≠ ',' then .error .malformed
          else do
            let rest := if comma then rest else c :: rest
            let rest ← if isObject then skipKey rest else pure rest
            skipNested steps (isObject :: frames) rest

end

def skipValue (text : List Char) : Except Problem (List Char) :=
  skipNested (2 * text.length + 2) [] text

def atEnd (text : List Char) : Except Problem Unit :=
  match skipBlanks text with
  | [] => .ok ()
  | _ :: _ => .error .malformed

def positionalOptions : (left : Nat) → (index : Nat) → Options → List Char →
    Except Problem (Options × List Char)
  | left, index, o, text =>
      match skipBlanks text with
      | [] => .error .truncated
      | ']' :: rest => .ok (o, rest)
      | c :: rest =>
          match left with
          | 0 => .error .malformed
          | left + 1 => do
              let text ←
                if index = 0 then pure (c :: rest)
                else if c = ',' then
                  match skipBlanks rest with
                  | [] => throw .truncated
                  | ']' :: _ => throw .malformed
                  | text => pure text
                else throw .malformed
              let (n, text) ← size text
              positionalOptions left (index + 1) (o.set index n) text

def namedOptions : (steps : Nat) → (isFirst : Bool) → (seen : List Nat) → Options → List Char →
    Except Problem (Options × List Char)
  | 0, _, _, _, _ => .error .truncated
  | steps + 1, isFirst, seen, o, text =>
      match skipBlanks text with
      | [] => .error .truncated
      | '\x7d' :: rest => .ok (o, rest)
      | c :: rest => do
          let text ←
            if isFirst then pure (c :: rest)
            else if c = ',' then
              match skipBlanks rest with
              | [] => throw .truncated
              | text => pure text
            else throw .malformed
          match text with
          | '"' :: text =>
              let (key, text) ← string text
              let known := optionNames.idxOf? key
              match known with
              | some index => if index ∈ seen then throw (.duplicateField key)
              | none => pure ()
              match skipBlanks text with
              | [] => throw .truncated
              | ':' :: text =>
                  match known with
                  | some index =>
                      let (n, text) ← size text
                      namedOptions steps false (index :: seen) (o.set index n) text
                  | none =>
                      let text ← skipValue text
                      namedOptions steps false seen o text
              | _ => throw .malformed
          | _ => throw .malformed

def misplacedOptions (c : Char) (rest : List Char) : Problem :=
  if c = '-' || c.isDigit then
    match number (c :: rest) with
    | .ok (n, _) => .wrongType n.found "struct Options"
    | .error p => p
  else match misplacedSize c rest with
    | .wrongType found _ => .wrongType found "struct Options"
    | p => p

end Json

def Options.ofJson (text : String) : Except Json.Problem Options :=
  match Json.skipBlanks text.toList with
  | [] => .error .truncated
  | c :: rest => do
      let (o, rest) ←
        if c = '[' then Json.positionalOptions 4 0 {} rest
        else if c = '\x7b' then Json.namedOptions (rest.length + 1) true [] {} rest
        else throw (Json.misplacedOptions c rest)
      Json.atEnd rest
      return o

end AdaptiveArray
