import LayerCanvas.Json.Basic

/-!
The text of a JSON value, without blanks. Strings escape the quote, the backslash and the control
characters, and leave everything else as it is.
-/

set_option autoImplicit false
set_option relaxedAutoImplicit false

namespace LayerCanvas.Json

/-- A hexadecimal digit, in lower case. -/
def hexDigit (n : Fin 16) : Char :=
  if n.val < 10 then Char.ofNat (48 + n.val) else Char.ofNat (87 + n.val)

/-- The characters that stand for one character inside a string. -/
def escape (c : Char) : List Char :=
  if c = '"' then ['\\', '"']
  else if c = '\\' then ['\\', '\\']
  else if c = '\x08' then ['\\', 'b']
  else if c = '\t' then ['\\', 't']
  else if c = '\n' then ['\\', 'n']
  else if c = '\x0c' then ['\\', 'f']
  else if c = '\r' then ['\\', 'r']
  else if c.toNat < 32 then
    ['\\', 'u', '0', '0', hexDigit (Fin.ofNat 16 (c.toNat / 16)), hexDigit (Fin.ofNat 16 c.toNat)]
  else [c]

/-- A string in quotes, in front of what follows. One that stands for no text is written as half a
surrogate pair. -/
def quote (t : Option String) (rest : List Char) : List Char :=
  match t with
  | some s => '"' :: (s.toList.flatMap escape ++ '"' :: rest)
  | none => "\"\\ud800\"".toList ++ rest

mutual

/-- The characters of a value, in front of what follows. -/
def onto (rest : List Char) : Json → List Char
  | .null => "null".toList ++ rest
  | .bool true => "true".toList ++ rest
  | .bool false => "false".toList ++ rest
  | .number n => n.chars ++ rest
  | .text t => quote t rest
  | .array [] => '[' :: ']' :: rest
  | .array (v :: vs) => '[' :: onto (itemsOnto rest vs) v
  | .object [] => '{' :: '}' :: rest
  | .object ((key, v) :: ms) => '{' :: quote key (':' :: onto (membersOnto rest ms) v)

/-- The items of an array after the first one, and its closing bracket. -/
def itemsOnto (rest : List Char) : List Json → List Char
  | [] => ']' :: rest
  | v :: vs => ',' :: onto (itemsOnto rest vs) v

/-- The members of an object after the first one, and its closing brace. -/
def membersOnto (rest : List Char) : List (Option String × Json) → List Char
  | [] => '}' :: rest
  | (key, v) :: ms => ',' :: quote key (':' :: onto (membersOnto rest ms) v)

end

/-- The text of a value. -/
def render (v : Json) : String := String.ofList (v.onto [])

end LayerCanvas.Json
