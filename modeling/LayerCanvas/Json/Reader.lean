import LayerCanvas.Json.Basic

/-!
Reading JSON text. The reader is a machine that is fed one character at a time: its state holds the
arrays and objects that are still open, innermost first, and what may come next. A text is a value
when the machine accepts every character of it and has a finished value at the end. Nothing but the
list of open containers grows with the nesting, so values may be nested to any depth.
-/

set_option autoImplicit false
set_option relaxedAutoImplicit false

namespace LayerCanvas.Json.Reader

/-- A container that is still open. What it holds so far is listed last first; an object that waits
for the value of a member also holds its key. -/
inductive Frame
  | array (items : List Json)
  | object (members : List (Option String × Json))
  | member (members : List (Option String × Json)) (key : Option String)

/-- How far a string has been read: its letters, last first, the first half of a surrogate pair
that waits for the second, and whether a half has been left without its other half. -/
structure Letters where
  letters : List Char := []
  half : Option Nat := none
  broken : Bool := false

namespace Letters

/-- A character that stands for itself, after which a waiting half stays alone. -/
def push (l : Letters) (c : Char) : Letters :=
  { letters := c :: l.letters, half := none, broken := l.broken || l.half.isSome }

/-- An escaped code unit. A high half waits, a low one completes the half that waits for it, and
any other unit is a character. -/
def pushUnit (l : Letters) (unit : Nat) : Letters :=
  if 0xD800 ≤ unit ∧ unit < 0xDC00 then
    { letters := l.letters, half := some unit, broken := l.broken || l.half.isSome }
  else if 0xDC00 ≤ unit ∧ unit < 0xE000 then
    match l.half with
    | some high =>
      { letters := Char.ofNat (0x10000 + (high - 0xD800) * 0x400 + (unit - 0xDC00)) :: l.letters
        half := none
        broken := l.broken }
    | none => { l with broken := true }
  else l.push (Char.ofNat unit)

/-- The text of a string that ends here. -/
def text? (l : Letters) : Option String :=
  if l.broken || l.half.isSome then none else some (String.ofList l.letters.reverse)

end Letters

/-- Where the machine is within a string. -/
inductive TextPhase
  | plain
  | escaped
  /-- Inside an escaped code unit: how many digits are to come, and the number so far. -/
  | unit (left : Nat) (value : Nat)

/-- Where the machine is within a numeral. -/
inductive NumeralPhase
  | minus
  | zero
  | whole
  | point
  | fraction
  | mark
  | sign
  | exponent

/-- What the machine is reading. -/
inductive Mode
  /-- A value must begin. -/
  | value
  /-- An array was opened: its first value or its end. -/
  | firstItem
  /-- An object was opened: its first key or its end. -/
  | firstKey
  /-- A key must begin. -/
  | key
  /-- A colon must come. -/
  | colon
  /-- A value inside a container is complete: a comma or the end of the container. -/
  | next
  /-- The whole value is complete. -/
  | done (v : Json)
  | text (isKey : Bool) (letters : Letters) (phase : TextPhase)
  | numeral (n : Numeral) (phase : NumeralPhase)
  /-- Within one of the three words: the letters to come, and the value it stands for. -/
  | word (left : List Char) (v : Json)

/-- What may come next, and the open containers, innermost first. -/
structure State where
  mode : Mode := .value
  stack : List Frame := []

/-- The blanks that may stand between the parts of a value. -/
def isBlank (c : Char) : Bool := c = ' ' || c = '\t' || c = '\n' || c = '\r'

/-- Puts a complete value in its place. -/
def complete (v : Json) : List Frame → Option State
  | [] => some ⟨.done v, []⟩
  | .array items :: stack => some ⟨.next, .array (v :: items) :: stack⟩
  | .member members key :: stack => some ⟨.next, .object ((key, v) :: members) :: stack⟩
  | .object _ :: _ => none

/-- Puts a complete string in its place, as a key or as a value. -/
def completeText (isKey : Bool) (t : Option String) (stack : List Frame) : Option State :=
  if isKey then
    match stack with
    | .object members :: stack => some ⟨.colon, .member members t :: stack⟩
    | _ => none
  else complete (.text t) stack

/-- The first character of a value. -/
def beginValue (c : Char) (stack : List Frame) : Option State :=
  match Digit.ofChar? c with
  | some d => some ⟨.numeral ⟨false, [d], [], none⟩ (if d = .zero then .zero else .whole), stack⟩
  | none =>
    if c = '[' then some ⟨.firstItem, .array [] :: stack⟩
    else if c = '{' then some ⟨.firstKey, .object [] :: stack⟩
    else if c = '"' then some ⟨.text false {} .plain, stack⟩
    else if c = '-' then some ⟨.numeral ⟨true, [], [], none⟩ .minus, stack⟩
    else if c = 't' then some ⟨.word ['r', 'u', 'e'] (.bool true), stack⟩
    else if c = 'f' then some ⟨.word ['a', 'l', 's', 'e'] (.bool false), stack⟩
    else if c = 'n' then some ⟨.word ['u', 'l', 'l'] .null, stack⟩
    else none

/-- The first character of a key. -/
def beginKey (c : Char) (stack : List Frame) : Option State :=
  if c = '"' then some ⟨.text true {} .plain, stack⟩ else none

/-- A character after a complete value. -/
def afterValue (c : Char) (s : State) : Option State :=
  if isBlank c then some s
  else
    match s.mode, s.stack with
    | .next, .array items :: stack =>
      if c = ',' then some ⟨.value, s.stack⟩
      else if c = ']' then complete (.array items.reverse) stack
      else none
    | .next, .object members :: stack =>
      if c = ',' then some ⟨.key, s.stack⟩
      else if c = '}' then complete (.object members.reverse) stack
      else none
    | _, _ => none

/-- The value of a hexadecimal digit. -/
def hexValue? (c : Char) : Option Nat :=
  let n := c.toNat
  if 48 ≤ n ∧ n < 58 then some (n - 48)
  else if 97 ≤ n ∧ n < 103 then some (n - 87)
  else if 65 ≤ n ∧ n < 71 then some (n - 55)
  else none

/-- The character that a letter after a backslash stands for. -/
def shortEscape? (c : Char) : Option Char :=
  if c = '"' ∨ c = '\\' ∨ c = '/' then some c
  else if c = 'b' then some '\x08'
  else if c = 'f' then some '\x0c'
  else if c = 'n' then some '\n'
  else if c = 'r' then some '\r'
  else if c = 't' then some '\t'
  else none

/-- A character inside a string. -/
def stepText (isKey : Bool) (l : Letters) (phase : TextPhase) (c : Char) (stack : List Frame) :
    Option State :=
  match phase with
  | .plain =>
    if c = '"' then completeText isKey l.text? stack
    else if c = '\\' then some ⟨.text isKey l .escaped, stack⟩
    else if c.toNat < 32 then none
    else some ⟨.text isKey (l.push c) .plain, stack⟩
  | .escaped =>
    if c = 'u' then some ⟨.text isKey l (.unit 4 0), stack⟩
    else (shortEscape? c).map fun e ↦ ⟨.text isKey (l.push e) .plain, stack⟩
  | .unit left value =>
    (hexValue? c).map fun d ↦
      let value := 16 * value + d
      if left ≤ 1 then ⟨.text isKey (l.pushUnit value) .plain, stack⟩
      else ⟨.text isKey l (.unit (left - 1) value), stack⟩

/-- One more character of a numeral, if it can be continued by it. -/
def extend (n : Numeral) (phase : NumeralPhase) (c : Char) : Option (Numeral × NumeralPhase) :=
  match Digit.ofChar? c with
  | some d =>
    match phase with
    | .minus => some ({ n with whole := [d] }, if d = .zero then .zero else .whole)
    | .zero => none
    | .whole => some ({ n with whole := n.whole ++ [d] }, .whole)
    | .point | .fraction => some ({ n with fraction := n.fraction ++ [d] }, .fraction)
    | .mark => some ({ n with exponent := some ⟨false, [d]⟩ }, .exponent)
    | .sign | .exponent =>
      some ({ n with exponent := n.exponent.map fun e ↦ { e with digits := e.digits ++ [d] } },
        .exponent)
  | none =>
    match phase with
    | .zero | .whole =>
      if c = '.' then some (n, .point)
      else if c = 'e' ∨ c = 'E' then some (n, .mark)
      else none
    | .fraction => if c = 'e' ∨ c = 'E' then some (n, .mark) else none
    | .mark =>
      if c = '+' then some ({ n with exponent := some ⟨false, []⟩ }, .sign)
      else if c = '-' then some ({ n with exponent := some ⟨true, []⟩ }, .sign)
      else none
    | .minus | .point | .sign | .exponent => none

/-- Whether a numeral may end here. -/
def NumeralPhase.mayEnd : NumeralPhase → Bool
  | .zero | .whole | .fraction | .exponent => true
  | .minus | .point | .mark | .sign => false

/-- Feeds one character to the machine. -/
def step (s : State) (c : Char) : Option State :=
  match s.mode with
  | .value => if isBlank c then some s else beginValue c s.stack
  | .firstItem =>
    if isBlank c then some s
    else if c = ']' then
      match s.stack with
      | .array items :: stack => complete (.array items.reverse) stack
      | _ => none
    else beginValue c s.stack
  | .firstKey =>
    if isBlank c then some s
    else if c = '}' then
      match s.stack with
      | .object members :: stack => complete (.object members.reverse) stack
      | _ => none
    else beginKey c s.stack
  | .key => if isBlank c then some s else beginKey c s.stack
  | .colon =>
    if isBlank c then some s else if c = ':' then some ⟨.value, s.stack⟩ else none
  | .next | .done _ => afterValue c s
  | .text isKey letters phase => stepText isKey letters phase c s.stack
  | .numeral n phase =>
    match extend n phase c with
    | some (n, phase) => some ⟨.numeral n phase, s.stack⟩
    | none => if phase.mayEnd then (complete (.number n) s.stack).bind (afterValue c) else none
  | .word left v =>
    match left with
    | [] => none
    | [last] => if c = last then complete v s.stack else none
    | letter :: more => if c = letter then some ⟨.word more v, s.stack⟩ else none

/-- The value of a machine that has been fed the whole text. -/
def finish (s : State) : Option Json :=
  match s.mode, s.stack with
  | .done v, [] => some v
  | .numeral n phase, [] => if phase.mayEnd then some (.number n) else none
  | _, _ => none

end Reader

/-- The value that a text writes, if it is JSON. -/
def parse? (s : String) : Option Json := (s.toList.foldlM Reader.step {}).bind Reader.finish

end LayerCanvas.Json
