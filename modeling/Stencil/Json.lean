/-
  JSON values and their two written forms.

  * `Json.compact` writes a value on one line, `Json.pretty` with one member or
    element to a line;
  * `Json.members?` finds the members of a record, which is written as an object
    or, without its member names, as an array in their order.

  The members of an object are written in the order in which the object holds
  them.
-/

namespace Stencil

/-- A JSON value.  Numbers that are not integers keep only their text. -/
inductive Json where
  | null
  | bool (b : Bool)
  | integer (n : Int)
  | decimal (text : String)
  | string (s : String)
  | array (elements : List Json)
  | object (members : List (String × Json))
  deriving Repr, Inhabited

namespace Json

/-! ## Writing -/

/-- A hexadecimal digit. -/
def hexDigit (n : Nat) : Char :=
  if n < 10 then Char.ofNat (48 + n) else Char.ofNat (87 + n)

/-- A character inside a string: double quotes, backslashes and control
    characters are written with escapes. -/
def escapeChar (c : Char) : List Char :=
  if c = '"' then ['\\', '"']
  else if c = '\\' then ['\\', '\\']
  else if c = '\x08' then ['\\', 'b']
  else if c = '\x0c' then ['\\', 'f']
  else if c = '\n' then ['\\', 'n']
  else if c = '\r' then ['\\', 'r']
  else if c = '\t' then ['\\', 't']
  else if c.toNat < 32 then
    ['\\', 'u', '0', '0', hexDigit (c.toNat / 16), hexDigit (c.toNat % 16)]
  else [c]

/-- A string in double quotes. -/
def quoted (s : String) : String :=
  String.ofList ('"' :: s.toList.flatMap escapeChar ++ ['"'])

mutual

/-- A value on one line, without blanks. -/
def compact : Json → String
  | null => "null"
  | bool true => "true"
  | bool false => "false"
  | integer n => toString n
  | decimal text => text
  | string s => quoted s
  | array elements => "[" ++ ",".intercalate (compactElements elements) ++ "]"
  | object members => "\x7b" ++ ",".intercalate (compactMembers members) ++ "\x7d"

/-- The elements of an array, each on one line. -/
def compactElements : List Json → List String
  | [] => []
  | e :: rest => e.compact :: compactElements rest

/-- The members of an object, each on one line. -/
def compactMembers : List (String × Json) → List String
  | [] => []
  | (name, e) :: rest => (quoted name ++ ":" ++ e.compact) :: compactMembers rest

end

/-- Parts between brackets, each on a line of its own behind `indent` blanks; no
    parts leave the brackets empty. -/
def block (left right : String) (indent : Nat) (parts : List String) : String :=
  if parts = [] then left ++ right
  else
    left ++ "\n" ++ ",\n".intercalate (parts.map (String.ofList (List.replicate (indent + 2) ' ') ++ ·)) ++
      "\n" ++ String.ofList (List.replicate indent ' ') ++ right

mutual

/-- A value with one member or element to a line, inside `indent` blanks. -/
def prettyAt (indent : Nat) : Json → String
  | array elements => block "[" "]" indent (prettyElements (indent + 2) elements)
  | object members => block "\x7b" "\x7d" indent (prettyMembers (indent + 2) members)
  | null => compact null
  | bool b => compact (bool b)
  | integer n => compact (integer n)
  | decimal text => compact (decimal text)
  | string s => compact (string s)

/-- The elements of an array inside `indent` blanks. -/
def prettyElements (indent : Nat) : List Json → List String
  | [] => []
  | e :: rest => e.prettyAt indent :: prettyElements indent rest

/-- The members of an object inside `indent` blanks. -/
def prettyMembers (indent : Nat) : List (String × Json) → List String
  | [] => []
  | (name, e) :: rest => (quoted name ++ ": " ++ e.prettyAt indent) :: prettyMembers indent rest

end

/-- A value with one member or element to a line. -/
def pretty (j : Json) : String :=
  j.prettyAt 0

/-! ## Reading records -/

/-- The text of a string. -/
def string? : Json → Option String
  | string s => some s
  | _ => none

/-- The elements of an array. -/
def array? : Json → Option (List Json)
  | array elements => some elements
  | _ => none

/-- A number of 64 bits without sign. -/
def word? : Json → Option Nat
  | integer n => if 0 ≤ n ∧ n.toNat < UInt64.size then some n.toNat else none
  | _ => none

/-- A value that may be missing or null. -/
def optional? {α : Type} (read : Json → Option α) : Option Json → Option (Option α)
  | none | some null => some none
  | some j => (read j).map some

/-- The members of a record by their names.  A record is an object with these
    members among others, or an array of all of them in their order. -/
def members? (names : List String) : Json → Option (String → Option Json)
  | object members => some fun name => members.lookup name
  | array elements =>
    if elements.length = names.length then some fun name => (names.zip elements).lookup name else none
  | _ => none

/-- The name and the content of a variant: an object with one member. -/
def variant? : Json → Option (String × Json)
  | object [(name, content)] => some (name, content)
  | _ => none

/-- The name of a variant without content: a string, or an object whose one
    member is null. -/
def tag? : Json → Option String
  | string s => some s
  | object [(name, null)] => some name
  | _ => none

end Json

end Stencil
