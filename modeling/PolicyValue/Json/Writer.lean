import PolicyValue.Json.Quoted

/-!
# Writing JSON

`Json.write` puts the compact text of a tree in front of a rest: no white space, members in the
order of the tree.  Trees that hold a fault are not written by anything; for them the text is that
of `null`.
-/

namespace PolicyValue.Json

mutual

/-- The text of a value in front of a rest. -/
def write : Json → List Char → List Char
  | .null, rest => "null".toList ++ rest
  | .bool true, rest => "true".toList ++ rest
  | .bool false, rest => "false".toList ++ rest
  | .number l, rest => l.write true rest
  | .string (some s), rest => Quoted.write s rest
  | .string none, rest => "null".toList ++ rest
  | .array items, rest => '[' :: items.writeFirst rest
  | .object members, rest => '\x7b' :: members.writeFirst rest
  | .cut _ _, rest => "null".toList ++ rest

/-- The values of an array after its opening bracket. -/
def Items.writeFirst : Items → List Char → List Char
  | .stop _, rest => ']' :: rest
  | .item v vs, rest => v.write (vs.writeNext rest)

/-- The values of an array after one of them. -/
def Items.writeNext : Items → List Char → List Char
  | .stop _, rest => ']' :: rest
  | .item v vs, rest => ',' :: v.write (vs.writeNext rest)

/-- The members of an object after its opening brace. -/
def Members.writeFirst : Members → List Char → List Char
  | .stop _, rest => '\x7d' :: rest
  | .member k v ms, rest => Quoted.write (k.getD "") (':' :: v.write (ms.writeNext rest))

/-- The members of an object after one of them. -/
def Members.writeNext : Members → List Char → List Char
  | .stop _, rest => '\x7d' :: rest
  | .member k v ms, rest => ',' :: Quoted.write (k.getD "") (':' :: v.write (ms.writeNext rest))

end

/-- The compact text of a value. -/
def text (j : Json) : String := String.ofList (j.write [])

end PolicyValue.Json
