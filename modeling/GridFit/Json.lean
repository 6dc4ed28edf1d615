/-!
# JSON documents

The documents that reports consist of, and their indented text: two blanks a level,
one member a line, and nothing inside the brackets of what is empty.
-/

namespace GridFit

namespace Json

/-- Whether a character stands for itself between quotation marks. -/
def isPlain (c : Char) : Bool :=
  ' ' ≤ c && c != '\"' && c != '\\'

/-- The name of an object field. It needs no escapes. -/
structure Name where
  /-- The text between the quotation marks. -/
  text : String
  /-- All characters stand for themselves. -/
  plain : text.toList.all isPlain = true := by decide +kernel
deriving DecidableEq, Repr

end Json

/-- A JSON document made of integers, truth values, arrays and objects. -/
inductive Json where
  | int (n : Int)
  | bool (b : Bool)
  | array (items : List Json)
  | object (fields : List (Json.Name × Json))
deriving Repr

namespace Json

/-- A line break and the blanks of a level. -/
def newline (level : Nat) : String :=
  "\n" ++ String.ofList (List.replicate (2 * level) ' ')

/-- Brackets around members that stand on a line each. -/
def enclose (opening closing : String) (level : Nat) (members : List String) : String :=
  match members with
  | [] => opening ++ closing
  | members =>
      opening ++ newline (level + 1) ++ ("," ++ newline (level + 1)).intercalate members
        ++ newline level ++ closing

mutual

/-- The text of a document whose first line is already indented. -/
def render (level : Nat) : Json → String
  | int n => toString n
  | bool true => "true"
  | bool false => "false"
  | array items => enclose "[" "]" level (renderItems (level + 1) items)
  | object fields => enclose "\x7b" "\x7d" level (renderFields (level + 1) fields)

/-- The texts of array items. -/
def renderItems (level : Nat) : List Json → List String
  | [] => []
  | item :: rest => render level item :: renderItems level rest

/-- The texts of object fields. -/
def renderFields (level : Nat) : List (Name × Json) → List String
  | [] => []
  | (name, value) :: rest =>
      ("\"" ++ name.text ++ "\": " ++ render level value) :: renderFields level rest

end

/-- The indented text of a document. -/
def pretty (document : Json) : String :=
  render 0 document

end Json

end GridFit
