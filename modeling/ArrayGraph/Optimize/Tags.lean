import ArrayGraph.Text

/-!
# Sets of tags

Rules and stages carry tags, and queries select by them. A set of tags lists each tag once, in
alphabetical order.
-/

namespace ArrayGraph

/-- Whether a character is a control character. -/
def Text.isControl (c : Char) : Bool := c.toNat < 0x20 || (0x7f ≤ c.toNat && c.toNat < 0xa0)

/-- A character as it stands between double quotes: the quote itself, the backslash and control
characters are escaped. -/
def Text.escapeChar (c : Char) : String :=
  match c with
  | '"' => "\\\""
  | '\\' => "\\\\"
  | '\n' => "\\n"
  | '\r' => "\\r"
  | '\t' => "\\t"
  | _ =>
    if c.toNat = 0 then "\\0"
    else if isControl c then "\\u" ++ braced [String.ofList (Nat.toDigits 16 c.toNat)]
    else c.toString

/-- The characters of a text as they stand between double quotes. -/
def Text.escape (text : String) : String := String.join (text.toList.map Text.escapeChar)

/-- A text in double quotes. -/
def Text.doubleQuoted (text : String) : String := "\"" ++ Text.escape text ++ "\""

/-- A set of tags. -/
structure TagSet where
  tags : List String
deriving DecidableEq, Repr, Inhabited

namespace TagSet

/-- A list with a tag at its place in alphabetical order, unless it is there already. -/
def insertSorted (tag : String) : List String → List String
  | [] => [tag]
  | head :: rest =>
    if tag = head then head :: rest
    else if tag < head then tag :: head :: rest
    else head :: insertSorted tag rest

/-- The set without tags. -/
def empty : TagSet := ⟨[]⟩

/-- A set with some more tags. -/
def insertAll (set : TagSet) (tags : List String) : TagSet :=
  ⟨tags.foldl (fun sorted tag => insertSorted tag sorted) set.tags⟩

/-- The set of the tags in a list. -/
def ofList (tags : List String) : TagSet := empty.insertAll tags

/-- Whether a tag is in a set. -/
def contains (set : TagSet) (tag : String) : Bool := tag ∈ set.tags

/-- Whether two sets have a tag in common. -/
def meets (left right : TagSet) : Bool := left.tags.any right.contains

/-- Whether all tags of the first set are in the second. -/
def isSubset (left right : TagSet) : Bool := left.tags.all right.contains

/-- The text of a set. -/
def text (set : TagSet) : String := Text.braced (set.tags.map Text.doubleQuoted)

end TagSet

end ArrayGraph
