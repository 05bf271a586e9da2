/-!
# Wrapping lines of text

A line is broken between words so that the whole looks even: every line costs a fixed amount, a
line that is too wide costs much, and a line other than the last costs the square of what is left
of it. The breaks with the least total cost are taken.
-/

namespace ArrayGraph.Report

/-- A word with the number of blanks after it. -/
structure Word where
  text : String
  blanks : Nat
deriving DecidableEq, Repr, Inhabited

namespace Word

/-- How many columns a word takes, without the blanks after it. -/
def width (word : Word) : Nat := word.text.length

/-- A word with its blanks. -/
def padded (word : Word) : String := word.text ++ String.ofList (List.replicate word.blanks ' ')

/-- Reads words, one character after the other; the word under way comes last. -/
def step (words : List Word × Word) (c : Char) : List Word × Word :=
  let (done, current) := words
  if c = ' ' then (done, { current with blanks := current.blanks + 1 })
  else if current.blanks = 0 then (done, { current with text := current.text.push c })
  else (done ++ [current], ⟨c.toString, 0⟩)

/-- The words of a line that does not start with a blank. -/
def ofLine (line : String) : List Word :=
  if line.isEmpty then []
  else
    let (done, last) := line.toList.foldl step ([], ⟨"", 0⟩)
    done ++ [last]

/-- The pieces that a list of characters is cut into, each as wide as allowed; `fuel` bounds their
number. -/
def pieces (limit : Nat) : Nat → List Char → List (List Char)
  | 0, characters => [characters]
  | fuel + 1, characters =>
    if characters.length ≤ limit then [characters]
    else characters.take limit :: pieces limit fuel (characters.drop limit)

/-- Cuts a word into pieces that fit. The last piece keeps the blanks. -/
def cut (limit : Nat) (word : Word) : List Word :=
  let characters := word.text.toList
  match (pieces limit characters.length characters).reverse with
  | last :: earlier =>
    (earlier.reverse.map fun piece => ⟨String.ofList piece, 0⟩) ++
      [⟨String.ofList last, word.blanks⟩]
  | [] => [word]

end Word

/-- The width of words on one line, without the blanks after the last one. -/
def lineWidth (words : List Word) : Nat :=
  match words.getLast? with
  | some last =>
    words.foldl (fun total word => total + word.width + word.blanks) 0 - last.blanks
  | none => 0

/-- What a line of words costs, given the width it should have. A short last line of one word costs
a little. -/
def lineCost (target : Nat) (words : List Word) (isLast : Bool) : Nat :=
  let width := lineWidth words
  1000 +
    if target < width then 2500 * (width - target)
    else if !isLast then (target - width) * (target - width)
    else if words.length = 1 && 4 * width < target then 25
    else 0

/-- The best way to break the words before a position: its cost, and where its last line starts. -/
structure Break where
  cost : Nat
  start : Nat
deriving Inhabited

/-- Finds the best way to break the words before the next position. -/
def nextBreak (target : Nat) (words : List Word) (best : List Break) : Break :=
  let stop := best.length
  let candidates := best.zipIdx.map fun (previous, start) =>
    let line := (words.take stop).drop start
    Break.mk (previous.cost + lineCost target line (stop = words.length)) start
  candidates.foldl (fun least candidate => if candidate.cost < least.cost then candidate else least)
    (candidates.headD ⟨0, 0⟩)

/-- The best ways to break the words before each position. -/
def breaks (target : Nat) (words : List Word) : List Break :=
  words.foldl (fun best _ => best ++ [nextBreak target words best]) [⟨0, 0⟩]

/-- The lines that end before a position, the last one first; `fuel` bounds their number. -/
def linesBefore (best : List Break) (words : List Word) : Nat → Nat → List (List Word)
  | 0, _ => []
  | fuel + 1, stop =>
    if stop = 0 then []
    else
      let start := (best[stop]?.getD default).start
      (words.take stop).drop start :: linesBefore best words fuel start

/-- The text of a line of words. -/
def lineText (words : List Word) : String :=
  match words.getLast? with
  | some last => String.join (words.dropLast.map Word.padded) ++ last.text
  | none => ""

/-- Drops the blanks at the end of a text. -/
def trimEnd (text : String) : String :=
  String.ofList (text.toList.reverse.dropWhile (· = ' ')).reverse

/-- Wraps a line to a number of columns. All lines that it becomes are indented as it is, and at
least one column is left for text. -/
def wrapLine (columns : Nat) (line : String) : List String :=
  let characters := line.toList
  let indent := String.ofList (characters.takeWhile (· = ' '))
  let body := String.ofList (characters.dropWhile (· = ' '))
  if indent.isEmpty && body.utf8ByteSize < columns then [trimEnd body]
  else
    let target := max 1 (columns - indent.length)
    let words := (Word.ofLine body).flatMap (Word.cut target)
    let all := if indent.isEmpty then words else ⟨"", 0⟩ :: words
    let wrapped := (linesBefore (breaks target all) all all.length all.length).reverse
    if wrapped.isEmpty then [""] else wrapped.map fun words => indent ++ lineText words

end ArrayGraph.Report
