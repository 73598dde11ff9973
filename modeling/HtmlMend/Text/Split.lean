import HtmlMend.Text.Class

/-! # Text: parts of a text

The fields of a text, pieces of it, and what is left without the blanks at its ends. Offsets count
characters. Cutting at an offset beyond the end gives what there is. -/

namespace HtmlMend.Text

/-! ## Fields and pieces -/

/-- The fields of a list that are separated by `sep`: one more than there are separators. -/
def splitChars (sep : Char) : List Char → List (List Char)
  | [] => [[]]
  | c :: cs =>
    if c = sep then [] :: splitChars sep cs
    else match splitChars sep cs with
      | [] => [[c]]
      | field :: fields => (c :: field) :: fields

theorem splitChars_ne_nil (sep : Char) (cs : List Char) : splitChars sep cs ≠ [] := by
  cases cs with
  | nil => simp [splitChars]
  | cons c cs =>
    unfold splitChars
    split
    · simp
    · split <;> simp

/-- The fields of a text that are separated by `sep`. -/
def fields (sep : Char) (s : String) : List String :=
  (splitChars sep s.toList).map String.ofList

/-- The text before the first `sep`; the whole text if there is none. -/
def before (sep : Char) (s : String) : String :=
  String.ofList (s.toList.takeWhile (· ≠ sep))

/-- The characters from offset `start` up to offset `stop`. -/
def slice (s : String) (start stop : Nat) : String :=
  String.ofList ((s.toList.take stop).drop start)

/-- The characters from an offset on. A negative offset counts from the end. -/
def sliceFrom (s : String) (start : Int) : String :=
  let offset := if 0 ≤ start then start else start + s.length
  String.ofList (s.toList.drop offset.toNat)

/-- A text with another put in at an offset. -/
def insertAt (s : String) (offset : Nat) (text : String) : String :=
  String.ofList (s.toList.take offset ++ text.toList ++ s.toList.drop offset)

/-! ## Blanks at the ends -/

/-- The characters of a text without the blanks at its end. -/
def stripEndChars (cs : List Char) : List Char := (cs.reverse.dropWhile isBlank).reverse

/-- The characters of a text without the blanks at its ends. -/
def stripChars (cs : List Char) : List Char := stripEndChars (cs.dropWhile isBlank)

/-- A text without the blanks at its end. -/
def stripEnd (s : String) : String := String.ofList (stripEndChars s.toList)

/-- A text without the blanks at its ends. -/
def strip (s : String) : String := String.ofList (stripChars s.toList)

@[simp] theorem toList_strip (s : String) : (strip s).toList = stripChars s.toList := by
  simp [strip]

@[simp] theorem toList_stripEnd (s : String) : (stripEnd s).toList = stripEndChars s.toList := by
  simp [stripEnd]

end HtmlMend.Text
