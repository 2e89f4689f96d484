import TestMatrix.Json.Reader
import TestMatrix.Text.Lines

/-! # Syntax errors shown in their line

The caret is indented by bytes, as the column is counted. -/

namespace TestMatrix

namespace SyntaxError

/-- The line of a text that an error lies in. -/
def line? (error : SyntaxError) (text : String) : Option (List Char) :=
  (splitLines text.toList)[error.position.line - 1]?

/-- The message, with the line and a caret below it when the text has the line. -/
def excerpt (error : SyntaxError) (text : String) : String :=
  match error.line? text with
  | none => error.message
  | some line =>
    let caret := List.replicate (error.position.column - 1) ' ' ++ ['^']
    String.ofList (error.message.toList ++ '\n' :: trimEnd line ++ '\n' :: caret)

end SyntaxError

end TestMatrix
