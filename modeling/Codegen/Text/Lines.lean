namespace Codegen.Text

/-- A line read backwards, without the carriage return it ends in. -/
def dropReturn : List Char → List Char
  | '\r' :: line => line
  | line => line

/-- Cuts the rest of a text after each line feed, where `line` holds the current line backwards. -/
def cutLines (line : List Char) : List Char → List (List Char)
  | [] => if line.isEmpty then [] else [line.reverse]
  | c :: rest =>
    if c = '\n' then (dropReturn line).reverse :: cutLines [] rest else cutLines (c :: line) rest

/-- The lines of a text. A line ends at a line feed, or at a carriage return and a line feed; what
follows the last line feed is a line of its own unless it is empty. -/
def lines (s : String) : List String :=
  (cutLines [] s.toList).map String.ofList

/-- Each line of a text behind a margin, ended by a line feed. -/
def indent (margin : String) (s : String) : String :=
  String.join ((lines s).map fun line => margin ++ line ++ "\n")

end Codegen.Text
