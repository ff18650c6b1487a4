import FilterLang.Binary64.Style
import FilterLang.Expr.Basic

namespace FilterLang

/-- Source text has no exponents, and whole numbers have no point. The names of the numbers that
    are not finite do not read back. -/
def sourceNumber : NumberStyle where
  tie := .up
  positional := none
  point := false
  nan := "NaN"
  infinity := "inf"
  negativeInfinity := "-inf"

/-- A string between quotes. There are no escapes, so a value with double quotes takes single
    ones. -/
def quoted (value : String) : String :=
  if value.toList.contains '"' then "'" ++ value ++ "'" else "\"" ++ value ++ "\""

def Literal.source : Literal → String
  | number value => sourceNumber.render value
  | string value => quoted value
  | boolean true => "true"
  | boolean false => "false"
  | null => "null"

namespace Expr

def group (grouped : Bool) (text : String) : String :=
  if grouped then "(" ++ text ++ ")" else text

mutual

def source : Expr → String
  | identifier name g => group g name
  | literal value g => group g value.source
  | array elements g => group g ("[" ++ elementsSource elements ++ "]")
  | member object property true g => group g (object.source ++ "[" ++ property.source ++ "]")
  | member object property false g => group g (object.source ++ "." ++ property.source)
  | binary operator left right g =>
    group g (left.source ++ " " ++ operator.symbol ++ " " ++ right.source)

def elementsSource : List Expr → String
  | [] => ""
  | [element] => element.source
  | element :: elements => element.source ++ ", " ++ elementsSource elements

end

end Expr

end FilterLang
