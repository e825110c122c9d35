/-!
# Operator words

A word may name an operator, or it may be derived from one: a slash at its end makes a reduction, a
backslash a scan, and a point stands between the two operators of a product.
-/

namespace ArrayCalc.OperatorWord

/-- The word before the mark of a reduction or a scan, and the mark. -/
def splitMark? (word : String) : Option (String × Char) :=
  match word.toList.reverse with
  | mark :: c :: rest =>
    if mark = '/' ∨ mark = '\\' then some (String.ofList (c :: rest).reverse, mark) else none
  | _ => none

def isFold (word : String) : Bool := (splitMark? word).isSome

def isProduct (word : String) : Bool := word.toList.contains '.'

/-- The texts between the points. -/
def splitPoints : List Char → List (List Char)
  | [] => [[]]
  | c :: rest =>
    if c = '.' then [] :: splitPoints rest
    else match splitPoints rest with
      | first :: others => (c :: first) :: others
      | [] => [[c]]

/-- The operators of a product, from the outermost inwards. -/
def operators (word : String) : List String := (splitPoints word.toList).map String.ofList

/-- The product of some operators. -/
def product (operators : List String) : String := ".".intercalate operators

end ArrayCalc.OperatorWord
