import ArrayCalc.Expr
import ArrayCalc.Number.Decimal
import ArrayCalc.Text.Quoted

/-!
# Source text of trees

A tree is written as source that a reader takes back to it.  Operators associate to the right, so
only left operands, items of strands and bases of subscripts need parentheses, and of those only
what is neither a single constant nor a variable nor subscripted.  Doubles have no literals of
their own; they are written as calls of `float`, undefined ones as a difference of infinite ones.
-/

namespace ArrayCalc

namespace Scalar

/-- The source text of a scalar. -/
def literalText : Scalar → String
  | .int n => Radix.decimalText n.toInt
  | .rational q => Radix.decimalText q.num ++ "/" ++ Radix.decimalText q.den
  | .float x =>
    match Double.magnitude x with
    | .nan => "(1e999 - 1e999)"
    | .infinite => if x > 0 then "(float 1e999)" else "(float -1e999)"
    | .finite _ _ => "(float " ++ Decimal.shortestText x ++ ")"
  | .complex z => Decimal.shortestText z.re ++ "j" ++ Decimal.shortestText z.im
  | .char c => String.ofList (Text.Quoted.encode [c])

end Scalar

namespace Value

/-- The source text of a vector: quoted if it consists of characters, and otherwise its items side
by side. -/
def vectorText (items : List Scalar) : String :=
  match text? items with
  | some points => String.ofList (Text.Quoted.encode points)
  | none => " ".intercalate (items.map Scalar.literalText)

def literalText : Value → Result String
  | .scalar s => .ok s.literalText
  | .vector items => .ok (vectorText items)
  | .absent => .fault .absentLiteral

end Value

namespace Expr

/-- Single constants and variables. -/
def isAtomic : Expr → Bool
  | .constant _ | .sessionVar _ | .slotVar _ _ => true
  | _ => false

def isIndex : Expr → Bool
  | .index _ _ => true
  | _ => false

/-- The text of a tree where something binds it on both sides. -/
def enclose (e : Expr) (text : String) : String :=
  if e.isAtomic || e.isIndex then text else "(" ++ text ++ ")"

mutual

def text : Expr → String
  | .constant s => s.literalText
  | .string points => Value.vectorText (points.map .char)
  | .sessionVar name => name
  | .slotVar name _ => name
  | .unary operator right => operator ++ " " ++ right.text
  | .binary operator left right => left.enclose left.text ++ " " ++ operator ++ " " ++ right.text
  | .assign target value => target.enclose target.text ++ " = " ++ value.text
  | .conditional condition result => condition.text ++ " : " ++ result.text
  | .index base subscripts =>
    base.enclose base.text ++ "[" ++ "; ".intercalate (texts subscripts) ++ "]"
  | .strand items => " ".intercalate (enclosedTexts items)
  | .empty => ""

def texts : List Expr → List String
  | [] => []
  | e :: rest => e.text :: texts rest

def enclosedTexts : List Expr → List String
  | [] => []
  | e :: rest => e.enclose e.text :: enclosedTexts rest

end

end Expr

end ArrayCalc
