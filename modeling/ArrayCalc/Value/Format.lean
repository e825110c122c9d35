import ArrayCalc.Error
import ArrayCalc.Settings

/-!
# Printed values

Exact numbers are printed in the output base and floats by the float format.  A vector of characters
is printed as text, any other vector as its elements with blanks between them.
-/

namespace ArrayCalc

namespace Settings

def intText (settings : Settings) (n : Int) : String :=
  String.ofList (Radix.intText settings.outputBase.toNat n)

def floatText (settings : Settings) (x : Float) : Result String :=
  match FloatFormat.read settings.floatFormat with
  | .error defect => .fault (.floatFormat defect)
  | .ok format =>
    match format.apply x with
    | .ok text => .ok text
    | .error .undefined => .fault .undefinedInteger
    | .error .infinite => .fault .overflow

end Settings

/-- A row of code points as a text. -/
def CodePoint.text (points : List CodePoint) : Result String :=
  match points.mapM char? with
  | some chars => .ok (String.ofList chars)
  | none => .fault .surrogate

namespace Scalar

def format (settings : Settings) : Scalar → Result String
  | .int n => return settings.intText n.toInt
  | .rational q => return settings.intText q.num ++ "/" ++ settings.intText q.den
  | .float x => settings.floatText x
  | .complex z => do return (← settings.floatText z.re) ++ "j" ++ (← settings.floatText z.im)
  | .char c => CodePoint.text [c]

end Scalar

namespace Value

def format (settings : Settings) : Value → Result String
  | .scalar s => s.format settings
  | .vector items =>
    match text? items with
    | some points => CodePoint.text points
    | none => do return " ".intercalate (← items.mapM (Scalar.format settings))
  | .absent => return ""

/-- The values of a line, with blanks between them. -/
def formatAll (settings : Settings) (values : List Value) : Result String := do
  return " ".intercalate (← values.mapM (format settings))

end Value

end ArrayCalc
