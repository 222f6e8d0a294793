import DerivedTelemetry.Function.Logic
import DerivedTelemetry.Function.Registry

/-!
# The built-in functions
-/

namespace DerivedTelemetry.Builtin

def math (name : String) (arity : Arity) (function : Math.NumericFunction)
    (description : String) : Entry :=
  ⟨name, .math, description, .numeric arity function⟩

def mathFunctions : List Entry :=
  [math "sqrt" (.exact 1) Math.sqrt "Square root: sqrt(x)",
   math "pow" (.exact 2) Math.pow "Power: pow(base, exponent)",
   math "abs" (.exact 1) Math.abs "Absolute value: abs(x)",
   math "log" (.exact 1) Math.log "Natural logarithm: log(x)",
   math "log10" (.exact 1) Math.log10 "Base-10 logarithm: log10(x)",
   math "exp" (.exact 1) Math.exp "Exponential: exp(x) = e^x",
   math "sin" (.exact 1) Math.sin "Sine: sin(x) in radians",
   math "cos" (.exact 1) Math.cos "Cosine: cos(x) in radians",
   math "tan" (.exact 1) Math.tan "Tangent: tan(x) in radians",
   math "asin" (.exact 1) Math.asin "Arc sine: asin(x) in radians",
   math "acos" (.exact 1) Math.acos "Arc cosine: acos(x) in radians",
   math "atan" (.exact 1) Math.atan "Arc tangent: atan(x) in radians",
   math "round" (.exact 1) Math.round "Round to nearest integer: round(x)",
   math "floor" (.exact 1) Math.floor "Floor: floor(x)",
   math "ceil" (.exact 1) Math.ceil "Ceiling: ceil(x)",
   math "min" (.atLeast 1) Math.min "Minimum value: min(x, y, ...)",
   math "max" (.atLeast 1) Math.max "Maximum value: max(x, y, ...)"]

def logic (name : String) (implementation : Implementation) (description : String) :
    Entry :=
  ⟨name, .logic, description, implementation⟩

def logicFunctions : List Entry :=
  [logic "if" (.lazy (.exact 3) Logic.ifThenElse)
     "Conditional: if(condition, trueValue, falseValue)",
   logic "and" (.lazy (.atLeast 1) Logic.and)
     "Logical AND: and(x, y, ...) - returns 1 if all non-zero, else 0",
   logic "or" (.lazy (.atLeast 1) Logic.or)
     "Logical OR: or(x, y, ...) - returns 1 if any non-zero, else 0",
   logic "not" (.numeric (.exact 1) Logic.not)
     "Logical NOT: not(x) - returns 1 if x is 0, else 0"]

/-- A variable and a window. -/
def windowSignature : List ArgumentKind := [.literal, .literal]

/-- A variable, a rank and a window. -/
def rankSignature : List ArgumentKind := [.literal, .number, .literal]

def statistical (name : String) (signature : List ArgumentKind)
    (reduction : Statistics.Reduction) (description : String) : Entry :=
  ⟨name, .statistical, description, .statistical signature reduction⟩

def statisticalFunctions : List Entry :=
  [statistical "avg" windowSignature Statistics.average
     "Average over time window: avg(\"variable\", \"1h\")",
   statistical "sum" windowSignature Statistics.sum
     "Sum over time window: sum(\"variable\", \"24h\")",
   statistical "count" windowSignature Statistics.count
     "Number of samples in time window: count(\"variable\", \"1h\")",
   statistical "stddev" windowSignature Statistics.deviation
     "Population standard deviation: stddev(\"variable\", \"1h\")",
   statistical "median" windowSignature Statistics.median
     "Median over time window: median(\"variable\", \"1h\")",
   statistical "minTime" windowSignature Statistics.minimum
     "Minimum over time window: minTime(\"variable\", \"24h\")",
   statistical "maxTime" windowSignature Statistics.maximum
     "Maximum over time window: maxTime(\"variable\", \"7d\")",
   statistical "rate" windowSignature Statistics.rate
     "Change per hour over time window: rate(\"variable\", \"1h\")",
   statistical "movingAvg" windowSignature Statistics.movingAverage
     "Moving average: movingAvg(\"variable\", \"15m\")",
   statistical "percentChange" windowSignature Statistics.percentChange
     "Percent change over time window: percentChange(\"variable\", \"1h\")",
   statistical "percentile" rankSignature Statistics.percentile
     "Nearest-rank percentile: percentile(\"variable\", 95, \"1h\")"]

def entries : List Entry := mathFunctions ++ logicFunctions ++ statisticalFunctions

/-- The registry of every built-in function. -/
def registry : Registry := (Registry.empty.registerAll entries).2

end DerivedTelemetry.Builtin
