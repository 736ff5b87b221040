import RelQuery.Expr.Display
import RelQuery.JoinKind
import RelQuery.Operator.Kind
import RelQuery.Schema
import RelQuery.Tuple

namespace RelQuery

inductive StorageError
  | tableNotFound (table : String)
  | tableAlreadyExists (table : String)
  | invalidLocation (location : Location)
  | columnCount (table : String) (expected actual : Nat)
  | invalidValue (cause : ValueError)
  | lockPoisoned (reason : String)

def StorageError.message : StorageError → String
  | tableNotFound t => "table not found: " ++ t
  | tableAlreadyExists t => "table already exists: " ++ t
  | invalidLocation l => "invalid tuple location: " ++ l.display
  | columnCount t expected actual =>
    "table " ++ t ++ " has " ++ toString expected ++ " columns, got " ++ toString actual ++
      " values"
  | invalidValue e => "invalid value: " ++ e.message
  | lockPoisoned reason => "internal lock poisoned: " ++ reason

/-- Failures of the evaluation of an expression. -/
inductive EvalError
  | unresolved (cause : ResolveError)
  | tupleTooShort (name : ColumnName)
  | divisionByZero
  | overflow
  | sumOverflow (fn : AggregateFunction)
  | ungrouped (aggregate : Expr)
  | argumentCount (fn : ScalarFunction)
  | undefinedFor (fn : ScalarFunction) (typeName : String)
  | notSummable (fn : AggregateFunction) (typeName : String)
  | value (cause : ValueError)
  | refused (reason : String)

def ResolveError.message : ResolveError → String
  | unknown c => "unknown column " ++ c.display
  | ambiguous c => "ambiguous column reference " ++ c.display

namespace EvalError

/-- A value of the wrong type, in a place that expects another. -/
def mismatch (expected actual : String) : EvalError := value (.typeMismatch expected actual none)

def message : EvalError → String
  | unresolved e => e.message
  | tupleTooShort c => "tuple is too short for column " ++ c.display
  | divisionByZero => "division by zero"
  | overflow => "integer overflow"
  | sumOverflow f => "integer overflow in " ++ f.display
  | ungrouped e =>
    "aggregate " ++ e.display ++ " cannot be evaluated outside of a grouping operator"
  | argumentCount f => f.display ++ " takes exactly one argument"
  | undefinedFor f type => f.display ++ " is not defined for " ++ type
  | notSummable f type => f.display ++ " cannot be applied to " ++ type
  | value e => e.message
  | refused reason => reason

end EvalError

inductive ArgumentError
  | rowWidth (values columns : Nat)
  | unmatchedWildcard (table : String)
  | emptyTableName
  | missingJoinColumn (column side : String)
  | ambiguousJoinColumn (column side : String)

def ArgumentError.message : ArgumentError → String
  | rowWidth values columns =>
    "row has " ++ toString values ++ " values but " ++ toString columns ++ " columns were declared"
  | unmatchedWildcard t => t ++ ".* does not match any table in the input"
  | emptyTableName => "table name must not be empty"
  | missingJoinColumn c side => "join column " ++ c ++ " does not exist in the " ++ side ++ " input"
  | ambiguousJoinColumn c side => "join column " ++ c ++ " is ambiguous in the " ++ side ++ " input"

/-- Aggregate calls where none may stand. -/
inductive PlacementError
  | notAllowedIn (clause : String) (aggregate : Expr)
  | nested (aggregate : Expr)

def PlacementError.message : PlacementError → String
  | notAllowedIn clause e =>
    "aggregate functions are not allowed in " ++ clause ++ ": " ++ e.display
  | nested e => "nested aggregate function " ++ e.display

inductive ConfigurationError
  | rightOuterJoin
  | unswappable (kind : JoinKind)

def ConfigurationError.message : ConfigurationError → String
  | rightOuterJoin => "RIGHT OUTER joins run as LEFT OUTER joins with swapped children"
  | unswappable k => k.display ++ " joins cannot swap their output"

/-- Operators used out of turn. -/
inductive StateError
  | unprepared (operator : OperatorKind)
  | unmarkable (operator : OperatorKind)
  | noMark (operator : OperatorKind)
  | notAnAggregate (e : Expr)
  | barrier

def StateError.message : StateError → String
  | unprepared k => k.display ++ " node used before prepare()"
  | unmarkable k => k.display ++ " node does not support marking"
  | noMark k => k.display ++ " node has no marked position"
  | notAnAggregate e => e.display ++ " is not an aggregate call"
  | barrier => "nomark"

inductive QueryError
  | invalidArgument (cause : ArgumentError)
  | illegalAggregate (cause : PlacementError)
  | correlatedSubquery
  | storage (cause : StorageError)
  | configuration (cause : ConfigurationError)
  | invalidState (cause : StateError)
  | evaluation (cause : EvalError)

namespace QueryError

def message : QueryError → String
  | invalidArgument e => "invalid argument: " ++ e.message
  | illegalAggregate e => "illegal aggregate placement: " ++ e.message
  | correlatedSubquery => "unsupported feature: correlated subqueries are not supported"
  | storage e => "storage error: " ++ e.message
  | configuration e => "invalid configuration: " ++ e.message
  | invalidState e => "invalid state: " ++ e.message
  | evaluation e => "evaluation error: " ++ e.message

def ofResolve (e : ResolveError) : QueryError := evaluation (.unresolved e)

end QueryError

end RelQuery
