namespace RelQuery

inductive OperatorKind
  | scan | filter | project | rename | sort | limit | group | join | values
  deriving DecidableEq

def OperatorKind.display : OperatorKind → String
  | .scan => "FileScan"
  | .filter => "Select"
  | .project => "Project"
  | .rename => "Rename"
  | .sort => "Sort"
  | .limit => "Limit"
  | .group => "HashedGroupAggregate"
  | .join => "NestedLoopJoin"
  | .values => "Values"

end RelQuery
