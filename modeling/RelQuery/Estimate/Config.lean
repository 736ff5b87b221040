import RelQuery.Estimate.Cost
import RelQuery.Estimate.Selectivity

namespace RelQuery

structure Config where
  defaultSelectivity : Float32
  costModel : CostModel

namespace Config

def default : Config := ⟨Selectivity.defaultFraction, .default⟩

/-- Sets the fallback selectivity, confined to the unit interval. -/
def withSelectivity (c : Config) (x : Float32) : Config :=
  { c with defaultSelectivity := Single.clampUnit x }

end Config

end RelQuery
