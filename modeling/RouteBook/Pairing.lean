import RouteBook.DocComment.Basic
import RouteBook.RouteFact

/-! Which comment documents which route: the nearest one that ends strictly before it. The comments
are sorted by their ends once, and each route is looked up by binary search. -/
namespace RouteBook.Pairing

/-- The number of entries below `x` in an increasing array, searched for between `lo` and `hi`. -/
def lowerBound (ends : Array Int) (x : Int) (lo hi : Nat) : Nat :=
  if h : lo < hi then
    let mid := (lo + hi) / 2
    if ends.getD mid 0 < x then lowerBound ends x (mid + 1) hi else lowerBound ends x lo mid
  else lo
termination_by hi - lo
decreasing_by all_goals omega

/-- The comments in the order of their ends; those with equal ends keep their order. -/
def byEnd (docs : List DocFact) : Array DocFact :=
  (docs.mergeSort fun a b => a.endPosition ≤ b.endPosition).toArray

/-- The comment for a position: the one before the first that ends at or after it. -/
def lookup (ordered : Array DocFact) (position : Int) : Option DocFact :=
  match lowerBound (ordered.map (·.endPosition)) position 0 ordered.size with
  | 0 => none
  | i + 1 => ordered[i]?

def pair (routes : List RouteFact) (docs : List DocFact) : List (RouteFact × Option DocFact) :=
  let ordered := byEnd docs
  routes.map fun r => (r, lookup ordered r.position)

end RouteBook.Pairing
