import RouteBook.Descriptor

/-! Operation ids: made from the method and the path, and kept apart by suffixes. -/
namespace RouteBook.OperationId

def isAsciiAlnum (c : Char) : Bool := c.isAlphanum

/-- The id of an operation: `GET /users/:id` has `get_users__id`. -/
def make (method path : String) : String :=
  Text.lower method ++
    String.ofList (path.toList.map fun c => if isAsciiAlnum c then c else '_')

def suffixed (base : String) (k : Nat) : String := base ++ "_" ++ toString k

/-- The least number above `count` whose suffix is free. Among one more candidates than there are
taken ids one is free. -/
def nextFree (taken : List String) (base : String) (count : Nat) : Nat :=
  ((List.range' (count + 1) (taken.length + 1)).find?
    fun k => !taken.contains (suffixed base k)).getD (count + 1)

structure Registry where
  seen : List (String × Nat) := []
  taken : List String

/-- The id that the next descriptor with id `base` gets: the first one keeps it. -/
def Registry.assign (r : Registry) (base : String) : String × Registry :=
  match Pairs.get? base r.seen with
  | none => (base, { r with seen := Pairs.put base 1 r.seen })
  | some count =>
    let k := nextFree r.taken base count
    let id := suffixed base k
    (id, { seen := Pairs.put base k r.seen, taken := id :: r.taken })

def assignFrom (r : Registry) : List Descriptor → List Descriptor
  | [] => []
  | d :: rest =>
    let (id, r) := r.assign d.operationId
    { d with operationId := id } :: assignFrom r rest

/-- Gives every descriptor an id of its own, in list order. -/
def assign (ds : List Descriptor) : List Descriptor :=
  assignFrom { taken := ds.map (·.operationId) } ds

end RouteBook.OperationId
