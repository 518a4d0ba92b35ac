/-! Ordered mappings as lists of key and value: a key keeps the place where it was first put. -/
namespace RouteBook.Pairs
variable {α β : Type} [BEq α]

def get? (key : α) : List (α × β) → Option β
  | [] => none
  | (k, v) :: rest => if k == key then some v else get? key rest

/-- Sets a value: an old key keeps its place, a new one goes to the end. -/
def put (key : α) (value : β) : List (α × β) → List (α × β)
  | [] => [(key, value)]
  | (k, v) :: rest => if k == key then (k, value) :: rest else (k, v) :: put key value rest

def ofList (pairs : List (α × β)) : List (α × β) :=
  pairs.foldl (fun m p => put p.1 p.2 m) []

def keys (m : List (α × β)) : List α := m.map Prod.fst

def contains (key : α) (m : List (α × β)) : Bool := (get? key m).isSome

def update (m new : List (α × β)) : List (α × β) :=
  new.foldl (fun m p => put p.1 p.2 m) m

def erase (key : α) (m : List (α × β)) : List (α × β) := m.filter fun p => !(p.1 == key)

end RouteBook.Pairs
