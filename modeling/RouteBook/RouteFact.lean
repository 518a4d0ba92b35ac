import RouteBook.Method

/-! A route registration found in source text. -/
namespace RouteBook

structure RouteFact where
  method : Method
  path : String
  /-- The handlers that are given by name. -/
  handlers : List String := []
  /-- The byte offset of the registering call. -/
  position : Int
  file : String := ""
deriving Repr, DecidableEq

end RouteBook
