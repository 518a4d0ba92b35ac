/-! What a documentation comment says about a route. -/
namespace RouteBook

structure DocParam where
  name : String
  type : String
  required : Bool := true
  description : String := ""
  default : Option String := none
deriving Repr, DecidableEq

structure DocFact where
  summary : String := ""
  description : String := ""
  explicitPath : Option String := none
  parameters : List DocParam := []
  /-- Status codes and their descriptions. -/
  responses : List (String × String) := []
  tags : List String := []
  security : List String := []
  /-- The byte offset at which the comment ends. -/
  endPosition : Int
deriving Repr, DecidableEq

end RouteBook
