import RouteBook.DocComment.Parser
import RouteBook.Literal
import RouteBook.RouteFact
import RouteBook.Source.Tree

/-! Routes and documentation in a syntax tree. A route is registered by a call of a member that is
named like a method, whose first argument is a literal path. -/
namespace RouteBook.RouteCalls

open Source (Tree)

/-- A path literal that cannot be decoded, and where it starts. -/
structure BadLiteral where
  start : Nat
  error : Literal.EscapeError
deriving Repr, DecidableEq

def literal? : Tree → Option (Nat × String)
  | .string start raw => some (start, raw)
  | .template start raw [] => some (start, raw)
  | _ => none

def identifier? : Tree → Option String
  | .identifier name => some name
  | _ => none

def pathAndHandlers? (args : List Tree) : Except BadLiteral (Option (String × List String)) :=
  match args.filter (!·.isComment) with
  | [] => .ok none
  | first :: rest =>
    match literal? first with
    | none => .ok none
    | some (start, raw) =>
      match Literal.decode raw.toList with
      | .error e => .error ⟨start, e⟩
      | .ok [] => .ok none
      | .ok path => .ok (some (String.ofList path, rest.filterMap identifier?))

def route? (file : String) : Tree → Except BadLiteral (Option (Nat × RouteFact))
  | .call start (.member _ nameStart name) args =>
    match Method.ofAnyCase? name with
    | none => .ok none
    | some method => do
      match ← pathAndHandlers? args with
      | none => return none
      | some (path, handlers) =>
        return some (nameStart, { method, path, handlers, position := start, file })
  | _ => .ok none

/-- All routes of a tree, in the order of the methods' names. -/
def find (file : String) (t : Tree) : Except BadLiteral (List RouteFact) := do
  let found := (← t.nodes.mapM (route? file)).filterMap id
  return (found.mergeSort fun a b => a.1 ≤ b.1).map Prod.snd

def doc? : Tree → Option DocFact
  | .comment stop text =>
    if "/*".toList.isPrefixOf text.toList then DocComment.parse? text stop else none
  | _ => none

def docs (t : Tree) : List DocFact := t.nodes.filterMap doc?

end RouteBook.RouteCalls
