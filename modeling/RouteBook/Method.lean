import RouteBook.Text.Case

/-! The HTTP methods that a route can be registered for. -/
namespace RouteBook

inductive Method where
  | get | post | put | patch | delete | options | head
deriving Repr, DecidableEq

namespace Method

def all : List Method := [get, post, put, patch, delete, options, head]

def name : Method → String
  | get => "GET"
  | post => "POST"
  | put => "PUT"
  | patch => "PATCH"
  | delete => "DELETE"
  | options => "OPTIONS"
  | head => "HEAD"

def key : Method → String
  | get => "get"
  | post => "post"
  | put => "put"
  | patch => "patch"
  | delete => "delete"
  | options => "options"
  | head => "head"

def ofName? (s : String) : Option Method := all.find? fun m => m.name == s

def ofAnyCase? (s : String) : Option Method := ofName? (Text.upper s)

def badge (name : String) : String :=
  match ofName? name with
  | some get => "green"
  | some post => "blue"
  | some put => "orange"
  | some patch => "dark-orange"
  | some delete => "red"
  | _ => "grey"

end Method

end RouteBook
