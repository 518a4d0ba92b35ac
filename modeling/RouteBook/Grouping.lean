import RouteBook.Descriptor

/-! Descriptors grouped by tag: groups in the order in which their tags are first seen, those
without a tag last. -/
namespace RouteBook.Grouping

def untagged : String := "untagged"

def tagsOf (d : Descriptor) : List String := if d.tags.isEmpty then [untagged] else d.tags

abbrev Groups := List (String × List Descriptor)

def add (groups : Groups) (tag : String) (d : Descriptor) : Groups :=
  Pairs.put tag ((Pairs.get? tag groups).getD [] ++ [d]) groups

/-- All groups in the order of their first member. -/
def collect (ds : List Descriptor) : Groups :=
  ds.foldl (fun groups d => (tagsOf d).foldl (fun g tag => add g tag d) groups) []

def byTag (ds : List Descriptor) : Groups :=
  let groups := collect ds
  groups.filter (·.1 != untagged) ++ groups.filter (·.1 == untagged)

end RouteBook.Grouping
