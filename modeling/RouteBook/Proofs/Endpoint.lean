import RouteBook.Endpoint
import RouteBook.Pairing
import RouteBook.Proofs.Descriptor

/-! A route and a comment that were found always make a descriptor. -/
namespace RouteBook

namespace Pairing

theorem mem_of_lookup {docs : List DocFact} {position : Int} {f : DocFact}
    (h : lookup (byEnd docs) position = some f) : f ∈ docs := by
  unfold lookup at h
  split at h
  · cases h
  · have hm := Array.mem_of_getElem? h
    simpa [byEnd] using hm

theorem mem_of_pair {routes : List RouteFact} {docs : List DocFact}
    {route : RouteFact} {doc : Option DocFact} (h : (route, doc) ∈ pair routes docs) :
    route ∈ routes ∧ ∀ f, doc = some f → f ∈ docs := by
  obtain ⟨r, hr, he⟩ := List.mem_map.mp h
  obtain ⟨rfl, rfl⟩ := Prod.mk.inj he
  exact ⟨hr, fun f hf => mem_of_lookup hf⟩

end Pairing

namespace Endpoint

theorem pathOf_ne_empty {route : RouteFact} (h : route.path ≠ "") (doc : Option DocFact) :
    pathOf route doc ≠ "" := by
  unfold pathOf
  split
  · split
    · exact h
    · assumption
  · exact h

theorem statusMap_defaultResponses : StatusMap defaultResponses := by
  refine ⟨?_, by decide⟩
  intro code hc
  simp only [defaultResponses, Pairs.keys, List.map_cons, List.map_nil, List.mem_cons,
    List.not_mem_nil, or_false] at hc
  rcases hc with rfl | rfl | rfl <;> decide

theorem valid_draft {route : RouteFact} {doc : Option DocFact} (hp : route.path ≠ "")
    (hd : ∀ f, doc = some f → StatusMap f.responses) : (draft route doc).Valid := by
  cases doc with
  | none => exact ⟨pathOf_ne_empty hp none, statusMap_defaultResponses⟩
  | some f =>
    refine ⟨pathOf_ne_empty hp (some f), ?_⟩
    change StatusMap (if f.responses.isEmpty then defaultResponses else f.responses)
    split
    · exact statusMap_defaultResponses
    · exact hd f rfl

theorem normalize_eq_draft {route : RouteFact} {doc : Option DocFact} (hp : route.path ≠ "")
    (hd : ∀ f, doc = some f → StatusMap f.responses) :
    normalize route doc = .ok (draft route doc) :=
  Descriptor.check_of_valid (valid_draft hp hd)

end Endpoint

end RouteBook
