import RouteBook.Proofs.Except
import RouteBook.Yaml.Node.Reader

/-! How a fault among the tokens shows in the document read off them. No reader goes past one, so
tokens that end in a fault make no document; and a reader that fails reports a breach of the format
or such a fault. Both are told of all readers at once, as conditions on the tokens that a look at
the next token and a step past it keep. -/
namespace RouteBook.Yaml.Node
variable {α β : Type} {E : LoadError → Prop} {I A : List Token → Prop}
  {J : α → List Token → Prop} {K : β → List Token → Prop} {r : Reader α} {f : α → Reader β}
  {D : Prop} {ts : List Token}

/-- Where a condition holds of the tokens, another holds of the error of a reader, or of its result
and the tokens that are left. -/
def Guards (E : LoadError → Prop) (I : List Token → Prop) (r : Reader α)
    (J : α → List Token → Prop) : Prop :=
  ∀ s, I s.tokens → Outcome.Meets E (fun p => J p.1 p.2.tokens) (r s)

abbrev Keeps (E : LoadError → Prop) (I : List Token → Prop) (r : Reader α) : Prop :=
  Guards E I r fun _ => I

theorem Guards.bind (h : Guards E I r J) (hf : ∀ a, Guards E (J a) (f a) K) :
    Guards E I (r >>= f) K := by
  intro s hs
  exact (h s hs).bind fun p hp => hf p.1 p.2 hp

theorem Guards.imp {I' : List Token → Prop} (h : Guards E I r J) (hI : ∀ ts, I' ts → I ts) :
    Guards E I' r J :=
  fun s hs => h s (hI _ hs)

theorem guards_pure {a : α} (h : ∀ ts, I ts → J a ts) : Guards E I (pure a) J :=
  fun s hs => h s.tokens hs

theorem keeps_pure (a : α) : Keeps E I (pure a) := guards_pure fun _ h => h

theorem guards_throw {e : LoadError} (he : E e) : Guards E I (throw e : Reader α) J :=
  fun _ _ => he

/-- Only the tokens count. -/
theorem keeps_get : Keeps E I (get : Reader Reading) := fun _ hs => hs

/-- A condition `I` on the tokens that a look at the next one turns into `A`, and a step past it
back into `I`, with the errors that may come up and with what is known at the end of the text. -/
structure Steady (E : LoadError → Prop) (I A : List Token → Prop) (D : Prop) : Prop where
  malformed : E .malformed
  peek : Guards E I peek fun t ts => (t = .streamEnd → D) ∧ A ts
  advance : Guards E A advance fun _ => I
  weaken : ∀ ts, A ts → I ts

section Readers
variable (w : Steady E I A D)
include w

theorem Keeps.ahead (h : Keeps E I r) : Guards E A r fun _ => I := h.imp w.weaken

theorem keeps_peek_bind {g : Token → Reader β} (h : ∀ t, Guards E A (g t) fun _ => I) :
    Keeps E I (peek >>= g) :=
  w.peek.bind fun t => (h t).imp fun _ h => h.2

theorem keeps_accept (t : Token) : Keeps E I (accept t) := by
  refine keeps_peek_bind w fun u => ?_
  split
  · exact w.advance.bind fun _ => keeps_pure true
  · exact (keeps_pure false).ahead w

theorem keeps_expect (t : Token) : Keeps E I (expect t) := by
  refine (keeps_accept w t).bind fun found => ?_
  split
  · exact keeps_pure ()
  · exact guards_throw w.malformed

theorem keeps_atOneOf (ts : List Token) : Keeps E I (atOneOf ts) :=
  keeps_peek_bind w fun _ => (keeps_pure _).ahead w

theorem keeps_address (handle : Option String) (suffix : String) :
    Keeps E I (address handle suffix) := by
  cases handle with
  | none => exact keeps_pure suffix
  | some h =>
    refine keeps_get.bind fun s => ?_
    split
    · exact keeps_pure _
    · exact guards_throw w.malformed

theorem keeps_acceptAnchor : Keeps E I acceptAnchor := by
  refine keeps_peek_bind w fun t => ?_
  split
  · exact w.advance.bind fun _ => keeps_pure _
  · exact (keeps_pure _).ahead w

theorem keeps_acceptTag : Keeps E I acceptTag := by
  refine keeps_peek_bind w fun t => ?_
  split
  · exact w.advance.bind fun _ => keeps_pure _
  · exact (keeps_pure _).ahead w

theorem keeps_properties : Keeps E I properties := by
  refine (keeps_acceptAnchor w).bind fun name => ?_
  split
  · refine (keeps_acceptTag w).bind fun tag => ?_
    split
    · exact (keeps_address w _ _).bind fun _ => keeps_pure _
    · exact keeps_pure _
  · refine (keeps_acceptTag w).bind fun tag => ?_
    split
    · exact (keeps_acceptAnchor w).bind fun _ => (keeps_address w _ _).bind fun _ => keeps_pure _
    · exact keeps_pure _

theorem keeps_announce (name : Option String) : Keeps E I (announce name) := by
  cases name with
  | none => exact keeps_pure ()
  | some n =>
    intro s hs
    have hrun : announce (some n) s = (if s.anchors.contains n then throw .malformed
      else set { s with anchors := n :: s.anchors } : Reader Unit) s := rfl
    rw [hrun]
    by_cases hn : s.anchors.contains n = true
    · rw [if_pos hn]
      exact w.malformed
    · rw [if_neg hn]
      exact hs

theorem keeps_aliased (name : String) : Keeps E I (aliased name) := by
  refine keeps_get.bind fun s => ?_
  split
  · exact keeps_pure _
  · exact guards_throw w.malformed

/-- What all readers of nodes do with some fuel. -/
structure KeepsAll (E : LoadError → Prop) (I : List Token → Prop) (fuel : Nat) : Prop where
  node : ∀ place, Keeps E I (read fuel place)
  orEmpty : ∀ place ends, Keeps E I (read.readOr fuel place ends)
  value : ∀ place ends, Keeps E I (read.readValue fuel place ends)
  items : Keeps E I (read.blockItems fuel)
  loose : Keeps E I (read.looseItems fuel)
  entries : Keeps E I (read.blockEntries fuel)
  flowItems : ∀ first, Keeps E I (read.flowItems fuel first)
  flowEntries : ∀ first, Keeps E I (read.flowEntries fuel first)

theorem keeps_read {fuel : Nat} (h : KeepsAll E I fuel) (place : Place) :
    Keeps E I (read (fuel + 1) place) := by
  rw [Node.read]
  refine keeps_peek_bind w fun t => ?_
  split
  · exact w.advance.bind fun _ => keeps_aliased w _
  · refine Keeps.ahead w ((keeps_properties w).bind fun p => ?_)
    split
    refine keeps_peek_bind w fun u => ?_
    -- one case for each kind of token and place, in the order of the definition
    split
    · exact w.advance.bind fun _ => (keeps_announce w _).bind fun _ => keeps_pure _
    · exact w.advance.bind fun _ => (keeps_announce w _).bind fun _ => keeps_pure _
    · exact w.advance.bind fun _ => (keeps_announce w _).bind fun _ =>
        (h.flowItems true).bind fun _ => keeps_pure _
    · exact w.advance.bind fun _ => (keeps_announce w _).bind fun _ =>
        (h.flowEntries true).bind fun _ => keeps_pure _
    · exact w.advance.bind fun _ => (keeps_announce w _).bind fun _ => h.items.bind fun _ =>
        (keeps_expect w _).bind fun _ => keeps_pure _
    · exact w.advance.bind fun _ => (keeps_announce w _).bind fun _ => h.items.bind fun _ =>
        (keeps_expect w _).bind fun _ => keeps_pure _
    · exact Keeps.ahead w ((keeps_announce w _).bind fun _ => h.loose.bind fun _ =>
        keeps_pure _)
    · exact w.advance.bind fun _ => (keeps_announce w _).bind fun _ => h.entries.bind fun _ =>
        (keeps_expect w _).bind fun _ => keeps_pure _
    · exact w.advance.bind fun _ => (keeps_announce w _).bind fun _ => h.entries.bind fun _ =>
        (keeps_expect w _).bind fun _ => keeps_pure _
    · split
      · exact guards_throw w.malformed
      · exact Keeps.ahead w ((keeps_announce w _).bind fun _ => keeps_pure _)

theorem keeps_flow {close : Token} {body : Reader (List α)} (first : Bool) (h : Keeps E I body) :
    Keeps E I (do
      if ← accept close then return []
      if !first then expect .flowEntry
      if ← accept close then return []
      body) := by
  have hlast : Keeps E I (do
      if ← accept close then return []
      body) := by
    refine (keeps_accept w close).bind fun closed => ?_
    split
    · exact keeps_pure _
    · exact h
  refine (keeps_accept w close).bind fun closed => ?_
  split
  · exact keeps_pure _
  · split
    · exact (keeps_expect w _).bind fun _ => hlast
    · exact hlast

theorem keepsAll (fuel : Nat) : KeepsAll E I fuel := by
  induction fuel with
  | zero => constructor <;> intros <;> exact guards_throw w.malformed
  | succ fuel ih =>
    refine ⟨keeps_read w ih, fun place ends => ?_, fun place ends => ?_, ?_, ?_, ?_,
      fun first => ?_, fun first => ?_⟩
    · refine (keeps_atOneOf w ends).bind fun found => ?_
      split
      · exact keeps_pure _
      · exact ih.node place
    · refine (keeps_accept w _).bind fun found => ?_
      split
      · exact ih.orEmpty place ends
      · exact keeps_pure _
    · refine (keeps_accept w _).bind fun found => ?_
      split
      · exact (ih.orEmpty _ _).bind fun _ => ih.items.bind fun _ => keeps_pure _
      · exact keeps_pure _
    · refine (keeps_accept w _).bind fun found => ?_
      split
      · exact (ih.orEmpty _ _).bind fun _ => ih.loose.bind fun _ => keeps_pure _
      · exact keeps_pure _
    · refine (keeps_accept w _).bind fun found => ?_
      split
      · exact (ih.orEmpty _ _).bind fun _ => (ih.value _ _).bind fun _ =>
          ih.entries.bind fun _ => keeps_pure _
      · exact keeps_pure _
    · rw [read.flowItems]
      refine keeps_flow w first ((keeps_accept w _).bind fun found => ?_)
      split
      · exact (ih.orEmpty _ _).bind fun _ => (ih.value _ _).bind fun _ =>
          (ih.flowItems false).bind fun _ => keeps_pure _
      · exact (ih.node _).bind fun _ => (ih.flowItems false).bind fun _ => keeps_pure _
    · rw [read.flowEntries]
      refine keeps_flow w first ((keeps_accept w _).bind fun found => ?_)
      split
      · exact (ih.orEmpty _ _).bind fun _ => (ih.value _ _).bind fun _ =>
          (ih.flowEntries false).bind fun _ => keeps_pure _
      · exact (ih.node _).bind fun _ => (ih.flowEntries false).bind fun _ => keeps_pure _

theorem keeps_directives (fuel : Nat) (versioned : Bool) (handles : List (String × String)) :
    Keeps E I (directives fuel versioned handles) := by
  induction fuel generalizing versioned handles with
  | zero => exact keeps_pure handles
  | succ fuel ih =>
    refine keeps_peek_bind w fun t => ?_
    split
    · split
      · exact guards_throw w.malformed
      · exact w.advance.bind fun _ => ih true handles
    · split
      · exact guards_throw w.malformed
      · exact w.advance.bind fun _ => ih versioned _
    · exact w.advance.bind fun _ => ih versioned handles
    · exact (keeps_pure handles).ahead w

theorem keeps_skipEnds (fuel : Nat) : Keeps E I (document.skipEnds fuel) := by
  induction fuel with
  | zero => exact keeps_pure ()
  | succ fuel ih =>
    refine (keeps_accept w _).bind fun found => ?_
    split
    · exact ih
    · exact keeps_pure ()

omit w in
theorem keeps_handles (handles : List (String × String)) :
    Keeps E I (modify fun s => { s with handles } : Reader PUnit) :=
  fun _ hs => hs

theorem guards_end (node : Node) (size : Nat) :
    Guards E I (do
      document.skipEnds size
      if (← peek) = .streamEnd then return some node
      else
        let _ ← directives size false []
        expect .documentStart
        throw .malformed) fun _ _ => D := by
  refine (keeps_skipEnds w size).bind fun _ => w.peek.bind fun t => ?_
  split
  · next ht => exact guards_pure fun ts h => h.1 ht
  · refine Guards.imp ?_ fun _ h => w.weaken _ h.2
    exact (keeps_directives w _ _ _).bind fun _ => (keeps_expect w _).bind fun _ =>
      guards_throw w.malformed

/-- A document is read up to the end of the text. -/
theorem guards_document : Guards E I document fun _ _ => D := by
  refine keeps_get.bind fun s => w.peek.bind fun first => ?_
  split
  · next ht => exact guards_pure fun ts h => h.1 ht
  · refine Guards.imp ?_ fun _ h => w.weaken _ h.2
    split
    · refine (keeps_directives w _ _ _).bind fun declared => (keeps_expect w _).bind fun _ =>
        (keeps_handles _).bind fun _ => ?_
      refine w.peek.bind fun next => Guards.imp ?_ fun _ h => w.weaken _ h.2
      split
      · exact guards_end w _ _
      · exact ((keepsAll w _).node _).bind fun _ => guards_end w _ _
    · exact (keeps_handles _).bind fun _ => ((keepsAll w _).node _).bind fun _ => guards_end w _ _

end Readers

def Broken (ts : List Token) : Prop := ∃ us e, ts = us ++ [.fault e] ∧ .streamEnd ∉ us

structure Ahead (ts : List Token) : Prop where
  broken : Broken ts
  next : Broken (ts.drop 1)

/-- A look at the next token that does not fail shows that the fault is further on, and that the
text is not at its end. -/
theorem steady_broken : Steady (fun _ => True) Broken Ahead False := by
  refine ⟨trivial, ?_, fun s h => h.next, fun _ h => h.broken⟩
  rintro ⟨ts, handles, anchors⟩ ⟨us, e, rfl, hend⟩
  cases us with
  | nil => trivial
  | cons u us =>
    have hrest : Ahead (u :: us ++ [.fault e]) :=
      ⟨⟨_, _, rfl, hend⟩, us, e, rfl, fun h => hend (List.mem_cons_of_mem u h)⟩
    have hne : u ≠ .streamEnd := by
      rintro rfl
      exact hend List.mem_cons_self
    cases u with
    | fault e => trivial
    | _ => exact ⟨fun h => hne h, hrest⟩

theorem ofTokens?_broken (h : Broken ts) : ∃ e, ofTokens? ts = .error e := by
  have hdoc := guards_document steady_broken { tokens := ts } h
  cases hrun : document { tokens := ts } with
  | error e => exact ⟨e, by rw [ofTokens?, StateT.run, hrun]; rfl⟩
  | ok p =>
    rw [hrun] at hdoc
    exact hdoc.elim

/-- No token is new, so a fault that comes up was there. -/
theorem steady_subset (us : List Token) :
    Steady (fun e => e = .malformed ∨ .fault e ∈ us) (· ⊆ us) (· ⊆ us) True := by
  refine ⟨.inl rfl, ?_, fun s h => List.Subset.trans (List.drop_subset 1 s.tokens) h, fun _ h => h⟩
  rintro ⟨ts, handles, anchors⟩ hs
  cases ts with
  | nil => exact ⟨fun _ => trivial, hs⟩
  | cons t ts =>
    cases t with
    | fault e => exact .inr (hs List.mem_cons_self)
    | _ => exact ⟨fun _ => trivial, hs⟩

/-- Tokens that make no document break a rule of the format or hold a fault. -/
theorem malformed_or_mem_of_ofTokens? {e : LoadError} (h : ofTokens? ts = .error e) :
    e = .malformed ∨ .fault e ∈ ts := by
  have hdoc := guards_document (steady_subset ts) { tokens := ts } (List.Subset.refl ts)
  cases hrun : document { tokens := ts } with
  | error e' =>
    rw [ofTokens?, StateT.run, hrun] at h
    cases h
    rwa [hrun] at hdoc
  | ok p =>
    rw [ofTokens?, StateT.run, hrun] at h
    cases h

end RouteBook.Yaml.Node
