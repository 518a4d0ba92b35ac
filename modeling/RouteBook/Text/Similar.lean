/-! How alike two texts are, for suggestions after a misspelling. -/
namespace RouteBook.Text

def commonRun : List Char → List Char → Nat
  | a :: s, b :: t => if a = b then commonRun s t + 1 else 0
  | _, _ => 0

structure SharedRun where
  left : Nat
  right : Nat
  size : Nat

/-- The longest shared run; of several the one that starts first in the first text, then in the
second. -/
def longestRun (s t : List Char) : SharedRun :=
  let places := (List.range s.length).flatMap fun i => (List.range t.length).map fun j => (i, j)
  places.foldl (fun best (i, j) =>
    let size := commonRun (s.drop i) (t.drop j)
    if best.size < size then ⟨i, j, size⟩ else best) ⟨0, 0, 0⟩

/-- The number of characters in the longest shared run and, on both sides of it, in those of the
remaining texts. `depth` bounds the nesting of the runs. -/
def sharedSize : Nat → List Char → List Char → Nat
  | 0, _, _ => 0
  | depth + 1, s, t =>
    let run := longestRun s t
    if run.size = 0 then 0
    else run.size + sharedSize depth (s.take run.left) (t.take run.right) +
      sharedSize depth (s.drop (run.left + run.size)) (t.drop (run.right + run.size))

structure Likeness where
  shared : Nat
  total : Nat

def likeness (s t : String) : Likeness :=
  ⟨2 * sharedSize s.length s.toList t.toList, s.length + t.length⟩

def Likeness.isClose (l : Likeness) : Bool := 3 * l.total ≤ 5 * l.shared

def Likeness.le (a b : Likeness) : Bool := a.shared * b.total ≤ b.shared * a.total

/-- At most three of the names, those most like a text, in the order of names. -/
def nearest (s : String) (names : List String) : List String :=
  let close := (names.map fun n => (likeness n s, n)).filter fun p => p.1.isClose
  let best := close.mergeSort fun p q =>
    if p.1.le q.1 && q.1.le p.1 then decide (q.2 ≤ p.2) else q.1.le p.1
  ((best.take 3).map (·.2)).mergeSort (· ≤ ·)

end RouteBook.Text
