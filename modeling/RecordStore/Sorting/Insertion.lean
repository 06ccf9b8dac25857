/-! Runs and insertion, for a comparison that may fail and need not be an order. A run that falls at
every step is turned round; a later element is inserted by halving. What comes out depends only on
the pairs that are compared on the way, and only they can fail. -/
namespace RecordStore.Sorting

variable {α : Type} (less? : α → α → Option Bool)

/-- Splits off the elements that continue a run after `last`: each is less than the one before it in
a falling run, and not less in a rising one. -/
def runAfter (falling : Bool) (last : α) : List α → Option (List α × List α)
  | [] => some ([], [])
  | x :: xs => do
    if (← less? x last) = falling then
      let (run, rest) ← runAfter falling x xs
      return (x :: run, rest)
    else return ([], x :: xs)

/-- The run at the start, in rising order, and what follows it. -/
def leadingRun : List α → Option (List α × List α)
  | x :: y :: xs => do
    let falling ← less? y x
    let (run, rest) ← runAfter less? falling y xs
    return (if falling then (x :: y :: run).reverse else x :: y :: run, rest)
  | xs => some (xs, [])

/-- Puts an element into a row: before the middle one if it is less, and after it otherwise. -/
def insert (x : α) (row : List α) : Option (List α) :=
  let left := row.take (row.length / 2)
  match h : row.drop (row.length / 2) with
  | [] => some (row ++ [x])
  | y :: right => do
    have bound : row.length - row.length / 2 = right.length + 1 := by
      simpa using congrArg List.length h
    if ← less? x y then return (← insert x left) ++ y :: right
    else return left ++ y :: (← insert x right)
termination_by row.length
decreasing_by
  · simp only [List.length_take]; omega
  · omega

/-- A sorted row of at least so many elements, as far as there are, and what follows it. -/
def leadingRow (least : Nat) (xs : List α) : Option (List α × List α) := do
  let (run, rest) ← leadingRun less? xs
  let row ← (rest.take (least - run.length)).foldlM (fun row x => insert less? x row) run
  return (row, rest.drop (least - run.length))

end RecordStore.Sorting
