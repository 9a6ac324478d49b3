namespace LeastSquares

/-- A table of two columns inside a frame with round corners, its cells to the left. -/
structure Table where
  rows : List (String × String)

namespace Table

def width (cells : List String) : Nat := cells.foldl (fun w s => max w s.length) 0

def rule (left middle right : Char) (a b : Nat) : String :=
  let edge (w : Nat) := List.replicate (w + 2) '─'
  String.ofList (left :: edge a ++ middle :: edge b ++ [right])

def cell (w : Nat) (s : String) : String :=
  " " ++ s ++ String.ofList (List.replicate (w - s.length + 1) ' ')

def row (a b : Nat) (r : String × String) : String := "│" ++ cell a r.1 ++ "│" ++ cell b r.2 ++ "│"

def write (t : Table) : String :=
  let a := width (t.rows.map Prod.fst)
  let b := width (t.rows.map Prod.snd)
  let body := (t.rows.map (row a b)).intersperse (rule '├' '┼' '┤' a b)
  String.intercalate "\n" (rule '╭' '┬' '╮' a b :: body ++ [rule '╰' '┴' '╯' a b])

end Table

end LeastSquares
