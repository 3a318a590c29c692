/-!
# Directions

The two sides of the boundary that a function is used on.
-/

namespace ComponentAbi

/-- A side of the boundary. -/
inductive Direction where
  /-- The caller: lowers arguments, calls the core function, lifts results and frees them. -/
  | imported
  /-- The callee: lifts arguments and frees them, calls the implementation, lowers results. -/
  | exported
deriving DecidableEq, Repr

namespace Direction

/-- The written name. -/
def name : Direction → String
  | imported => "import"
  | exported => "export"

/-- The direction of a name. -/
def ofName? : String → Option Direction
  | "import" => some imported
  | "export" => some exported
  | _ => none

end Direction

end ComponentAbi
