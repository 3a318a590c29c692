import ComponentAbi.Project

/-!
# Choosing a function of a world

A function is wanted by its name, or by its module and its name with `#` between them. The choice
has to be the only one; otherwise the candidates are listed with their modules.
-/

namespace ComponentAbi

namespace WorldFunction

/-- Module and name. -/
def qualifiedName (f : WorldFunction) (module : String) : String :=
  module ++ "#" ++ f.name

/-- The function is wanted under its name alone, or with its module. -/
def isWanted (f : WorldFunction) (wanted : String) : Bool :=
  f.name == wanted || f.module.any fun module => f.qualifiedName module == wanted

/-- How a function is listed among others. -/
def candidateName (f : WorldFunction) : String :=
  f.qualifiedName (f.module.getD "$root")

end WorldFunction

/-- Why no function is chosen. -/
inductive ChoiceError where
  /-- No function has the wanted name. -/
  | notFound (wanted : String)
  /-- Several functions have it. -/
  | ambiguous (wanted : String) (candidates : List String)
deriving DecidableEq, Repr

namespace ChoiceError

/-- The wording of the error. -/
def message : ChoiceError → String
  | notFound wanted => "Function '" ++ wanted ++ "' not found in world"
  | ambiguous wanted candidates =>
    "Function '" ++ wanted ++ "' is ambiguous, use one of: " ++ String.intercalate ", " candidates

end ChoiceError

namespace WorldFunction

/-- The function that is wanted. -/
def choose (functions : List WorldFunction) (wanted : String) :
    Except ChoiceError WorldFunction :=
  match functions.filter (·.isWanted wanted) with
  | [f] => .ok f
  | [] => .error (.notFound wanted)
  | candidates => .error (.ambiguous wanted (candidates.map candidateName))

end WorldFunction

end ComponentAbi
