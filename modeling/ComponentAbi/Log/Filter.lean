import ComponentAbi.Log.Directive
import ComponentAbi.Text.Separated

/-!
# Filters for the log

A filter is a list of directives with commas between them (`LogFilter.parse?`). Of the directives
about a record, the one with the longest target says how severe the record has to be
(`LogFilter.enables`).
-/

namespace ComponentAbi

/-- Which records are written. -/
structure LogFilter where
  /-- Its directives in order. -/
  directives : List LogDirective
deriving DecidableEq, Repr

namespace LogFilter

/-- Reads a filter. Between commas there may be nothing, but not blanks alone. -/
def parse? (text : String) : Option LogFilter :=
  let pieces := (Text.pieces ',' text).filter fun piece => !piece.isEmpty
  (pieces.mapM LogDirective.parse?).map LogFilter.mk

/-- The directive that decides about a record. -/
def deciding? (f : LogFilter) (r : LogRecord) : Option LogDirective :=
  (f.directives.filter (·.covers r)).foldl (fun best d =>
    match best with
    | some b => if b.yieldsTo d then some d else some b
    | none => some d) none

/-- A record is written. -/
def enables (f : LogFilter) (r : LogRecord) : Bool :=
  match f.deciding? r with
  | some d => r.level.rank ≤ d.rank
  | none => false

end LogFilter

end ComponentAbi
