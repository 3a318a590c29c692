import ComponentAbi.Word

/-!
# Reading words in order

A cursor over a sequence of words. Asking for more words than there are, or leaving some unread, is
an arity error that says how many were asked for and how many there are in all.
-/

namespace ComponentAbi

/-- A position in a sequence of words. -/
structure WordReader where
  /-- Number of words read so far. -/
  taken : Nat := 0
  /-- The words not yet read. -/
  rest : List Word
deriving DecidableEq, Repr

namespace WordReader

/-- The start of a sequence. -/
def ofList (words : List Word) : WordReader :=
  { rest := words }

/-- Number of words in the whole sequence. -/
def total (r : WordReader) : Nat :=
  r.taken + r.rest.length

/-- Reads `n` words. -/
def take (r : WordReader) (n : Nat) : Except AbiError (List Word × WordReader) :=
  if n ≤ r.rest.length then
    .ok (r.rest.take n, { taken := r.taken + n, rest := r.rest.drop n })
  else .error (.flatArityMismatch (r.taken + n) r.total)

/-- Reads one word, which has to be of the given kind, and answers its bits. -/
def next (r : WordReader) (t : CoreType) : Except AbiError (Nat × WordReader) :=
  match r.rest with
  | [] => .error (.flatArityMismatch (r.taken + 1) r.total)
  | w :: rest => (w.expect t).map fun bits => (bits, { taken := r.taken + 1, rest })

/-- Every word was read. -/
def finish (r : WordReader) : Except AbiError Unit :=
  if r.rest.isEmpty then .ok () else .error (.flatArityMismatch r.taken r.total)

end WordReader

end ComponentAbi
