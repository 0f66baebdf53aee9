/-!
# Reports of failures

Every failure that leaves the program has a code, a message and somebody to blame, and is shown
in one form.
-/

namespace Campus

/-- Who is to blame for a failure. -/
inductive Blame where
  /-- The caller sent something unacceptable. -/
  | caller
  /-- The operation failed on this side. -/
  | program
  deriving DecidableEq, Repr

/-- The word shown for the blame. -/
def Blame.word : Blame → String
  | .caller => "REJECT"
  | .program => "ERROR"

/-- A failure as it is shown. -/
def showReport (blame : Blame) (code message : String) : String :=
  "[" ++ blame.word ++ "] " ++ code ++ ": " ++ message

end Campus
