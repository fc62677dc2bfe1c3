/-!
What a failure says to a reader: its message, and the messages of what caused it, the nearest cause
first.
-/

namespace WebModules

structure Explanation where
  message : String
  causes : List String := []
  deriving DecidableEq, Repr, Inhabited

namespace Explanation

/-- A failure with the given message that was caused by another one. -/
def causedBy (message : String) (cause : Explanation) : Explanation :=
  ⟨message, cause.message :: cause.causes⟩

end Explanation

end WebModules
