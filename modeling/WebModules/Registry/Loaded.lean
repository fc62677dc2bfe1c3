/-!
Modules as they are loaded.
-/

namespace WebModules

/-- The text of a module and the place that it was served from. -/
structure LoadedModule where
  source : String
  /-- What relative specifiers in the module are resolved against. -/
  location : String
  deriving DecidableEq, Repr, Inhabited

end WebModules
