import Wcl.Environment
import Wcl.Error
import Wcl.Markup.Source

/-!
# The host

What a run can ask of its surroundings: the lines of files, and the variables
of the environment.  Neither changes while it runs.
-/

namespace Wcl

/-- The files and the environment. -/
structure Host where
  read : Text → Except FileFault Source
  environment : Environment

/-- No files and no variables. -/
def Host.bare : Host := ⟨fun _ => .error .notFound, fun _ => none⟩

end Wcl
