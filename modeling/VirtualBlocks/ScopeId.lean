import VirtualBlocks.Checksum
import VirtualBlocks.Path

/-!
Contract: the attribute that ties scoped styles to their component.

Owns:
- the name of a file as it enters an output: the whole path while developing,
  the last part alone in production, so that a build does not depend on where
  it ran;
- the scope id, a checksum over that name and the source.
-/

namespace VirtualBlocks

/-- The name of a file that an output may show. -/
def Path.shownName (file : Path) (production : Bool) : String :=
  if production then file.fileName?.getD file.text else file.text

def scopeId (file : Path) (source : String) (production : Bool) : String :=
  "data-v-" ++ Checksum.ofText (file.shownName production ++ source)

end VirtualBlocks
