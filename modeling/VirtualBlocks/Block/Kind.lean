/-!
Contract: the four kinds of addressable blocks.

Owns:
- the kinds and their names in an id;
- which kinds are lists, so that their blocks need a position.
-/

namespace VirtualBlocks

/-- A kind of block: two that occur at most once, and two lists. -/
inductive BlockKind where
  | template
  | script
  | styles
  | customBlocks
deriving DecidableEq

namespace BlockKind

/-- The name of a kind in an id. -/
def name : BlockKind → String
  | .template => "template"
  | .script => "script"
  | .styles => "styles"
  | .customBlocks => "customBlocks"

/-- The kind of a name. -/
def ofName? (name : String) : Option BlockKind :=
  if name = "template" then some .template
  else if name = "script" then some .script
  else if name = "styles" then some .styles
  else if name = "customBlocks" then some .customBlocks
  else none

def isList : BlockKind → Bool
  | .template => false
  | .script => false
  | .styles => true
  | .customBlocks => true

/-- The message about a name that is none of the four. -/
def unknownMessage (name : String) : String :=
  "unknown block type: " ++ name

@[simp] theorem ofName?_name (kind : BlockKind) : ofName? kind.name = some kind := by
  cases kind <;> rfl

/-- A name belongs to the kind that it gives, and to no other. -/
theorem name_of_ofName? {name : String} {kind : BlockKind}
    (named : ofName? name = some kind) : kind.name = name := by
  unfold ofName? at named
  split at named
  · rename_i same
    exact Option.some.inj named ▸ same.symm
  · split at named
    · rename_i same
      exact Option.some.inj named ▸ same.symm
    · split at named
      · rename_i same
        exact Option.some.inj named ▸ same.symm
      · split at named
        · rename_i same
          exact Option.some.inj named ▸ same.symm
        · contradiction

end BlockKind

end VirtualBlocks
