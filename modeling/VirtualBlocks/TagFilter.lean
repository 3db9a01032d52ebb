/-!
Contract: which custom blocks a component module exports.

Owns:
- the setting: a list of tags, in which `!` denies and `*` means all, or a
  predicate;
- folding the two deprecated lists into a setting;
- the decision on a tag. A tag that is allowed by name is exported, one that is
  denied by name or by `!*` is not, and of the others those that `*` allows.
-/

namespace VirtualBlocks

/-- How the exported custom blocks are chosen. -/
inductive TagSetting where
  | tags (entries : List String)
  | predicate (allows : String → Bool)

namespace TagSetting

/-- The setting that holds when only the deprecated lists are given: denied tags
first, each behind a `!`, then allowed ones. -/
def ofLists (allowed denied : Option (List String)) : TagSetting :=
  .tags ((denied.getD []).map ("!" ++ ·) ++ allowed.getD [])

/-- The setting in effect and whether a deprecated list is given. An explicit
setting makes the lists irrelevant. -/
def merge (setting : Option TagSetting) (allowed denied : Option (List String)) :
    Option TagSetting × Bool :=
  let deprecated := allowed.isSome || denied.isSome
  match setting with
  | some explicit => (some explicit, deprecated)
  | none => (if deprecated then some (ofLists allowed denied) else none, deprecated)

def listAllows (entries : List String) (tag : String) : Bool :=
  let denies (name : String) := entries.contains ("!" ++ name)
  let allows (name : String) := name.toList.head? != some '!' && entries.contains name
  allows tag || (!denies tag && !denies "*" && allows "*")

/-- Whether a setting allows a tag. Without a setting no tag is allowed. -/
def allows : Option TagSetting → String → Bool
  | none, _ => false
  | some (.tags entries), tag => listAllows entries tag
  | some (.predicate decide), tag => decide tag

end TagSetting

end VirtualBlocks
