/-!
Contract: text inside backquotes.

Owns:
- escaping a text so that it stands for itself in a template literal: a
  backslash before every backslash, every backquote, and every dollar sign that
  opens a substitution.
-/

namespace VirtualBlocks.Text

/-- The text as it is written inside backquotes. -/
def escapeTemplateLiteral : List Char → List Char
  | [] => []
  | '$' :: '{' :: rest => '\\' :: '$' :: '{' :: escapeTemplateLiteral rest
  | c :: rest =>
      if c = '\\' ∨ c = '`' then '\\' :: c :: escapeTemplateLiteral rest
      else c :: escapeTemplateLiteral rest

end VirtualBlocks.Text
