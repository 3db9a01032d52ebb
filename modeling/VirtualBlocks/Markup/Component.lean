import VirtualBlocks.Block.Descriptor
import VirtualBlocks.Markup.Element
import VirtualBlocks.Path
import VirtualBlocks.SourceMap.Lines

/-!
Contract: the source of a component as its descriptor.

Owns:
- what the attributes of an element say about its block;
- which blocks get a source map;
- the slot of a block: template and script occur at most once, styles and all
  other blocks are lists in source order;
- the messages about a source that has no descriptor.
-/

namespace VirtualBlocks

/-- What a reader of components is asked for besides the blocks. -/
structure ParseOptions where
  needMap : Bool := true
  sourceRoot : Option String := none
deriving DecidableEq

/-- Why a component has no descriptor, as any reader of components reports
it. -/
structure ParseError where
  message : String
  offset : Option Nat := none
deriving DecidableEq

namespace Markup

/-- Why a source has no descriptor. -/
inductive SplitFault where
  | element (fault : ElementFault)
  | duplicate (tag : String)
deriving DecidableEq

/-- The fault of a source and the element it lies in. -/
structure SplitError where
  fault : SplitFault
  start : Place
deriving DecidableEq

def SplitFault.text : SplitFault → String
  | .element (.tag (.unclosed tag)) => "unclosed <" ++ tag ++ "> tag"
  | .element (.tag (.unterminatedValue name)) =>
      "unterminated value for attribute '" ++ name ++ "'"
  | .element (.missingEndTag tag) => "<" ++ tag ++ "> element is missing its end tag"
  | .duplicate tag => "Single file component can contain only one <" ++ tag ++ "> element"

/-- The report of an error. Lines are counted from one. -/
def SplitError.report (error : SplitError) : ParseError :=
  { message :=
      error.fault.text ++ " (line " ++ toString (error.start.line + 1) ++ ")"
    offset := some error.start.offset }

/-- The block of an element, without a source map. -/
def Element.block (element : Element) : Block :=
  let attributes := element.tag.attributes
  { tag := element.tag.name
    content := element.content
    lang := (attributes.get? "lang").bind Attribute.text?
    src := (attributes.get? "src").bind Attribute.text?
    attributes := attributes
    isScoped := attributes.contains "scoped"
    isModule := attributes.contains "module" }

/-- Whether a block gets a map: its text is raw and stands in this file. -/
def needsMap (block : Block) : Bool :=
  isRaw block.tag && block.src.isNone

/-- The block of an element of a file. -/
def Element.mappedBlock (options : ParseOptions) (file : Path) (source : String)
    (element : Element) : Block :=
  let block := element.block
  if options.needMap && needsMap block then
    { block with
      map := some (SourceMap.ofContent file.text source element.contentStart.line
        element.content.toList options.sourceRoot) }
  else block

end Markup

/-- The descriptor with one more block, unless its slot is taken. -/
def Descriptor.add? (descriptor : Descriptor) (block : Block) : Option Descriptor :=
  if block.tag = "template" then
    if descriptor.template.isSome then none
    else some { descriptor with template := some block }
  else if block.tag = "script" then
    if descriptor.script.isSome then none
    else some { descriptor with script := some block }
  else if block.tag = "style" then
    some { descriptor with styles := descriptor.styles ++ [block] }
  else some { descriptor with customBlocks := descriptor.customBlocks ++ [block] }

open Markup in
/-- The descriptor with the block of one more element. -/
def Descriptor.addElement (options : ParseOptions) (file : Path) (source : String)
    (descriptor : Descriptor) (element : Element) : Except SplitError Descriptor :=
  match descriptor.add? (element.mappedBlock options file source) with
  | some further => .ok further
  | none => .error ⟨.duplicate element.tag.name, element.start⟩

open Markup in
/-- The descriptor of a component. A block that occurs twice is reported before
any fault behind it. -/
def Descriptor.ofSource (options : ParseOptions) (file : Path) (source : String) :
    Except SplitError Descriptor := do
  let reading := elementsOf source
  let descriptor ← reading.elements.foldlM (Descriptor.addElement options file source) {}
  match reading.stop with
  | some stop => .error ⟨.element stop.fault, stop.start⟩
  | none => .ok descriptor

end VirtualBlocks
