import Mathlib.Data.List.DropRight
import VirtualBlocks.Proofs.Markup.Component
import VirtualBlocks.Proofs.Markup.Nesting

/-!
Contract: components that are written, and read back.

Owns:
- written attributes, blocks and documents, each with what makes it readable;
- that an opening tag is read with exactly the attributes that were written;
- that a document is read as the blocks that were written, in their order.

Does not own: which contents are read as a whole (`Proofs.Markup.Nesting`).
-/

namespace VirtualBlocks

open Markup Text

/-! ## Tables of distinct names -/

namespace Table

variable {α : Type}

theorem get?_insertAll {bindings : List (String × α)} (distinct : (bindings.map Prod.fst).Nodup)
    (table : Table α) (key : String) :
    (table.insertAll bindings).get? key = (bindings.lookup key).or (table.get? key) := by
  induction bindings generalizing table with
  | nil => rfl
  | cons first rest inductionHypothesis =>
      obtain ⟨notLater, restDistinct⟩ := List.nodup_cons.1 distinct
      have further := inductionHypothesis restDistinct (table.insert first.1 first.2)
      rw [get?_insert] at further
      rw [lookup_binding_cons]
      show ((table.insert first.1 first.2).insertAll rest).get? key = _
      rw [further]
      by_cases same : key = first.1
      · subst same
        have unbound : rest.lookup first.1 = none := by
          rw [List.lookup_eq_none_iff]
          intro entry member
          rw [bne_iff_ne]
          exact fun equal => notLater (equal ▸ List.mem_map_of_mem member)
        rw [if_pos rfl, if_pos rfl, unbound]
        rfl
      · rw [if_neg same, if_neg same]

theorem get?_ofList {bindings : List (String × α)} (distinct : (bindings.map Prod.fst).Nodup)
    (key : String) : (ofList bindings).get? key = bindings.lookup key := by
  have found := get?_insertAll distinct empty key
  rwa [get?_empty, Option.or_none] at found

end Table

namespace Markup

/-! ## Attributes -/

/-- An attribute to be written: a bare name, or a name with a value in double
quotes. -/
structure WrittenAttribute where
  name : String
  value : Option String
  nonempty : name.toList ≠ []
  inName : ∀ c ∈ name.toList, isAttributeNameChar c = true
  noQuote : ∀ content, value = some content → '"' ∉ content.toList

namespace WrittenAttribute

def meaning (written : WrittenAttribute) : Attribute :=
  match written.value with
  | none => .flag true
  | some content => .text content

def valueText (written : WrittenAttribute) : List Char :=
  match written.value with
  | none => []
  | some content => '=' :: '"' :: (content.toList ++ ['"'])

def text (written : WrittenAttribute) : List Char :=
  ' ' :: (written.name.toList ++ written.valueText)

end WrittenAttribute

/-- The end of an opening tag. -/
def tagEnd (selfClosing : Bool) : List Char :=
  if selfClosing then ['/', '>'] else ['>']

def attributesText (attributes : List WrittenAttribute) : List Char :=
  attributes.flatMap WrittenAttribute.text

def bindings (attributes : List WrittenAttribute) : List (String × Attribute) :=
  attributes.map (fun written => (written.name, written.meaning))

section Reading

variable {c : Char} {following rest : List Char}

/-- Blanks before an attribute do not matter. -/
theorem readAttributes_dropWhile (tag : String) (attributes : Table Attribute)
    (text : List Char) :
    readAttributes tag attributes (text.dropWhile isMarkupBlank) =
      readAttributes tag attributes text := by
  rw [readAttributes_eq_turn, readAttributes_eq_turn tag attributes text, attributesTurn,
    attributesTurn, List.dropWhile_idempotent]

/-- Where a name may end, the name of an attribute and the name of a tag do. -/
theorem not_inName_of_isNameBoundary (boundary : isNameBoundary (c :: rest) = true) :
    isAttributeNameChar c = false ∧ isTagNameChar c = false := by
  simp only [isNameBoundary, isMarkupBlank, Bool.or_eq_true, beq_iff_eq] at boundary
  rcases boundary with (((((rfl | rfl) | rfl) | rfl) | rfl) | rfl) | rfl <;> decide

theorem takeWhile_name {isIn : Char → Bool} {name : List Char}
    (inName : ∀ c ∈ name, isIn c = true)
    (ends : ∀ c rest, following = c :: rest → isIn c = false) :
    (name ++ following).takeWhile isIn = name ∧ (name ++ following).dropWhile isIn = following := by
  rw [List.takeWhile_append_of_pos inName, List.dropWhile_append_of_pos inName]
  cases following with
  | nil => exact ⟨List.append_nil name, rfl⟩
  | cons c rest =>
      have outside := ends c rest rfl
      rw [List.takeWhile_cons_of_neg (by rw [outside]; exact Bool.false_ne_true),
        List.dropWhile_cons_of_neg (by rw [outside]; exact Bool.false_ne_true), List.append_nil]
      exact ⟨rfl, rfl⟩

theorem isNameBoundary_attributes (attributes : List WrittenAttribute) (selfClosing : Bool)
    (rest : List Char) :
    isNameBoundary (attributesText attributes ++ (tagEnd selfClosing ++ rest)) = true := by
  cases attributes with
  | nil => cases selfClosing <;> rfl
  | cons written others => rfl

theorem ne_of_isAttributeNameChar (inName : isAttributeNameChar c = true) :
    isMarkupBlank c = false ∧ c ≠ '=' ∧ c ≠ '>' ∧ c ≠ '/' := by
  simp only [isAttributeNameChar, Bool.and_eq_true, Bool.not_eq_true', bne_iff_ne] at inName
  obtain ⟨⟨⟨notBlank, notEquals⟩, notEnd⟩, notSlash⟩ := inName
  exact ⟨notBlank, notEquals, notEnd, notSlash⟩

/-- The first attribute stands behind blanks. -/
theorem dropWhile_attributesText_cons (written : WrittenAttribute)
    (others : List WrittenAttribute) (rest : List Char) :
    (attributesText (written :: others) ++ rest).dropWhile isMarkupBlank =
      written.name.toList ++ (written.valueText ++ (attributesText others ++ rest)) := by
  obtain ⟨first, further, divided⟩ := List.exists_cons_of_ne_nil written.nonempty
  have inName := written.inName first (divided ▸ List.mem_cons_self)
  have notBlank := (ne_of_isAttributeNameChar inName).1
  have whole : attributesText (written :: others) ++ rest =
      ' ' :: (written.name.toList ++ (written.valueText ++ (attributesText others ++ rest))) := by
    rw [attributesText, List.flatMap_cons, WrittenAttribute.text, List.append_assoc,
      List.cons_append, List.append_assoc]
    rfl
  rw [whole, List.dropWhile_cons_of_pos (by decide), divided, List.cons_append,
    List.dropWhile_cons_of_neg (by rw [notBlank]; exact Bool.false_ne_true)]

/-- Behind a name no `=` follows unless a value does. -/
theorem head?_dropWhile_attributes (attributes : List WrittenAttribute) (selfClosing : Bool)
    (rest : List Char) :
    ((attributesText attributes ++ (tagEnd selfClosing ++ rest)).dropWhile isMarkupBlank).head? ≠
      some '=' := by
  cases attributes with
  | nil => cases selfClosing <;> exact nofun
  | cons written others =>
      obtain ⟨first, further, divided⟩ := List.exists_cons_of_ne_nil written.nonempty
      have inName := written.inName first (divided ▸ List.mem_cons_self)
      rw [dropWhile_attributesText_cons, divided]
      intro equals
      exact (ne_of_isAttributeNameChar inName).2.1 (Option.some.inj equals)

/-- The value of an attribute is read as it was written. -/
theorem readAttribute_valueText (written : WrittenAttribute)
    (noValue : (following.dropWhile isMarkupBlank).head? ≠ some '=') :
    ∃ after, readAttribute written.name (written.valueText ++ following) =
        .ok (written.meaning, after) ∧
      (after = following ∨ after = following.dropWhile isMarkupBlank) := by
  unfold WrittenAttribute.valueText WrittenAttribute.meaning
  cases value : written.value with
  | none =>
      refine ⟨following.dropWhile isMarkupBlank, ?_, .inr rfl⟩
      dsimp only
      rw [List.nil_append, readAttribute]
      split
      · rename_i after equals
        rw [equals] at noValue
        contradiction
      · rfl
  | some content =>
      refine ⟨following, ?_, .inl rfl⟩
      have inValue : ∀ c ∈ content.toList, (c != '"') = true := by
        intro c member
        rw [bne_iff_ne]
        exact fun quote => written.noQuote content value (quote ▸ member)
      obtain ⟨taken, dropped⟩ := @takeWhile_name ('"' :: following) (· != '"') content.toList
        inValue (fun c rest divided => by cases divided; rfl)
      have equals : ('=' :: '"' :: (content.toList ++ '"' :: following)).dropWhile isMarkupBlank =
          '=' :: '"' :: (content.toList ++ '"' :: following) := rfl
      have quote : ('"' :: (content.toList ++ '"' :: following)).dropWhile isMarkupBlank =
          '"' :: (content.toList ++ '"' :: following) := rfl
      have whole : '=' :: '"' :: (content.toList ++ ['"']) ++ following =
          '=' :: '"' :: (content.toList ++ '"' :: following) := by
        rw [List.cons_append, List.cons_append, List.append_assoc]
        rfl
      dsimp only
      rw [whole]
      simp only [readAttribute, equals, quote, true_or, if_true, dropped, taken,
        String.ofList_toList]

/-- The name of an attribute ends before its value, or where the next attribute or
the end of the tag stands. -/
theorem not_isAttributeNameChar_valueText (written : WrittenAttribute)
    (boundary : isNameBoundary following = true) :
    ∀ c further, written.valueText ++ following = c :: further → isAttributeNameChar c = false := by
  intro c further divided
  unfold WrittenAttribute.valueText at divided
  cases value : written.value with
  | none =>
      rw [value] at divided
      rw [show following = c :: further from divided] at boundary
      exact (not_inName_of_isNameBoundary boundary).1
  | some content =>
      rw [value] at divided
      cases divided
      rfl

/-- One turn reads the first of the attributes that were written. -/
theorem attributesTurn_cons {tag : String} {before : Table Attribute}
    {written : WrittenAttribute} {others : List WrittenAttribute} {after : List Char}
    (boundary : isNameBoundary (attributesText others ++ rest) = true)
    (read : readAttribute written.name
      (written.valueText ++ (attributesText others ++ rest)) = .ok (written.meaning, after)) :
    attributesTurn tag before (attributesText (written :: others) ++ rest) =
      .goesOn (before.insert written.name written.meaning) after id := by
  obtain ⟨first, further, divided⟩ := List.exists_cons_of_ne_nil written.nonempty
  have inName := written.inName first (divided ▸ List.mem_cons_self)
  obtain ⟨taken, dropped⟩ := takeWhile_name written.inName
    (not_isAttributeNameChar_valueText written boundary)
  have whole : written.name.toList ++ (written.valueText ++ (attributesText others ++ rest)) =
      first :: (further ++ (written.valueText ++ (attributesText others ++ rest))) := by
    rw [divided]
    rfl
  unfold attributesTurn
  rw [dropWhile_attributesText_cons, whole]
  split
  · contradiction
  · rename_i isEnd
    exact absurd (List.cons.inj isEnd).1 (ne_of_isAttributeNameChar inName).2.2.1
  · rename_i isEnd
    exact absurd (List.cons.inj isEnd).1 (ne_of_isAttributeNameChar inName).2.2.2
  · rename_i isFirst
    obtain ⟨rfl, rfl⟩ := List.cons.inj isFirst
    rw [if_pos inName, ← whole, taken, dropped, String.ofList_toList]
    dsimp only
    rw [read]

/-- Attributes are read as they were written, through the end of their tag. -/
theorem readAttributes_attributesText (tag : String) (attributes : List WrittenAttribute)
    (selfClosing : Bool) (before : Table Attribute) (rest : List Char) :
    readAttributes tag before (attributesText attributes ++ (tagEnd selfClosing ++ rest)) =
      .ok (⟨tag, before.insertAll (bindings attributes), selfClosing⟩, rest) := by
  induction attributes generalizing before with
  | nil =>
      rw [readAttributes_eq_turn]
      cases selfClosing <;> rfl
  | cons written others inductionHypothesis =>
      obtain ⟨after, read, isAfter⟩ := readAttribute_valueText written
        (head?_dropWhile_attributes others selfClosing rest)
      have boundary := isNameBoundary_attributes others selfClosing rest
      have further := inductionHypothesis (before.insert written.name written.meaning)
      rw [readAttributes_eq_turn, attributesTurn_cons boundary read]
      show readAttributes tag (before.insert written.name written.meaning) after = _
      rcases isAfter with same | blanksDropped
      · rw [same]
        exact further
      · rw [blanksDropped, readAttributes_dropWhile]
        exact further

/-- An opening tag is read as it was written. -/
theorem readOpenTag_append {tag : String} (isName : IsTagName tag.toList)
    (attributes : List WrittenAttribute) (selfClosing : Bool) (rest : List Char) :
    readOpenTag (tag.toList ++ (attributesText attributes ++ (tagEnd selfClosing ++ rest))) =
      .ok (⟨tag, Table.ofList (bindings attributes), selfClosing⟩, rest) := by
  have boundary := isNameBoundary_attributes attributes selfClosing rest
  have ends : ∀ c further, attributesText attributes ++ (tagEnd selfClosing ++ rest) =
      c :: further → isTagNameChar c = false := by
    intro c further divided
    rw [divided] at boundary
    exact (not_inName_of_isNameBoundary boundary).2
  obtain ⟨taken, dropped⟩ := takeWhile_name isName.all ends
  rw [readOpenTag, taken, dropped, String.ofList_toList]
  exact readAttributes_attributesText tag attributes selfClosing ∅ rest

end Reading

/-! ## Blocks -/

/-- A block to be written. Only one without content can be written as a tag that
closes itself. -/
structure WrittenBlock where
  tag : String
  attributes : List WrittenAttribute
  content : String
  selfClosing : Bool
  isName : IsTagName tag.toList
  distinct : (attributes.map WrittenAttribute.name).Nodup
  isContent : IsContent tag.toList (isRaw tag) content.toList
  noContent : selfClosing = true → content = ""

namespace WrittenBlock

def value? (written : WrittenBlock) (name : String) : Option Attribute :=
  (bindings written.attributes).lookup name

/-- What stands behind the opening tag. -/
def inside (written : WrittenBlock) : List Char :=
  if written.selfClosing then []
  else written.content.toList ++ closingTag written.tag.toList

def text (written : WrittenBlock) : List Char :=
  '<' :: (written.tag.toList ++
    (attributesText written.attributes ++ (tagEnd written.selfClosing ++ written.inside)))

/-- The block that is meant. -/
def block (written : WrittenBlock) : Block where
  tag := written.tag
  content := written.content
  lang := (written.value? "lang").bind Attribute.text?
  src := (written.value? "src").bind Attribute.text?
  attributes := Table.ofList (bindings written.attributes)
  isScoped := (written.value? "scoped").isSome
  isModule := (written.value? "module").isSome

theorem get?_attributes (written : WrittenBlock) (name : String) :
    written.block.attributes.get? name = written.value? name := by
  apply Table.get?_ofList
  have names : (bindings written.attributes).map Prod.fst =
      written.attributes.map WrittenAttribute.name := by
    rw [bindings, List.map_map]
    rfl
  rw [names]
  exact written.distinct

/-- An element with the tag and the content of a written block has its block. -/
theorem block_of_element (written : WrittenBlock) (start contentStart : Place) :
    Element.block ⟨⟨written.tag, Table.ofList (bindings written.attributes), written.selfClosing⟩,
      start, contentStart, written.content⟩ = written.block := by
  have found (name : String) : (Table.ofList (bindings written.attributes)).get? name =
      written.value? name := written.get?_attributes name
  simp only [Element.block, block, Table.contains, found]

end WrittenBlock

/-! ## Documents -/

/-- What can stand between blocks: text without `<` and complete comments. -/
inductive IsGap : List Char → Prop where
  | nil : IsGap []
  | char {c : Char} {rest : List Char} (other : c ≠ '<') (further : IsGap rest) :
      IsGap (c :: rest)
  | comment {comment rest : List Char} (isComment : IsComment comment) (further : IsGap rest) :
      IsGap (comment ++ rest)

/-- A block and the gap before it. -/
structure Part where
  gap : List Char
  isGap : IsGap gap
  written : WrittenBlock

/-- A component to be written: blocks with gaps before, between and behind them. -/
structure Document where
  parts : List Part
  ending : List Char
  isGap : IsGap ending

namespace Document

def text (document : Document) : List Char :=
  document.parts.flatMap (fun part => part.gap ++ part.written.text) ++ document.ending

def source (document : Document) : String :=
  String.ofList document.text

def blocks (document : Document) : List Block :=
  document.parts.map (·.written.block)

end Document

/-! ## Reading a document -/

section Documents

variable {source rest gap : List Char}

theorem toNextTag_append_of_isGap (isGap : IsGap gap) :
    toNextTag (gap ++ rest) = toNextTag rest := by
  induction isGap with
  | nil => rfl
  | char other _ inductionHypothesis =>
      rw [List.cons_append, toNextTag, if_pos other, inductionHypothesis]
  | @comment comment further isComment _ inductionHypothesis =>
      have starts : commentStart.isPrefixOf (comment ++ (further ++ rest)) = true :=
        List.isPrefixOf_iff_prefix.2 (isComment.starts.trans (List.prefix_append _ _))
      have behind : afterFirst commentEnd (comment ++ (further ++ rest)) = further ++ rest := by
        rw [afterFirst, cutThrough?_append (by decide) isComment.ends isComment.onlyEnd]
      obtain ⟨inner, divided⟩ := isComment.starts
      have mark : comment ++ (further ++ rest) =
          '<' :: (['!', '-', '-'] ++ inner ++ (further ++ rest)) := by
        rw [← divided]
        rfl
      rw [List.append_assoc, mark, toNextTag, ← mark, if_neg (fun other => other rfl),
        if_pos starts, behind, inductionHypothesis]

theorem WrittenBlock.text_append (written : WrittenBlock) (rest : List Char) :
    written.text ++ rest = '<' :: (written.tag.toList ++
      (attributesText written.attributes ++
        (tagEnd written.selfClosing ++ (written.inside ++ rest)))) := by
  rw [text, List.cons_append, List.append_assoc, List.append_assoc, List.append_assoc]

/-- A name behind a `<` opens an element. -/
theorem toNextTag_of_isTagName {name : List Char} (isName : IsTagName name) :
    toNextTag ('<' :: (name ++ rest)) = '<' :: (name ++ rest) := by
  obtain ⟨first, others, rfl, letter, _⟩ := isName
  have foreign {c : Char} (noLetter : c.isAlpha = false) : first ≠ c := by
    intro same
    rw [same, noLetter] at letter
    contradiction
  have noComment : ¬ commentStart.isPrefixOf ('<' :: (first :: others ++ rest)) = true := by
    rw [List.isPrefixOf_iff_prefix]
    intro starts
    have second := (List.cons_prefix_cons.1 (List.cons_prefix_cons.1 starts).2).1
    exact foreign (by decide) second.symm
  have noAside : opensAside first = false := by
    simp only [opensAside, Bool.or_eq_false_iff, beq_eq_false_iff_ne]
    exact ⟨⟨foreign (by decide), foreign (by decide)⟩, foreign (by decide)⟩
  rw [toNextTag, if_neg (fun other => other rfl), if_neg noComment, List.cons_append,
    List.head?_cons]
  dsimp only
  rw [noAside, if_neg Bool.false_ne_true, if_pos letter]

/-- A written block behind a gap is read as an element with this block, and reading
goes on behind it. -/
theorem readElements_part (part : Part) :
    ∃ element : Element, element.block = part.written.block ∧
      readElements source (part.gap ++ (part.written.text ++ rest)) =
        (readElements source rest).withFirst element := by
  obtain ⟨gap, isGap, written⟩ := part
  refine ⟨⟨⟨written.tag, Table.ofList (bindings written.attributes), written.selfClosing⟩,
    Place.before source (written.text ++ rest), Place.before source (written.inside ++ rest),
    written.content⟩, written.block_of_element _ _, ?_⟩
  have found : toNextTag (gap ++ (written.text ++ rest)) = written.text ++ rest := by
    rw [toNextTag_append_of_isGap isGap, written.text_append]
    exact toNextTag_of_isTagName written.isName
  have opened := readOpenTag_append written.isName written.attributes written.selfClosing
    (written.inside ++ rest)
  rw [written.text_append] at found ⊢
  rw [readElements_eq_turn]
  simp only [elementsTurn, found, opened]
  cases selfClosing : written.selfClosing with
  | true =>
      have nothing : written.inside = [] := by
        rw [WrittenBlock.inside, selfClosing]
        rfl
      rw [nothing, written.noContent selfClosing]
      rfl
  | false =>
      have behind : written.inside ++ rest =
          written.content.toList ++ (closingTag written.tag.toList ++ rest) := by
        rw [WrittenBlock.inside, selfClosing, ← List.append_assoc]
        rfl
      have closed := body?_of_isContent written.isName written.isContent rest
      rw [if_neg Bool.false_ne_true, behind, closed]
      dsimp only
      rw [String.ofList_toList]
      rfl

theorem readElements_parts (parts : List Part) (isGap : IsGap gap) :
    let reading := readElements source
      (parts.flatMap (fun part => part.gap ++ part.written.text) ++ gap)
    reading.elements.map Element.block = parts.map (·.written.block) ∧ reading.stop = none := by
  induction parts with
  | nil =>
      have nothing : toNextTag gap = [] := by
        have skipped := @toNextTag_append_of_isGap [] gap isGap
        rwa [List.append_nil, toNextTag] at skipped
      have ended : readElements source gap = ⟨[], none⟩ := by
        rw [readElements_eq_turn, elementsTurn, nothing]
        rfl
      rw [List.flatMap_nil, List.nil_append, ended]
      exact ⟨rfl, rfl⟩
  | cons part others inductionHypothesis =>
      obtain ⟨element, isBlock, read⟩ := @readElements_part source
        (others.flatMap (fun part => part.gap ++ part.written.text) ++ gap) part
      rw [List.flatMap_cons, List.append_assoc, List.append_assoc, read]
      obtain ⟨blocks, finished⟩ := inductionHypothesis
      exact ⟨congr (congrArg List.cons isBlock) blocks, finished⟩

end Documents

end Markup

/-! ## The descriptor of a document -/

/-- All blocks of a document are read, in their order. -/
theorem Markup.Document.elementsOf_source (document : Document) :
    (elementsOf document.source).elements.map Element.block = document.blocks ∧
      (elementsOf document.source).stop = none := by
  have read := @readElements_parts document.source.toList document.ending document.parts
    document.isGap
  have whole : document.source.toList = document.text := String.toList_ofList
  unfold elementsOf
  rw [whole] at read ⊢
  exact read

open Descriptor in
/-- Writing a document and reading it is the identity on its blocks: they are read
in their order, each with the attributes, the text of each attribute and the
content that were written, and land in their slots. -/
theorem Descriptor.ofSource_document (document : Document)
    (once : OncePerSlot (document.blocks.map Block.tag)) (options : ParseOptions)
    (file : Path) :
    (∃ elements, elementsOf document.source = ⟨elements, none⟩ ∧
      elements.map Element.block = document.blocks) ∧
    (∃ descriptor, ofSource options file document.source = .ok descriptor ∧
      descriptor.withoutMaps = ofBlocks document.blocks ∧
      descriptor.withoutMaps.blocks.Perm document.blocks) ∧
    ∀ part ∈ document.parts, ∀ name,
      part.written.block.attributes.get? name = part.written.value? name := by
  obtain ⟨blocks, finished⟩ := document.elementsOf_source
  have tags : (elementsOf document.source).elements.map (·.tag.name) =
      document.blocks.map Block.tag := by
    rw [← blocks, List.map_map]
    rfl
  have kept : (ofBlocks ((elementsOf document.source).elements.map
      (·.mappedBlock options file document.source))).withoutMaps = ofBlocks document.blocks := by
    have withoutMap : (elementsOf document.source).elements.map
        (Block.withoutMap ∘ (·.mappedBlock options file document.source)) = document.blocks := by
      rw [← blocks]
      exact List.map_congr_left (fun element _ => element.withoutMap_mappedBlock _ _ _)
    rw [withoutMaps_ofBlocks, List.map_map, withoutMap]
  refine ⟨⟨(elementsOf document.source).elements, ?_, blocks⟩, ⟨_, ?_, kept, ?_⟩, ?_⟩
  · rw [← finished]
  · exact (ofSource_eq_ok_iff options file document.source _).2 ⟨finished, tags ▸ once, rfl⟩
  · rw [kept]
    exact blocks_ofBlocks_perm once
  · exact fun part _ name => part.written.get?_attributes name

/-! ## An example -/

namespace Markup

/-- A template with another one in it, and with a third one in a comment. -/
def nestedTemplate : WrittenBlock where
  tag := "template"
  attributes :=
    [{ name := "lang", value := some "html", nonempty := by decide +kernel
       inName := List.all_eq_true.1 (by decide +kernel), noQuote := by decide +kernel },
     { name := "functional", value := none, nonempty := by decide +kernel
       inName := List.all_eq_true.1 (by decide +kernel), noQuote := nofun }]
  content := "<p><template v-if=ok><b/></TEMPLATE></p><!-- <template> -->"
  selfClosing := false
  isName := ⟨'t', "emplate".toList, by decide +kernel, by decide,
    List.all_eq_true.1 (by decide +kernel)⟩
  distinct := by decide +kernel
  isContent := by
    have divided : "<p><template v-if=ok><b/></TEMPLATE></p><!-- <template> -->".toList =
        "<p>".toList ++ (openingTag "template".toList " v-if=ok".toList ++ ("<b/>".toList ++
          (closingTag "TEMPLATE".toList ++
            ("</p>".toList ++ ("<!-- <template> -->".toList ++ []))))) := by
      decide +kernel
    have notRaw : isRaw "template" = false := by decide +kernel
    rw [divided, notRaw]
    apply Balanced.element
    · decide +kernel
    · rfl
    · decide +kernel
    · decide +kernel
    · exact .plain (by decide +kernel)
    · decide +kernel
    · exact .comment (by decide +kernel) (by decide +kernel) (.plain (by decide +kernel))
  noContent := nofun

/-- A script in which other tags are text. -/
def rawScript : WrittenBlock where
  tag := "script"
  attributes := []
  content := "let a = 1 < '</scripts>' // <script>"
  selfClosing := false
  isName := ⟨'s', "cript".toList, by decide +kernel, by decide,
    List.all_eq_true.1 (by decide +kernel)⟩
  distinct := by decide +kernel
  isContent := by
    have raw : isRaw "script" = true := by decide +kernel
    rw [raw]
    show IsPlain _ true _
    decide +kernel
  noContent := nofun

/-- A block without content, with the end of a tag in an attribute. -/
def emptyBlock : WrittenBlock where
  tag := "i18n"
  attributes :=
    [{ name := "src", value := some "./a>b/>", nonempty := by decide +kernel
       inName := List.all_eq_true.1 (by decide +kernel), noQuote := by decide +kernel }]
  content := ""
  selfClosing := true
  isName := ⟨'i', "18n".toList, by decide +kernel, by decide,
    List.all_eq_true.1 (by decide +kernel)⟩
  distinct := by decide +kernel
  isContent := by
    have notRaw : isRaw "i18n" = false := by decide +kernel
    rw [notRaw]
    exact .plain (by decide +kernel)
  noContent _ := rfl

def nestedDocument : Document where
  parts :=
    [⟨[], .nil, nestedTemplate⟩,
      ⟨"<!-- <script> -->".toList ++ ['\n'],
        .comment (by decide +kernel) (.char (by decide) .nil), rawScript⟩,
      ⟨['\n'], .char (by decide) .nil, emptyBlock⟩]
  ending := ['.']
  isGap := .char (by decide) .nil

end Markup

open Descriptor in
theorem Descriptor.ofSource_document_nested :
    nestedDocument.source =
      "<template lang=\"html\" functional>" ++
        "<p><template v-if=ok><b/></TEMPLATE></p><!-- <template> --></template>" ++
        "<!-- <script> -->\n<script>let a = 1 < '</scripts>' // <script></script>\n" ++
        "<i18n src=\"./a>b/>\"/>." ∧
    OncePerSlot (nestedDocument.blocks.map Block.tag) ∧
    ∃ descriptor, ofSource {} ⟨"/src/App.vue"⟩ nestedDocument.source = .ok descriptor ∧
      descriptor.withoutMaps = ofBlocks nestedDocument.blocks := by
  have once : OncePerSlot (nestedDocument.blocks.map Block.tag) := by
    intro tag single
    rcases single with rfl | rfl <;> decide +kernel
  obtain ⟨-, ⟨descriptor, read, kept, -⟩, -⟩ :=
    ofSource_document nestedDocument once {} ⟨"/src/App.vue"⟩
  exact ⟨by decide +kernel, once, descriptor, read, kept⟩

end VirtualBlocks
