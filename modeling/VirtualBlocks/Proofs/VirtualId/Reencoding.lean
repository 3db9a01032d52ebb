import VirtualBlocks.Proofs.VirtualId.RoundTrip

/-!
Contract: the id of a block can stand for its file when another id is made.

Owns:
- the name and the parameters of an id, seen as a file;
- the last address written into an id is the one that it has, and what else its
  query holds is what the query of the file holds.

Does not own: setting a parameter of a query (`Proofs.Uri.Query`).
-/

namespace VirtualBlocks.VirtualId

variable {file : Path}

section Written

variable (named : EndsInExtension (baseName (withoutQuery file.text.toList)))
  (kind : BlockKind) (index : Option Nat) (lang : String)
include named

/-- An id has the parameters of its file, with the reserved one set. -/
theorem parameters_write :
    parameters (write file kind index lang).toList =
      (parameters file.text.toList).set parameter
        (String.ofList (Address.toText kind index lang)) := by
  have found := query?_write file kind index lang named
  unfold parameters at found ⊢
  rw [found]
  exact Uri.Query.ofText_toText _

/-- The name of an id is the base name of its file. -/
theorem withoutQuery_write :
    withoutQuery (write file kind index lang).toList =
      baseName (withoutQuery file.text.toList) :=
  withoutQuery_of_query? (query?_write file kind index lang named)
    (toList_write file kind index lang)

/-- Of two addresses written one after the other, the second one stays. -/
theorem write_write (secondKind : BlockKind) (secondIndex : Option Nat) (secondLang : String) :
    write ⟨write file kind index lang⟩ secondKind secondIndex secondLang =
      write file secondKind secondIndex secondLang := by
  have query : blockQuery ⟨write file kind index lang⟩ secondKind secondIndex secondLang =
      blockQuery file secondKind secondIndex secondLang := by
    unfold blockQuery
    rw [parameters_write named, Uri.Query.set_set]
  apply String.toList_inj.1
  rw [toList_write ⟨write file kind index lang⟩, toList_write file secondKind, query,
    withoutQuery_write named, baseName_baseName]

end Written

/-- Encoding an id of a component again gives what encoding the component itself
gives, and an id keeps all parameters of its file but the value of the first
reserved one. -/
theorem encode_encode (languages : Languages) (file : Path)
    (named : EndsInExtension (baseName (withoutQuery file.text.toList)))
    (firstLang : Option String) (firstKind : BlockKind) (firstIndex : Option Nat)
    (secondLang : Option String) (secondKind : BlockKind) (secondIndex : Option Nat) :
    encode languages ⟨encode languages file firstLang firstKind firstIndex⟩
        secondLang secondKind secondIndex =
      encode languages file secondLang secondKind secondIndex ∧
    Uri.Query.IsSetTo parameter
      (String.ofList
        (Address.toText firstKind firstIndex (languages.forKind firstKind firstLang)))
      (parameters file.text.toList)
      (parameters (encode languages file firstLang firstKind firstIndex).toList) := by
  unfold encode
  constructor
  · exact write_write named firstKind firstIndex _ secondKind secondIndex _
  · rw [parameters_write named firstKind firstIndex]
    exact Uri.Query.isSetTo_set _ _ _

/-- A file with a second extension and a query of its own: an empty key, a plus
sign, an escape that is none, and the reserved key twice. -/
theorem encode_encode_escaped :
    EndsInExtension
        (baseName (withoutQuery "/src/App.VUE.ts?=1&vuepart=a+b&x=%zz&vuepart=%2B".toList)) ∧
      encode Languages.builtin
          ⟨encode Languages.builtin ⟨"/src/App.VUE.ts?=1&vuepart=a+b&x=%zz&vuepart=%2B"⟩
            (some "a&b.c") .styles (some 3)⟩ none .script none =
        encode Languages.builtin ⟨"/src/App.VUE.ts?=1&vuepart=a+b&x=%zz&vuepart=%2B"⟩
          none .script none ∧
      Uri.Query.IsSetTo parameter
        (String.ofList (Address.toText .styles (some 3) "a&b.c"))
        (parameters "/src/App.VUE.ts?=1&vuepart=a+b&x=%zz&vuepart=%2B".toList)
        (parameters (encode Languages.builtin
          ⟨"/src/App.VUE.ts?=1&vuepart=a+b&x=%zz&vuepart=%2B"⟩
          (some "a&b.c") .styles (some 3)).toList) := by
  have named : EndsInExtension
      (baseName (withoutQuery "/src/App.VUE.ts?=1&vuepart=a+b&x=%zz&vuepart=%2B".toList)) := by
    refine ⟨"App".toList, ".VUE".toList, ".ts".toList, by decide, Or.inr ?_, by decide +kernel⟩
    exact ⟨"ts".toList, by decide, List.all_eq_true.1 (by decide), by decide⟩
  refine ⟨named, ?_⟩
  exact encode_encode Languages.builtin ⟨"/src/App.VUE.ts?=1&vuepart=a+b&x=%zz&vuepart=%2B"⟩
    named (some "a&b.c") .styles (some 3) none .script none

end VirtualBlocks.VirtualId
