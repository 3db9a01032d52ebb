import VirtualBlocks.Files.Memory
import VirtualBlocks.Proofs.Package.Manifest

/-!
Contract: the search for a specifier as a search in one list.

Owns:
- the candidates of a base path and of a specifier, in the order in which they are tried;
- that each stage of the search finds the first stored file among its candidates;
- that a specifier leads to the first stored file among all its candidates, and nowhere when
  none is stored;
- what a manifest without an entry point takes away, and that nearer packages come first.

Does not own: which contents are manifests (`Proofs.Package.Manifest`).
-/

namespace VirtualBlocks.Package

/-! ## Candidates -/

/-- The files that a base path may stand for. -/
def fileCandidates (base : Path) : List Path :=
  [base, ⟨base.text ++ ".js"⟩, ⟨base.text ++ ".json"⟩]

def indexCandidates (directory : Path) : List Path :=
  [directory.join ⟨"index.js"⟩, directory.join ⟨"index.json"⟩]

section Memory

variable (memory : MemoryFiles)

def isStored (path : Path) : Bool :=
  (memory.get? path).isSome

/-- The entry point that the manifest of a directory names. -/
def entry? (directory : Path) : Option String :=
  ((memory.get? (directory.join ⟨"package.json"⟩)).bind readManifest?).join.filter
    (fun main => main ≠ "")

/-- The files that the entry point of a directory may stand for. -/
def mainCandidates (directory : Path) : List Path :=
  match entry? memory directory with
  | none => []
  | some main =>
      let target := (directory.join ⟨main⟩).normalize
      fileCandidates target ++ indexCandidates target

/-- The candidates of a base path. -/
def candidatesAt (base : Path) : List Path :=
  fileCandidates base ++
    if memory.isDirectory base then mainCandidates memory base ++ indexCandidates base else []

/-- The base path of a package among the packages of a directory. -/
def packageBase (specifier : String) (owner : Path) : Path :=
  (owner.join ⟨"node_modules"⟩).join ⟨specifier⟩

/-- The directories whose packages are seen from a directory, the nearest first. -/
def packageOwners (directory : Path) : List Path :=
  directory.ancestors.filter (fun ancestor => ancestor.fileName? != some "node_modules")

/-- The candidates of a package among the packages of directories. -/
def packageCandidates (specifier : String) (owners : List Path) : List Path :=
  owners.flatMap (fun owner => candidatesAt memory (packageBase specifier owner))

/-- The candidates of a specifier, seen from a directory. -/
def candidates (specifier : String) (directory : Path) : List Path :=
  if isPathLike specifier then candidatesAt memory (directory.join ⟨specifier⟩).normalize
  else packageCandidates memory specifier (packageOwners directory)

/-! ## The stages of the search -/

theorem asFile?_view (base : Path) :
    asFile? memory.view base = (fileCandidates base).find? (isStored memory) := by
  have extended : extensions.map (withExtension base) =
      [⟨base.text ++ ".js"⟩, ⟨base.text ++ ".json"⟩] := by
    simp [extensions, withExtension, String.append_assoc]
  unfold asFile?
  rw [extended]
  rfl

theorem indexFile?_view (directory : Path) :
    indexFile? memory.view directory = (indexCandidates directory).find? (isStored memory) :=
  rfl

theorem main?_view (directory : Path) : main? memory.view directory = entry? memory directory := by
  unfold main? entry? FileView.readText
  cases held : memory.get? (directory.join ⟨"package.json"⟩) with
  | none => simp [MemoryFiles.view, held]
  | some content =>
      have read : memory.view.read (directory.join ⟨"package.json"⟩) = .ok content := by
        simp [MemoryFiles.view, held]
      rw [read, Option.bind_some]
      unfold readManifest?
      dsimp only
      cases Text.ofBytes? content with
      | none => rfl
      | some text =>
          rw [Option.bind_some]
          dsimp only
          cases (Json.ofText? text).bind mainOfManifest? <;> rfl

theorem mainFile?_view (directory : Path) :
    mainFile? memory.view directory =
      (mainCandidates memory directory).find? (isStored memory) := by
  unfold mainFile? mainCandidates
  rw [main?_view]
  cases entry? memory directory with
  | none => rfl
  | some main =>
      dsimp only
      rw [asFile?_view, indexFile?_view, List.find?_append]

theorem atBase?_view (base : Path) :
    atBase? memory.view base = (candidatesAt memory base).find? (isStored memory) := by
  have directory : asDirectory? memory.view base =
      (if memory.isDirectory base then mainCandidates memory base ++ indexCandidates base
        else []).find? (isStored memory) := by
    unfold asDirectory?
    rw [mainFile?_view, indexFile?_view, ← List.find?_append]
    exact (apply_ite (List.find? (isStored memory)) _ _ []).symm
  unfold atBase? candidatesAt
  rw [asFile?_view, directory, List.find?_append]

/-- The search for a specifier is the search among its candidates. -/
theorem findSome?_bases (specifier : String) (directory : Path) :
    (bases specifier directory).findSome? (atBase? memory.view) =
      (candidates memory specifier directory).find? (isStored memory) := by
  have eachBase : atBase? memory.view =
      fun base => (candidatesAt memory base).find? (isStored memory) :=
    funext (atBase?_view memory)
  unfold bases candidates
  rw [eachBase]
  by_cases isPath : isPathLike specifier = true
  · rw [if_pos isPath, if_pos isPath]
    simp
  · rw [if_neg isPath, if_neg isPath, packageBases, packageCandidates, List.findSome?_map,
      List.find?_flatMap]
    rfl

theorem isStored_iff (path : Path) : isStored memory path = true ↔ memory.get? path ≠ none :=
  Option.isSome_iff_ne_none

theorem find?_isStored_eq_some_iff {all : List Path} {found : Path} :
    all.find? (isStored memory) = some found ↔
      ∃ before after, all = before ++ found :: after ∧ memory.get? found ≠ none ∧
        ∀ earlier ∈ before, memory.get? earlier = none := by
  rw [List.find?_eq_some_iff_append, isStored_iff]
  constructor
  · rintro ⟨stored, before, after, division, unstored⟩
    exact ⟨before, after, division, stored, by simpa [isStored] using unstored⟩
  · rintro ⟨before, after, division, stored, unstored⟩
    exact ⟨stored, before, after, division, by simpa [isStored] using unstored⟩

theorem find?_isStored_eq_none_iff {all : List Path} :
    all.find? (isStored memory) = none ↔ ∀ candidate ∈ all, memory.get? candidate = none := by
  simp [List.find?_eq_none, isStored]

theorem resolve_eq_ok_iff (specifier : String) (directory found : Path) :
    resolve memory.view specifier directory = .ok found ↔
      (candidates memory specifier directory).find? (isStored memory) = some found := by
  unfold resolve
  rw [findSome?_bases]
  cases (candidates memory specifier directory).find? (isStored memory) <;> simp

theorem resolve_eq_error_iff (specifier : String) (directory : Path) (error : PluginError) :
    resolve memory.view specifier directory = .error error ↔
      error = .unresolved specifier directory ∧
        (candidates memory specifier directory).find? (isStored memory) = none := by
  unfold resolve
  rw [findSome?_bases]
  cases (candidates memory specifier directory).find? (isStored memory) <;> simp [eq_comm]

/-! ## What comes first -/

/-- A directory has an entry point when its manifest names one that is not empty. -/
theorem entry?_eq_some_iff {directory : Path} {main : String} :
    entry? memory directory = some main ↔
      main ≠ "" ∧ ∃ content, memory.get? (directory.join ⟨"package.json"⟩) = some content ∧
        IsManifest content (some main) := by
  unfold entry?
  simp only [Option.filter_eq_some_iff, Option.join_eq_some_iff, Option.bind_eq_some_iff,
    readManifest?_eq_some_iff, decide_eq_true_eq]
  exact and_comm

/-- A manifest that cannot be read takes away the candidates of its entry point, and no other
ones. -/
theorem candidatesAt_of_unreadable {base : Path} {content : List UInt8}
    (held : memory.get? (base.join ⟨"package.json"⟩) = some content)
    (unreadable : ∀ main, ¬ IsManifest content main) :
    candidatesAt memory base =
      fileCandidates base ++ if memory.isDirectory base then indexCandidates base else [] := by
  have noEntry : entry? memory base = none := by
    unfold entry?
    rw [held, Option.bind_some, readManifest?_eq_none unreadable]
    rfl
  unfold candidatesAt mainCandidates
  rw [noEntry]
  rfl

/-- A package that is found among those of a directory is not looked for farther away. -/
theorem exists_nearer_of_stored {specifier : String} {directory owner : Path}
    {nearer farther : List Path} (named : isPathLike specifier = false)
    (owners : packageOwners directory = nearer ++ owner :: farther)
    (present : ∃ candidate ∈ candidatesAt memory (packageBase specifier owner),
      memory.get? candidate ≠ none) :
    ∃ found ∈ packageCandidates memory specifier (nearer ++ [owner]),
      resolve memory.view specifier directory = .ok found := by
  have division : candidates memory specifier directory =
      packageCandidates memory specifier (nearer ++ [owner]) ++
        packageCandidates memory specifier farther := by
    unfold candidates packageCandidates
    rw [named, if_neg Bool.false_ne_true, owners, List.append_cons, List.flatMap_append]
  cases first : (packageCandidates memory specifier (nearer ++ [owner])).find?
      (isStored memory) with
  | none =>
      obtain ⟨candidate, within, stored⟩ := present
      have isCandidate : candidate ∈ packageCandidates memory specifier (nearer ++ [owner]) :=
        List.mem_flatMap.2 ⟨owner, by simp, within⟩
      exact absurd ((find?_isStored_eq_none_iff memory).1 first candidate isCandidate) stored
  | some found =>
      refine ⟨found, List.mem_of_find?_eq_some first, ?_⟩
      rw [resolve_eq_ok_iff, division, List.find?_append, first]
      rfl

/-- A specifier leads to the first stored file among its candidates, and nowhere exactly when
none of them is stored. The candidates of an entry point are there when a manifest names one,
and a manifest that cannot be read takes away no others. A package that some directory has is
never taken from a farther one. -/
theorem resolve_first_candidate (specifier : String) (directory : Path) :
    (∀ found, resolve memory.view specifier directory = .ok found ↔
      ∃ before after, candidates memory specifier directory = before ++ found :: after ∧
        memory.get? found ≠ none ∧ ∀ earlier ∈ before, memory.get? earlier = none) ∧
    (∀ error, resolve memory.view specifier directory = .error error ↔
      error = .unresolved specifier directory ∧
        ∀ candidate ∈ candidates memory specifier directory, memory.get? candidate = none) ∧
    (∀ base main, entry? memory base = some main ↔
      main ≠ "" ∧ ∃ content, memory.get? (base.join ⟨"package.json"⟩) = some content ∧
        IsManifest content (some main)) ∧
    (∀ base content, memory.get? (base.join ⟨"package.json"⟩) = some content →
      (∀ main, ¬ IsManifest content main) →
      candidatesAt memory base =
        fileCandidates base ++ if memory.isDirectory base then indexCandidates base else []) ∧
    ∀ nearer owner farther, isPathLike specifier = false →
      packageOwners directory = nearer ++ owner :: farther →
      (∃ candidate ∈ candidatesAt memory (packageBase specifier owner),
        memory.get? candidate ≠ none) →
      ∃ found ∈ packageCandidates memory specifier (nearer ++ [owner]),
        resolve memory.view specifier directory = .ok found := by
  refine ⟨fun found => ?_, fun error => ?_, fun base main => entry?_eq_some_iff memory, ?_, ?_⟩
  · rw [resolve_eq_ok_iff, find?_isStored_eq_some_iff]
  · rw [resolve_eq_error_iff, find?_isStored_eq_none_iff]
  · intro base content held unreadable
    exact candidatesAt_of_unreadable memory held unreadable
  · intro nearer owner farther named owners present
    exact exists_nearer_of_stored memory named owners present

end Memory

/-- A manifest that is not UTF-8, in a package of the root. -/
example :
    (resolve (MemoryFiles.ofList [(⟨"/node_modules/p/package.json"⟩, [0xFF]),
        (⟨"/node_modules/p/index.js"⟩, [])]).view "p" ⟨"/"⟩).toOption =
      some ⟨"/node_modules/p/index.js"⟩ := by
  decide +kernel

end VirtualBlocks.Package
