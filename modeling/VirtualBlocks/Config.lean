import VirtualBlocks.Json.Reader
import VirtualBlocks.Languages

/-!
Contract: the options of the plugin as data.

Owns:
- the options and their defaults, all of which may be left out of a JSON text;
- the derived settings: languages, patterns, helper modules and asset urls, each
  the given one over the built-in one;
- production and server mode, from the options and the environment.

Does not own: options that are functions (`Plugin.Setup`).
-/

namespace VirtualBlocks

/-- The options that a template compiler sees. -/
structure TemplateConfig where
  isProduction : Option Bool := none
  transformAssetUrls : Table (List String) := ∅
deriving DecidableEq

structure Config where
  /-- Patterns of the files that are handled. -/
  includes : List String := []
  /-- Patterns of the files that are not handled all the same. -/
  excludes : List String := []
  /-- Tags of exported custom blocks: `!tag` denies, `*` means all. -/
  customBlocks : Option (List String) := none
  /-- Default languages over the built-in ones. -/
  defaultLang : Languages := ∅
  /-- Whether styles stay in the component module. -/
  css : Bool := true
  /-- Whether a component carries the name of its file. -/
  exposeFilename : Bool := false
  /-- Headers of styles, by language. -/
  data : Table String := ∅
  /-- Deprecated: tags to deny. -/
  deniedBlocks : Option (List String) := none
  /-- Deprecated: tags to allow. -/
  allowedBlocks : Option (List String) := none
  template : TemplateConfig := {}
  /-- Whether styles are loaded by the script instead of injected. -/
  themeLoading : Bool := false
  normalizer : Option String := none
  styleInjector : Option String := none
  serverStyleInjector : Option String := none
  needMap : Bool := true
  sourceRoot : Option String := none
  helpersDir : Option String := none
deriving DecidableEq

namespace Config

instance : Inhabited Config := ⟨{}⟩

/-! ## Built-in settings -/

/-- The pattern of component files. -/
def defaultInclude : String := "*.vue"

def defaultNormalizer : String :=
  "~vue-runtime-helpers/dist/normalize-component.js"

def defaultStyleInjector : String :=
  "~vue-runtime-helpers/dist/inject-style/browser.js"

def defaultServerStyleInjector : String :=
  "~vue-runtime-helpers/dist/inject-style/server.js"

/-- The attributes that hold asset urls, by element. -/
def builtinAssetUrls : Table (List String) :=
  Table.ofList
    [("video", ["src", "poster"]), ("source", ["src"]), ("img", ["src"]),
      ("image", ["xlink:href"])]

/-! ## Derived settings -/

/-- Whether compiled styles leave the component module. -/
def extractsCss (config : Config) : Bool :=
  !config.css

def languages (config : Config) : Languages :=
  Languages.builtin.overlay config.defaultLang

def includePatterns (config : Config) : List String :=
  if config.includes.isEmpty then [defaultInclude] else config.includes

def assetUrls (config : Config) : Table (List String) :=
  builtinAssetUrls.overlay config.template.transformAssetUrls

def normalizerModule (config : Config) : String :=
  config.normalizer.getD defaultNormalizer

def styleInjectorModule (config : Config) : String :=
  config.styleInjector.getD defaultStyleInjector

def serverStyleInjectorModule (config : Config) : String :=
  config.serverStyleInjector.getD defaultServerStyleInjector

end Config

/-! ## JSON -/

namespace TemplateConfig

def fieldNames : List String :=
  ["isProduction", "transformAssetUrls"]

def ofJson? (value : Json) : Option TemplateConfig := do
  let fields ← value.fields? fieldNames
  let isProduction ← fields.get "isProduction" (Json.optional? Json.bool?) none
  let transformAssetUrls ←
    fields.get "transformAssetUrls" (Json.table? (Json.list? Json.string?)) ∅
  return { isProduction, transformAssetUrls }

def toJson (config : TemplateConfig) : Json :=
  Json.record
    [("isProduction", .optional .bool config.isProduction),
      ("transformAssetUrls", .table Json.strings config.transformAssetUrls)]

end TemplateConfig

namespace Config

def fieldNames : List String :=
  ["include", "exclude", "customBlocks", "defaultLang", "css", "exposeFilename", "data",
    "blackListCustomBlocks", "whiteListCustomBlocks", "template", "useSpfxThemeLoading",
    "normalizer", "styleInjector", "styleInjectorSSR", "needMap", "sourceRoot", "helpersDir"]

def ofJson? (value : Json) : Option Config := do
  let fields ← value.fields? fieldNames
  let texts := Json.list? Json.string?
  let optionalText := Json.optional? Json.string?
  let includes ← fields.get "include" texts []
  let excludes ← fields.get "exclude" texts []
  let customBlocks ← fields.get "customBlocks" (Json.optional? texts) none
  let defaultLang ← fields.get "defaultLang" (Json.table? Json.string?) ∅
  let css ← fields.get "css" Json.bool? true
  let exposeFilename ← fields.get "exposeFilename" Json.bool? false
  let data ← fields.get "data" (Json.table? Json.string?) ∅
  let deniedBlocks ← fields.get "blackListCustomBlocks" (Json.optional? texts) none
  let allowedBlocks ← fields.get "whiteListCustomBlocks" (Json.optional? texts) none
  let template ← fields.get "template" TemplateConfig.ofJson? {}
  let themeLoading ← fields.get "useSpfxThemeLoading" Json.bool? false
  let normalizer ← fields.get "normalizer" optionalText none
  let styleInjector ← fields.get "styleInjector" optionalText none
  let serverStyleInjector ← fields.get "styleInjectorSSR" optionalText none
  let needMap ← fields.get "needMap" Json.bool? true
  let sourceRoot ← fields.get "sourceRoot" optionalText none
  let helpersDir ← fields.get "helpersDir" optionalText none
  return {
    includes, excludes, customBlocks, defaultLang, css, exposeFilename, data, deniedBlocks,
    allowedBlocks, template, themeLoading, normalizer, styleInjector, serverStyleInjector,
    needMap, sourceRoot, helpersDir }

def toJson (config : Config) : Json :=
  Json.record
    [("include", .strings config.includes),
      ("exclude", .strings config.excludes),
      ("customBlocks", .optional .strings config.customBlocks),
      ("defaultLang", .table .string config.defaultLang),
      ("css", .bool config.css),
      ("exposeFilename", .bool config.exposeFilename),
      ("data", .table .string config.data),
      ("blackListCustomBlocks", .optional .strings config.deniedBlocks),
      ("whiteListCustomBlocks", .optional .strings config.allowedBlocks),
      ("template", config.template.toJson),
      ("useSpfxThemeLoading", .bool config.themeLoading),
      ("normalizer", .optional .string config.normalizer),
      ("styleInjector", .optional .string config.styleInjector),
      ("styleInjectorSSR", .optional .string config.serverStyleInjector),
      ("needMap", .bool config.needMap),
      ("sourceRoot", .optional .string config.sourceRoot),
      ("helpersDir", .optional .string config.helpersDir)]

/-- The options written in a JSON text. -/
def ofText? (text : String) : Option Config :=
  (Json.ofText? text).bind ofJson?

end Config

/-! ## Build mode -/

/-- What the current build is for. -/
structure BuildMode where
  isProduction : Bool := false
  isServer : Bool := false
deriving DecidableEq

namespace BuildMode

/-- The mode that the options and the environment ask for. An explicit option
wins; otherwise either of two variables turns production on. -/
def detect (config : Config) (environment : String → Option String) : BuildMode :=
  { isProduction :=
      config.template.isProduction.getD
        (environment "NODE_ENV" == some "production" ||
          environment "BUILD" == some "production")
    isServer := environment "VUE_ENV" == some "server" }

/-- The name of the platform that the build is for. -/
def target (mode : BuildMode) : String :=
  if mode.isServer then "server" else "browser"

end BuildMode

end VirtualBlocks
