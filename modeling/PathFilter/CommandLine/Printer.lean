import PathFilter.CommandLine.Invocation
import PathFilter.CommandLine.Argument

/-!
Writing command lines. An intent is what is to be asked for; an item is one use of an option; a
command line is the name of the program, a list of items, two hyphens and the paths. Items spell an
intent if they use each option for the values and as often as the intent says, in any order across
different options.
-/

set_option autoImplicit false
set_option relaxedAutoImplicit false

namespace PathFilter.CommandLine

/-- The options that a switch adds to every pattern. -/
def Switch.options : Switch → MatchOptions
  | .anywhere => { anywhere := true }
  | .recursive => { belowFolders := true }
  | .trailingSlash => { trailingSeparator := true }
  | .repoRoot => { repoRoot := true }
  | _ => .none

/-- The roles that a switch disables. -/
def Switch.disabled : Switch → DisabledRoles
  | .noIncludes => { includes := true }
  | .noExcludes => { excludes := true }
  | .noIgnores => { ignores := true }
  | _ => .none

/-- What is to be asked for. A settings file and a repository are asked for together. -/
structure Intent where
  includes : List Text := []
  excludes : List Text := []
  ignores : List Text := []
  includeFiles : List FileName := []
  excludeFiles : List FileName := []
  ignoreFiles : List FileName := []
  companions : Option (FileName × Text) := none
  switches : Switch → Bool := fun _ => false
  verbosity : Fin 256 := 0
  paths : List Text := []

namespace Intent

def options (intent : Intent) : MatchOptions :=
  Switch.all.foldl (fun options name =>
    if intent.switches name then options.union name.options else options) .none

def disabled (intent : Intent) : DisabledRoles :=
  Switch.all.foldl (fun disabled name =>
    if intent.switches name then disabled.union name.disabled else disabled) .none

def invocation (intent : Intent) : Invocation where
  help := intent.switches .help
  version := intent.switches .version
  verbosity := intent.verbosity
  includes := intent.includes
  excludes := intent.excludes
  ignores := intent.ignores
  includeFiles := intent.includeFiles
  excludeFiles := intent.excludeFiles
  ignoreFiles := intent.ignoreFiles
  settings := intent.companions.map Prod.fst
  repository := intent.companions.map Prod.snd
  options := intent.options
  disabled := intent.disabled
  acceptedOnly := intent.switches .acceptedOnly
  json := intent.switches .json
  paths := intent.paths

def values (intent : Intent) : ValueOption → List Bytes
  | .includePattern => intent.includes.map Utf8.encode
  | .excludePattern => intent.excludes.map Utf8.encode
  | .ignorePattern => intent.ignores.map Utf8.encode
  | .includeFile => intent.includeFiles
  | .excludeFile => intent.excludeFiles
  | .ignoreFile => intent.ignoreFiles
  | .settingsFile => (intent.companions.map Prod.fst).toList
  | .repository => (intent.companions.map fun pair => Utf8.encode pair.2).toList

end Intent

def Invocation.intent (invocation : Invocation) : Intent where
  includes := invocation.includes
  excludes := invocation.excludes
  ignores := invocation.ignores
  includeFiles := invocation.includeFiles
  excludeFiles := invocation.excludeFiles
  ignoreFiles := invocation.ignoreFiles
  companions := invocation.settings.bind fun file =>
    invocation.repository.map fun repository => (file, repository)
  switches := invocation.isOn
  verbosity := Fin.ofNat 256 invocation.verbosity
  paths := invocation.paths

/-- How an option is named. -/
inductive Spelling
  | long
  /-- By its letter, or by its long name if it has no letter. -/
  | letter
  deriving DecidableEq, Repr

namespace CommandOption

def longName (option : CommandOption) : Bytes :=
  Argument.hyphen :: Argument.hyphen :: Utf8.encode option.long.toList

def spell (option : CommandOption) : Spelling → Bytes
  | .long => option.longName
  | .letter =>
    match option.short? with
    | some letter => Argument.hyphen :: Utf8.encode [letter]
    | none => option.longName

end CommandOption

inductive Item
  | switch (spelling : Spelling) (name : Switch)
  | verbose (spelling : Spelling)
  /-- The value in an argument of its own. -/
  | apart (spelling : Spelling) (option : ValueOption) (value : Bytes)
  /-- The value behind the long name and an equals sign. -/
  | joined (option : ValueOption) (value : Bytes)
  deriving DecidableEq, Repr

namespace Item

def arguments : Item → List Bytes
  | .switch spelling name => [(CommandOption.switch name).spell spelling]
  | .verbose spelling => [CommandOption.verbose.spell spelling]
  | .apart spelling option value => [(CommandOption.value option).spell spelling, value]
  | .joined option value => [(CommandOption.value option).longName ++ Argument.equalsSign :: value]

/-- The item can be written anywhere: a value in an argument of its own may look like an option, so
its option must take anything. -/
def IsPlain : Item → Prop
  | .apart _ option _ => option.takesAnything = true
  | .switch .. | .verbose _ | .joined .. => True

instance : DecidablePred IsPlain
  | .apart _ option _ => inferInstanceAs (Decidable (option.takesAnything = true))
  | .switch .. | .verbose _ | .joined .. => isTrue trivial

/-- The option and the value of an item, if it has one. -/
def value? : Item → Option (ValueOption × Bytes)
  | .apart _ option value | .joined option value => some (option, value)
  | .switch .. | .verbose _ => none

def switch? : Item → Option Switch
  | .switch _ name => some name
  | _ => none

def isVerbose : Item → Bool
  | .verbose _ => true
  | _ => false

end Item

def write (program : Bytes) (items : List Item) (paths : List Text) : List Bytes :=
  program :: items.flatMap Item.arguments ++
    [Argument.hyphen, Argument.hyphen] :: paths.map Utf8.encode

/-- The values that some items give to an option, in order. -/
def valuesOf (items : List Item) (option : ValueOption) : List Bytes :=
  (items.filterMap Item.value?).filterMap fun used =>
    if used.1 = option then some used.2 else none

/-- Items that use each option as an intent says: for its values in order, each switch that is on
once, and `--verbose` as often as it is verbose. -/
structure Intent.SpelledBy (intent : Intent) (items : List Item) : Prop where
  plain : ∀ item ∈ items, item.IsPlain
  values : ∀ option, valuesOf items option = intent.values option
  switches : ∀ name, (items.filterMap Item.switch?).count name = (intent.switches name).toNat
  verbosity : items.countP Item.isVerbose = intent.verbosity

/-- An intent as items, the options one after the other. -/
def Intent.items (intent : Intent) : List Item :=
  (Switch.all.filter intent.switches).map (.switch .long) ++
    List.replicate intent.verbosity (.verbose .letter) ++
    ValueOption.all.flatMap fun option => (intent.values option).map (.joined option)

end PathFilter.CommandLine
