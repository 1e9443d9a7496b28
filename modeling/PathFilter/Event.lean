import PathFilter.Files.Basic
import PathFilter.Glob.Options
import PathFilter.Role
import PathFilter.Verdict

/-!
What a run reports on the way. `Logged` pairs a result with the events of its computation, in the
order in which they happened.
-/

set_option autoImplicit false
set_option relaxedAutoImplicit false

namespace PathFilter

inductive Event
  | ruleAdded (role : Role) (pattern : Text) (options : MatchOptions)
  | ruleTested (path : Text) (role : Role) (pattern : Text) (matched : Bool)
  | classified (path : Text) (verdict : Verdict)
  | patternFileLoaded (file : FileName) (role : Role) (count : Nat)
  | ignoresLoaded (repository : Text) (count : Nat)
  | batchClassified (tally : Tally)
  | settingsLoaded (file : FileName) (repositories : Nat)
  | filterReady (includes excludes ignores : Nat) (disabled : DisabledRoles)
  | runFailed
  deriving DecidableEq, Repr

namespace Event

inductive Level
  | trace
  | debug
  | info
  deriving DecidableEq, Repr

/-- The verbosity from which on a level is logged. -/
def Level.verbosity : Level → Nat
  | .info => 1
  | .debug => 2
  | .trace => 3

def Level.name : Level → String
  | .trace => "TRACE"
  | .debug => "DEBUG"
  | .info => "INFO"

inductive Field
  | text (words : Text)
  | count (number : Nat)
  | flag (value : Bool)
  deriving DecidableEq, Repr

def Field.describe : Field → Text
  | .text words => words
  | .count number => Text.decimal number
  | .flag true => "true".toList
  | .flag false => "false".toList

def level : Event → Level
  | .ruleTested .. => .trace
  | .batchClassified .. | .filterReady .. => .info
  | _ => .debug

def target : Event → String
  | .settingsLoaded .. => "vcfilter::settings"
  | .filterReady .. | .runFailed => "vcfilter::cli"
  | _ => "vcfilter::filter"

/-- The name under which an event is reported. -/
def message : Event → String
  | .ruleAdded .. => "pattern_added"
  | .ruleTested .. => "pattern_evaluate"
  | .classified .. => "classification"
  | .patternFileLoaded .. => "pattern_file_load"
  | .ignoresLoaded .. => "settings_load"
  | .batchClassified .. => "classify_summary"
  | .settingsLoaded .. => "settings_loaded"
  | .filterReady .. => "spec_ready"
  | .runFailed => "invocation_failed"

def fields : Event → List (String × Field)
  | .ruleAdded role pattern options =>
    [("kind", .text role.name), ("pattern", .text pattern), ("flags", .text options.describe)]
  | .ruleTested path role pattern matched =>
    [("path", .text path), ("kind", .text role.name), ("pattern", .text pattern),
      ("matched", .flag matched)]
  | .classified path verdict => [("path", .text path), ("result", .text verdict.name)]
  | .patternFileLoaded file role count =>
    [("file", .text file.text), ("kind", .text role.name), ("pattern_count", .count count)]
  | .ignoresLoaded repository count =>
    [("repo", .text repository), ("pattern_count", .count count)]
  | .batchClassified tally =>
    [("total", .count tally.total), ("included", .count tally.included),
      ("excluded", .count tally.excluded), ("ignored", .count tally.ignored),
      ("implied", .count tally.implied), ("maybe", .count tally.maybe)]
  | .settingsLoaded file repositories =>
    [("file", .text file.text), ("repositories", .count repositories)]
  | .filterReady includes excludes ignores disabled =>
    [("includes", .count includes), ("excludes", .count excludes), ("ignores", .count ignores),
      ("flags", .text disabled.describe)]
  | .runFailed => []

def line (event : Event) : Text :=
  let heading := event.level.name.toList ++ ' ' :: event.target.toList ++ ": ".toList ++
    event.message.toList
  heading ++ event.fields.flatMap fun field =>
    ' ' :: field.1.toList ++ '=' :: field.2.describe

end Event

/-- A result and the events of its computation. -/
structure Logged (α : Type) where
  value : α
  events : List Event

namespace Logged

def quiet {α : Type} (value : α) : Logged α := ⟨value, []⟩

/-- A computation followed by another one. -/
def andThen {α β : Type} (first : Logged α) (next : α → Logged β) : Logged β :=
  let second := next first.value
  ⟨second.value, first.events ++ second.events⟩

instance : Monad Logged where
  pure := quiet
  bind := andThen

def emit (event : Event) : Logged Unit := ⟨(), [event]⟩

@[simp] theorem value_pure {α : Type} (value : α) : (pure value : Logged α).value = value := rfl

@[simp] theorem events_pure {α : Type} (value : α) : (pure value : Logged α).events = [] := rfl

@[simp] theorem value_bind {α β : Type} (first : Logged α) (next : α → Logged β) :
    (first >>= next).value = (next first.value).value := rfl

@[simp] theorem events_bind {α β : Type} (first : Logged α) (next : α → Logged β) :
    (first >>= next).events = first.events ++ (next first.value).events := rfl

@[simp] theorem value_map {α β : Type} (change : α → β) (result : Logged α) :
    (change <$> result).value = change result.value := rfl

@[simp] theorem events_map {α β : Type} (change : α → β) (result : Logged α) :
    (change <$> result).events = result.events :=
  List.append_nil result.events

@[simp] theorem value_emit (event : Event) : (emit event).value = () := rfl

@[simp] theorem events_emit (event : Event) : (emit event).events = [event] := rfl

theorem ext {α : Type} {a b : Logged α} (hv : a.value = b.value) (he : a.events = b.events) :
    a = b := by
  cases a; cases b; simp_all

instance : LawfulMonad Logged :=
  LawfulMonad.mk' Logged
    (fun x => ext rfl (List.append_nil x.events))
    (fun _ _ => rfl)
    (fun x f g =>
      ext rfl (List.append_assoc x.events (f x.value).events (g (f x.value).value).events))

end Logged

end PathFilter
