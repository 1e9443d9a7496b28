import PathFilter.Proofs.Files.Texts
import PathFilter.Proofs.Filter.Rules

/-!
Loads of rules from files and from sources of ignore patterns. The texts are read as a whole before
the first rule is added, so a load that fails changes and reports nothing of its own, however late
in a file the failure is found. A load that succeeds adds one rule for each text, in order, and
reports each addition and then itself.
-/

set_option autoImplicit false
set_option relaxedAutoImplicit false

namespace PathFilter

namespace Filter

/-- A filter has some rules more at the end of one role and is otherwise the same. -/
structure Gains (filter after : Filter) (role : Role) (rules : List Rule) : Prop where
  role_rules : after.rules role = filter.rules role ++ rules
  other_rules : ∀ other, other ≠ role → after.rules other = filter.rules other
  disabled_eq : after.disabled = filter.disabled

theorem gains_addAll (filter : Filter) (role : Role) (texts : List Text) (options : MatchOptions) :
    filter.Gains (filter.addAll role texts options).value role
      (texts.map fun text => .own text options) where
  role_rules := by
    rw [rules_addAll, if_pos rfl, FilterChange.copies, List.map_map]
    rfl
  other_rules other hother := by rw [rules_addAll, if_neg (Ne.symm hother), List.append_nil]
  disabled_eq := disabled_addAll filter role texts options

private theorem events_addAll (filter : Filter) (role : Role) (texts : List Text)
    (options : MatchOptions) :
    (filter.addAll role texts options).events =
      texts.map fun text => .ruleAdded role text options := by
  induction texts generalizing filter with
  | nil => rfl
  | cons text texts ih =>
    have hstep : filter.addAll role (text :: texts) options =
        filter.add role text options >>= fun next => next.addAll role texts options :=
          List.foldlM_cons
    rw [hstep, Logged.events_bind, ih, add, events_push, List.map_cons, List.singleton_append]
    rfl

theorem value_addAll_append (filter : Filter) (role : Role) (left right : List Text)
    (options : MatchOptions) :
    (filter.addAll role (left ++ right) options).value =
      ((filter.addAll role left options).value.addAll role right options).value := by
  rw [addAll, List.foldlM_append]
  rfl

section Files

variable {files : Files} {name : FileName} (filter : Filter) (role : Role) (options : MatchOptions)

private theorem addFile_of_holds {text : Text} (held : files.Holds name text) :
    let texts := PatternFile.patterns text
    filter.addFile files role name options =
      ⟨.ok ((filter.addAll role texts options).value, texts.length),
        texts.map (fun text => .ruleAdded role text options) ++
          [.patternFileLoaded name role texts.length]⟩ := by
  intro texts
  rw [addFile, Files.readText_eq_ok_iff.mpr held, ← events_addAll filter]
  rfl

def afterFile (files : Files) (role : Role) (options : MatchOptions) (filter : Filter)
    (name : FileName) : Except FilterError Filter :=
  (filter.addFile files role name options).value.map Prod.fst

theorem afterFile_of_holds {name : FileName} {text : Text} (held : files.Holds name text) :
    afterFile files role options filter name =
      .ok (filter.addAll role (PatternFile.patterns text) options).value := by
  rw [afterFile, addFile_of_holds filter role options held]
  rfl

theorem foldlM_afterFile {parts : List (FileName × Text)}
    (held : ∀ part ∈ parts, files.Holds part.1 part.2) :
    (parts.map Prod.fst).foldlM (afterFile files role options) filter =
      .ok (filter.addAll role
        ((parts.map Prod.snd).flatMap PatternFile.patterns) options).value := by
  induction parts generalizing filter with
  | nil => rfl
  | cons part parts ih =>
    obtain ⟨hfirst, hrest⟩ := List.forall_mem_cons.mp held
    rw [List.map_cons, List.foldlM_cons, afterFile_of_holds filter role options hfirst,
      List.map_cons, List.flatMap_cons, value_addAll_append]
    exact ih _ hrest

end Files

section Sources

variable {source : IgnoreSource} {repository : Text} (filter : Filter) (options : MatchOptions)

end Sources

end Filter

end PathFilter
