import Mathlib.Tactic.SplitIfs
import PathFilter.Proofs.Glob.Root

/-!
Either separator may stand for the other. Texts that are the same but for their separators compile
to the same glob and have the same components, so exchanging separators one by one changes no match.
There is one exception: whether the last separator of a path may be left out depends on the
separator before it being the same one.
-/

set_option autoImplicit false
set_option relaxedAutoImplicit false

namespace PathFilter

def Interchangeable (c d : Char) : Prop := c = d ∨ isSeparator c = true ∧ isSeparator d = true

/-- Texts of one length that differ at most in which separator stands where one stands. -/
def SameButSeparators : Text → Text → Prop := List.Forall₂ Interchangeable

instance : DecidableRel Interchangeable := fun c d =>
  inferInstanceAs (Decidable (c = d ∨ isSeparator c = true ∧ isSeparator d = true))

def SameButSeparators.decide : (text other : Text) → Decidable (SameButSeparators text other)
  | [], [] => isTrue List.Forall₂.nil
  | [], _ :: _ => isFalse nofun
  | _ :: _, [] => isFalse nofun
  | c :: text, d :: other =>
    have := SameButSeparators.decide text other
    decidable_of_iff (Interchangeable c d ∧ SameButSeparators text other) List.forall₂_cons.symm

instance : DecidableRel SameButSeparators := SameButSeparators.decide

def EndsInPair (path : Text) : Prop :=
  ∃ start first second, isSeparator first = true ∧ isSeparator second = true ∧
    path = start ++ [first, second]

def EndsInEqualPair (path : Text) : Prop :=
  ∃ start mark, isSeparator mark = true ∧ path = start ++ [mark, mark]

/-- Of two pairs of separators at the end, both hold one separator twice or neither does. -/
def PairsAgree (text other : Text) : Prop :=
  ∀ (start begin : Text) (a b c d : Char), text = start ++ [a, b] → other = begin ++ [c, d] →
    isSeparator a = true → isSeparator b = true → isSeparator c = true → isSeparator d = true →
    (a = b ↔ c = d)

theorem Interchangeable.symm {c d : Char} (h : Interchangeable c d) : Interchangeable d c :=
  h.imp Eq.symm And.symm

private theorem Interchangeable.isSeparator_eq {c d : Char} (h : Interchangeable c d) :
    isSeparator c = isSeparator d := by
  obtain rfl | ⟨hc, hd⟩ := h
  · rfl
  · rw [hc, hd]

private theorem Interchangeable.eq_of_name {c d : Char} (h : Interchangeable c d)
    (hc : isSeparator c = false) : c = d := by
  obtain rfl | ⟨hmark, -⟩ := h
  · rfl
  · rw [hc] at hmark
    exact absurd hmark Bool.false_ne_true

theorem PairsAgree.symm {text other : Text} (h : PairsAgree text other) :
    PairsAgree other text := by
  intro start begin a b c d hother htext hc hd ha hb
  exact (h begin start c d a b htext hother ha hb hc hd).symm

theorem PairsAgree.of_append {text other front back : Text}
    (h : PairsAgree (front ++ text) (back ++ other)) : PairsAgree text other := by
  intro start begin a b c d htext hother
  apply h (front ++ start) (back ++ begin) a b c d
  · rw [htext, List.append_assoc]
  · rw [hother, List.append_assoc]

private theorem pairsAgree_of_not_endsInPair {text : Text} (h : ¬ EndsInPair text) (other : Text) :
    PairsAgree text other := by
  intro start begin a b c d htext _ ha hb
  exact absurd ⟨start, a, b, ha, hb, htext⟩ h

private theorem endsInEqualPair_iff {start : Text} {a b : Char} (ha : isSeparator a = true) :
    EndsInEqualPair (start ++ [a, b]) ↔ a = b := by
  constructor
  · rintro ⟨begin, mark, -, heq⟩
    obtain ⟨-, hpair⟩ := List.append_inj' heq rfl
    simp only [List.cons.injEq, and_true] at hpair
    rw [hpair.1, hpair.2]
  · rintro rfl
    exact ⟨start, a, ha, rfl⟩

private theorem pairsAgree_of_iff {text other : Text}
    (h : EndsInEqualPair text ↔ EndsInEqualPair other) :
    PairsAgree text other := by
  rintro start begin a b c d rfl rfl ha - hc -
  rwa [endsInEqualPair_iff ha, endsInEqualPair_iff hc] at h

namespace SameButSeparators

variable {text other : Text}

theorem symm (h : SameButSeparators text other) : SameButSeparators other text :=
  List.Forall₂.flip (h.imp fun _ _ => Interchangeable.symm)

theorem components_eq (h : SameButSeparators text other) : components text = components other := by
  induction h with
  | nil => rfl
  | @cons c d text other hmark _ ih =>
    cases hc : isSeparator c with
    | true =>
      have hd : isSeparator d = true := hmark.isSeparator_eq ▸ hc
      rw [components_cons_of_separator hc, components_cons_of_separator hd, ih]
    | false =>
      obtain rfl := hmark.eq_of_name hc
      rw [components_cons_of_name hc, components_cons_of_name hc, ih]

theorem namesRoot_iff (h : SameButSeparators text other) : NamesRoot text ↔ NamesRoot other := by
  rw [NamesRoot, NamesRoot, h.components_eq]

theorem compile_eq (h : SameButSeparators text other) : Glob.compile text = Glob.compile other := by
  have hrooted : (Glob.compile text).rooted = (Glob.compile other).rooted := by
    rw [Bool.eq_iff_iff, Glob.rooted_compile_iff, Glob.rooted_compile_iff, h.namesRoot_iff]
  have habsolute : (Glob.compile text).absolute = (Glob.compile other).absolute := by
    cases h with
    | nil => rfl
    | cons hmark _ => exact hmark.isSeparator_eq
  have hsegments : (Glob.compile text).segments = (Glob.compile other).segments :=
    congrArg (List.map Glob.segmentOf) h.components_eq
  rw [Glob.mk.injEq]
  exact ⟨hsegments, hrooted, habsolute⟩

theorem dropSeparator (h : SameButSeparators text other) :
    SameButSeparators (dropSeparator text) (PathFilter.dropSeparator other) := by
  cases h with
  | nil => exact List.Forall₂.nil
  | @cons c d text other hmark hrest =>
    simp only [PathFilter.dropSeparator, ← hmark.isSeparator_eq]
    split_ifs
    · exact hrest
    · exact List.Forall₂.cons hmark hrest

theorem relativePath (h : SameButSeparators text other) (glob : Glob) :
    SameButSeparators (glob.relativePath text) (glob.relativePath other) := by
  cases hrooted : glob.rooted with
  | true => rwa [Glob.relativePath_of_rooted hrooted, Glob.relativePath_of_rooted hrooted]
  | false =>
    by_cases hnames : NamesRoot text
    · obtain ⟨rest, hafter⟩ := PathFilter.namesRoot_iff.mp hnames
      obtain ⟨way, hway⟩ := PathFilter.namesRoot_iff.mp (h.namesRoot_iff.mp hnames)
      rw [Glob.relativePath_of_afterRoot hrooted hafter,
        Glob.relativePath_of_afterRoot hrooted hway]
      obtain ⟨rfl, -⟩ := afterRoot?_eq_some_iff.mp hafter
      obtain ⟨rfl, -⟩ := afterRoot?_eq_some_iff.mp hway
      have hrest : SameButSeparators rest way := (List.forall₂_cons.mp h).2
      split_ifs
      · exact hrest
      · exact hrest.dropSeparator
    · have hother : ¬ NamesRoot other := fun hnames' => hnames (h.namesRoot_iff.mpr hnames')
      rwa [glob.relativePath_of_unrooted hnames, glob.relativePath_of_unrooted hother]

theorem seenPath (h : SameButSeparators text other) (glob : Glob) (options : MatchOptions) :
    SameButSeparators (glob.seenPath text options) (glob.seenPath other options) := by
  unfold Glob.seenPath
  split_ifs
  · exact h.relativePath glob
  · exact h

private theorem exists_concat {before : Text} {last : Char}
    (h : SameButSeparators (before ++ [last]) other) :
    ∃ start final, other = start ++ [final] ∧ SameButSeparators before start ∧
      Interchangeable last final := by
  have hrev : List.Forall₂ Interchangeable (last :: before.reverse) other.reverse := by
    have hrev := List.forall₂_reverse_iff.mpr h
    rwa [List.reverse_append] at hrev
  obtain ⟨final, start, hlast, hbefore, hother⟩ := List.forall₂_cons_left_iff.mp hrev
  refine ⟨start.reverse, final, ?_, ?_, hlast⟩
  · rw [← List.reverse_reverse other, hother, List.reverse_cons]
  · rw [SameButSeparators, ← List.forall₂_reverse_iff, List.reverse_reverse]
    exact hbefore

end SameButSeparators

theorem dropLastSeparator?_concat {before shorter : Text} {last : Char} :
    dropLastSeparator? (before ++ [last]) = some shorter ↔
      shorter = before ∧ isSeparator last = true ∧
        ∀ start previous, before = start ++ [previous] → isSeparator previous = true →
          previous = last := by
  rcases List.eq_nil_or_concat' before with rfl | ⟨start, previous, rfl⟩
  · have hdrop :
        dropLastSeparator? ([] ++ [last]) = if isSeparator last then some [] else none := by
      cases hlast : isSeparator last <;> simp [dropLastSeparator?, hlast]
    rw [hdrop]
    constructor
    · intro h
      split_ifs at h with hlast
      obtain rfl := Option.some.inj h
      exact ⟨rfl, hlast, by simp⟩
    · rintro ⟨rfl, hlast, -⟩
      exact if_pos hlast
  · have hreverse :
        (start ++ [previous] ++ [last]).reverse = last :: previous :: start.reverse := by
      simp
    simp only [dropLastSeparator?, hreverse]
    constructor
    · intro h
      split_ifs at h with hlast hpair
      refine ⟨?_, by simpa using hlast, ?_⟩
      · simpa using h.symm
      · intro begin final heq hfinal
        obtain ⟨-, hprevious⟩ := List.append_inj' heq rfl
        obtain rfl : previous = final := by simpa using hprevious
        by_contra hne
        exact hpair (by simp [hfinal, hne])
    · rintro ⟨rfl, hlast, hpair⟩
      have hequal := hpair start previous rfl
      rw [if_neg (by simp [hlast]), if_neg]
      · simp
      · simpa using hequal

theorem dropLastSeparator?_eq_some_iff {path shorter : Text} :
    dropLastSeparator? path = some shorter ↔
      ∃ last, path = shorter ++ [last] ∧ isSeparator last = true ∧
        ∀ start previous, shorter = start ++ [previous] → isSeparator previous = true →
          previous = last := by
  constructor
  · intro h
    rcases List.eq_nil_or_concat' path with rfl | ⟨before, last, rfl⟩
    · simp [dropLastSeparator?] at h
    · obtain ⟨rfl, hlast, hpair⟩ := dropLastSeparator?_concat.mp h
      exact ⟨last, rfl, hlast, hpair⟩
  · rintro ⟨last, rfl, hlast, hpair⟩
    exact dropLastSeparator?_concat.mpr ⟨rfl, hlast, hpair⟩

namespace SameButSeparators

/-- Of two paths that are the same but for their separators, both lose the last one or neither does,
if their last two separators agree. -/
theorem exists_dropLastSeparator? {path other shorter : Text} (h : SameButSeparators path other)
    (agree : PairsAgree path other) (hdrop : dropLastSeparator? path = some shorter) :
    ∃ rest, dropLastSeparator? other = some rest ∧ SameButSeparators shorter rest := by
  obtain ⟨last, rfl, hlast, hpair⟩ := dropLastSeparator?_eq_some_iff.mp hdrop
  obtain ⟨rest, final, rfl, hrest, hfinal⟩ := h.exists_concat
  have hmark : isSeparator final = true := hfinal.isSeparator_eq ▸ hlast
  refine ⟨rest, dropLastSeparator?_concat.mpr ⟨rfl, hmark, ?_⟩, hrest⟩
  -- A separator before the last one of the other path stands opposite one in the first path.
  rintro start previous rfl hprevious
  obtain ⟨begin, before, rfl, -, hbefore⟩ := hrest.symm.exists_concat
  have hsep : isSeparator before = true := hbefore.isSeparator_eq ▸ hprevious
  have hequal : before = last := hpair begin before rfl hsep
  have hagree : before = last ↔ previous = final :=
    agree begin start before last previous final (by simp) (by simp) hsep hlast hprevious hmark
  exact hagree.mp hequal

private theorem accepts_of_accepts {path other : Text} (h : SameButSeparators path other)
    {glob : Glob} {options : MatchOptions}
    (ends : options.trailingSeparator = true → PairsAgree path other)
    (haccepts : glob.accepts path options = true) : glob.accepts other options = true := by
  rw [Glob.accepts_eq_true_iff] at haccepts ⊢
  have hseen : SameButSeparators (glob.seenPath path options) (glob.seenPath other options) :=
    h.seenPath glob options
  rcases haccepts with aligned | ⟨htrailing, shorter, hdrop, aligned⟩
  · left
    rwa [← hseen.components_eq]
  · right
    -- The glob sees an end of each path, so pairs at the end of what it sees are pairs of the
    -- paths.
    obtain ⟨front, hpath⟩ := glob.exists_append_seenPath path options
    obtain ⟨back, hother⟩ := glob.exists_append_seenPath other options
    have agree : PairsAgree (front ++ glob.seenPath path options)
        (back ++ glob.seenPath other options) := by
      rw [← hpath, ← hother]
      exact ends htrailing
    obtain ⟨rest, hrest, hsame⟩ := hseen.exists_dropLastSeparator? agree.of_append hdrop
    refine ⟨htrailing, rest, hrest, ?_⟩
    rwa [← hsame.components_eq]

end SameButSeparators

/-- Separators may be exchanged one by one in a pattern, and in a path as well unless the separator
at its end does not count and the exchange makes the last two separators equal or different. -/
theorem patternAccepts_of_sameButSeparators :
    (∀ {pattern other : Text} (path : Text) (options : MatchOptions),
      SameButSeparators pattern other →
      patternAccepts other path options = patternAccepts pattern path options) ∧
    ∀ {path other : Text} (pattern : Text) {options : MatchOptions}, SameButSeparators path other →
      options.trailingSeparator = false ∨ ¬ EndsInPair path ∨
        (EndsInEqualPair path ↔ EndsInEqualPair other) →
      patternAccepts pattern other options = patternAccepts pattern path options := by
  constructor
  · intro pattern other path options h
    rw [patternAccepts, patternAccepts, h.compile_eq]
  · intro path other pattern options h ends
    have agree : options.trailingSeparator = true → PairsAgree path other := by
      intro htrailing
      rcases ends with hcounts | hpair | hequal
      · rw [htrailing] at hcounts
        exact absurd hcounts.symm Bool.false_ne_true
      · exact pairsAgree_of_not_endsInPair hpair other
      · exact pairsAgree_of_iff hequal
    rw [Bool.eq_iff_iff]
    constructor
    · exact h.symm.accepts_of_accepts fun htrailing => (agree htrailing).symm
    · exact h.accepts_of_accepts agree

theorem patternAccepts_of_sameButSeparators_rooted :
    let options : MatchOptions :=
      { anywhere := true, repoRoot := true, trailingSeparator := true, belowFolders := true }
    SameButSeparators "a/**\\b".toList "a\\**\\b".toList ∧
      SameButSeparators "@\\x/a/b//".toList "@/x/a\\b\\\\".toList ∧
      patternAccepts "a\\**\\b".toList "@\\x/a/b//".toList options =
        patternAccepts "a/**\\b".toList "@\\x/a/b//".toList options ∧
      patternAccepts "a/**\\b".toList "@/x/a\\b\\\\".toList options =
        patternAccepts "a/**\\b".toList "@\\x/a/b//".toList options := by
  intro options
  have hpatterns : SameButSeparators "a/**\\b".toList "a\\**\\b".toList := by decide
  have hpaths : SameButSeparators "@\\x/a/b//".toList "@/x/a\\b\\\\".toList := by decide
  have hends : EndsInEqualPair "@\\x/a/b//".toList ↔ EndsInEqualPair "@/x/a\\b\\\\".toList :=
    iff_of_true ⟨"@\\x/a/b".toList, '/', by decide, by decide⟩
      ⟨"@/x/a\\b".toList, '\\', by decide, by decide⟩
  refine ⟨hpatterns, hpaths, ?_, ?_⟩
  · exact patternAccepts_of_sameButSeparators.1 _ _ hpatterns
  · exact patternAccepts_of_sameButSeparators.2 _ hpaths (Or.inr (Or.inr hends))

-- The exception: two equal separators at the end become different ones.
example : patternAccepts "a/".toList "a//".toList { trailingSeparator := true } = true ∧
    patternAccepts "a/".toList "a/\\".toList { trailingSeparator := true } = false := by
  decide +kernel

end PathFilter
