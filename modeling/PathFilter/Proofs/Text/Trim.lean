import Mathlib.Data.List.DropRight
import PathFilter.Text.Blank

set_option autoImplicit false
set_option relaxedAutoImplicit false

namespace PathFilter.Text

private theorem trim_isInfix (text : Text) : trim text <:+: text := by
  have hend : trim text <+: trimStart text := List.rdropWhile_prefix isBlank (trimStart text)
  exact hend.isInfix.trans (List.dropWhile_suffix isBlank).isInfix

theorem mem_of_mem_trim {c : Char} {text : Text} (h : c ∈ trim text) : c ∈ text :=
  (trim_isInfix text).subset h

private theorem isBlank_head_trimStart {c : Char} {text rest : Text}
    (h : trimStart text = c :: rest) :
    isBlank c = false := by
  have hhead := List.head?_dropWhile_not isBlank text
  rw [← trimStart, h] at hhead
  exact hhead

private theorem trimStart_eq_self {text : Text} (h : ∀ c, text.head? = some c → isBlank c = false) :
    trimStart text = text := by
  cases text with
  | nil => rfl
  | cons c rest =>
    have hc : isBlank c = false := h c rfl
    rw [trimStart, List.dropWhile_cons_of_neg (by rw [hc]; exact Bool.false_ne_true)]

private theorem trimEnd_eq_self {text : Text}
    (h : ∀ c, text.getLast? = some c → isBlank c = false) :
    trimEnd text = text := by
  have hreverse : trimStart text.reverse = text.reverse :=
    trimStart_eq_self fun c hc => h c (by rwa [List.head?_reverse] at hc)
  rw [trimEnd, dropEndWhile, ← trimStart, hreverse, List.reverse_reverse]

theorem trim_eq_self {text : Text} (first : ∀ c, text.head? = some c → isBlank c = false)
    (last : ∀ c, text.getLast? = some c → isBlank c = false) : trim text = text := by
  rw [trim, trimStart_eq_self first, trimEnd_eq_self last]

theorem isBlank_getLast_trim {c : Char} {text : Text} (h : (trim text).getLast? = some c) :
    isBlank c = false := by
  rw [trim, trimEnd, dropEndWhile, List.getLast?_reverse] at h
  obtain ⟨rest, hrest⟩ := List.head?_eq_some_iff.mp h
  exact isBlank_head_trimStart hrest

theorem isBlank_head_trim {c : Char} {text : Text} (h : (trim text).head? = some c) :
    isBlank c = false := by
  obtain ⟨rest, hrest⟩ := List.head?_eq_some_iff.mp h
  -- trimming the end leaves a beginning, so the first character stays the first
  have hprefix : trim text <+: trimStart text := List.rdropWhile_prefix isBlank (trimStart text)
  obtain ⟨more, hmore⟩ := hprefix
  rw [hrest, List.cons_append] at hmore
  exact isBlank_head_trimStart hmore.symm

theorem trim_trim (text : Text) : trim (trim text) = trim text :=
  trim_eq_self (fun _ => isBlank_head_trim) (fun _ => isBlank_getLast_trim)

private theorem trimStart_append_of_blank {before : Text} (blank : ∀ c ∈ before, isBlank c = true)
    (text : Text) : trimStart (before ++ text) = trimStart text := by
  have hbefore : before.dropWhile isBlank = [] := List.dropWhile_eq_nil_iff.mpr blank
  rw [trimStart, List.dropWhile_append, hbefore]
  rfl

private theorem trimEnd_append_of_blank {after : Text} (blank : ∀ c ∈ after, isBlank c = true)
    (text : Text) : trimEnd (text ++ after) = trimEnd text := by
  have hafter : trimStart (after.reverse ++ text.reverse) = trimStart text.reverse :=
    trimStart_append_of_blank (fun c hc => blank c (List.mem_reverse.mp hc)) text.reverse
  rw [trimEnd, dropEndWhile, List.reverse_append, ← trimStart, hafter]
  rfl

theorem trim_pad {before after : Text} (hbefore : ∀ c ∈ before, isBlank c = true)
    (hafter : ∀ c ∈ after, isBlank c = true) (text : Text) :
    trim (before ++ text ++ after) = trim text := by
  rw [trim, List.append_assoc, trimStart_append_of_blank hbefore, trim]
  by_cases hblank : trimStart text = []
  · have hall : ∀ c ∈ text ++ after, isBlank c = true := by
      intro c hc
      rcases List.mem_append.mp hc with htext | hc
      · exact List.dropWhile_eq_nil_iff.mp hblank c htext
      · exact hafter c hc
    have hstart : trimStart (text ++ after) = [] := List.dropWhile_eq_nil_iff.mpr hall
    rw [hstart, hblank]
  · have hstart : trimStart (text ++ after) = trimStart text ++ after := by
      rw [trimStart, List.dropWhile_append, ← trimStart, if_neg (by simpa using hblank)]
    rw [hstart, trimEnd_append_of_blank hafter]

private theorem trimStart_append_cons {c : Char} (hc : isBlank c = false) (front rest : Text) :
    trimStart (front ++ c :: rest) = trimStart front ++ c :: rest := by
  have hrest : (c :: rest).dropWhile isBlank = c :: rest :=
    List.dropWhile_cons_of_neg (by rw [hc]; exact Bool.false_ne_true)
  rw [trimStart, List.dropWhile_append, hrest, trimStart]
  split_ifs with hfront
  · rw [List.isEmpty_iff.mp hfront, List.nil_append]
  · rfl

theorem trimEnd_append_cons {c : Char} (hc : isBlank c = false) (front rest : Text) :
    trimEnd (front ++ c :: rest) = front ++ c :: trimEnd rest := by
  have hreverse : (front ++ c :: rest).reverse = rest.reverse ++ c :: front.reverse := by simp
  have hstart := trimStart_append_cons hc rest.reverse front.reverse
  rw [trimEnd, dropEndWhile, hreverse, ← trimStart, hstart]
  simp [trimEnd, dropEndWhile, trimStart]

theorem trim_append_cons {c : Char} (hc : isBlank c = false) (front rest : Text) :
    trim (front ++ c :: rest) = trimStart front ++ c :: trimEnd rest := by
  rw [trim, trimStart_append_cons hc, trimEnd_append_cons hc]

theorem trim_trimStart (text : Text) : trim (trimStart text) = trim text :=
  congrArg trimEnd (List.dropWhile_idempotent ..)

theorem trim_trimEnd (text : Text) : trim (trimEnd text) = trim text := by
  have hblank : ∀ c ∈ text.rtakeWhile isBlank, isBlank c = true := fun _ => List.mem_rtakeWhile_imp
  have hparts : trimEnd text ++ text.rtakeWhile isBlank = text := List.rdropWhile_append_rtakeWhile
  have hpad := trim_pad (List.forall_mem_nil _) hblank (trimEnd text)
  rw [List.nil_append, hparts] at hpad
  exact hpad.symm

theorem head?_trim {text : Text} (first : ∀ c, text.head? = some c → isBlank c = false)
    (rest : trim text ≠ []) : (trim text).head? = text.head? := by
  have hprefix : trim text <+: text := by
    rw [trim, trimStart_eq_self first]
    exact List.rdropWhile_prefix isBlank text
  obtain ⟨more, hmore⟩ := hprefix
  obtain ⟨c, others, htrim⟩ := List.exists_cons_of_ne_nil rest
  calc (trim text).head? = (trim text ++ more).head? := by rw [htrim]; rfl
    _ = text.head? := by rw [hmore]

private theorem isBlank_of_printed {c : Char} (least : 0x20 < c.toNat) (greatest : c.toNat < 0x7F) :
    isBlank c = false := by
  simp only [isBlank, blankRanges, List.any_eq_false, Bool.and_eq_true, decide_eq_true_eq,
    List.forall_mem_cons, List.not_mem_nil, false_imp_iff, implies_true, and_true]
  omega

/-- Lower case changes the letters A to Z only, and gives letters for them. -/
theorem toLower_cases (c : Char) :
    (c.isUpper = false ∧ c.toLower = c) ∨
      (c.isUpper = true ∧ 65 ≤ c.toNat ∧ c.toNat ≤ 90 ∧ c.toLower.toNat = c.toNat + 32) := by
  by_cases hupper : c.val ≥ 'A'.val ∧ c.val ≤ 'Z'.val
  · have hleast : 65 ≤ c.toNat := hupper.1
    have hgreatest : c.toNat ≤ 90 := hupper.2
    refine .inr ⟨decide_eq_true hupper, hleast, hgreatest, ?_⟩
    have hsum : (c.val + 32).toNat = (c.toNat + 32) % 2 ^ 32 := UInt32.toNat_add c.val 32
    have hlower : c.toLower = ⟨c.val + 32, _⟩ := dif_pos hupper
    rw [hlower]
    exact hsum.trans (Nat.mod_eq_of_lt (by omega))
  · exact .inl ⟨decide_eq_false hupper, dif_neg hupper⟩

private theorem eq_of_toLower_eq {c d : Char} (h : c.toLower = d) (hd : d.toNat < 97) : c = d := by
  rcases toLower_cases c with ⟨-, hsame⟩ | ⟨-, hleast, -, hlower⟩
  · exact hsame.symm.trans h
  · rw [h] at hlower
    omega

theorem mem_of_mem_lowerAscii {c : Char} {text : Text} (h : c ∈ lowerAscii text)
    (hc : c.toNat < 97) : c ∈ text := by
  obtain ⟨d, hd, hlower⟩ := List.mem_map.mp h
  rwa [eq_of_toLower_eq hlower hc] at hd

theorem head?_of_head?_lowerAscii {c : Char} {text : Text} (h : (lowerAscii text).head? = some c)
    (hc : c.toNat < 97) : text.head? = some c := by
  rw [lowerAscii, List.head?_map] at h
  obtain ⟨d, hd, hlower⟩ := Option.map_eq_some_iff.mp h
  rwa [eq_of_toLower_eq hlower hc] at hd

private theorem isUpper_toLower (c : Char) : c.toLower.isUpper = false := by
  rcases toLower_cases c with ⟨hupper, hsame⟩ | ⟨-, hleast, -, hlower⟩
  · rw [hsame, hupper]
  · refine decide_eq_false fun hupper => ?_
    have hgreatest : c.toLower.toNat ≤ 90 := hupper.2
    omega

private theorem isBlank_toLower (c : Char) : isBlank c.toLower = isBlank c := by
  rcases toLower_cases c with ⟨-, hsame⟩ | ⟨-, hleast, hgreatest, hlower⟩
  · rw [hsame]
  · rw [isBlank_of_printed (c := c) (by omega) (by omega),
      isBlank_of_printed (c := c.toLower) (by omega) (by omega)]

theorem isUpper_of_mem_lowerAscii {c : Char} {text : Text} (h : c ∈ lowerAscii text) :
    c.isUpper = false := by
  obtain ⟨d, -, rfl⟩ := List.mem_map.mp h
  exact isUpper_toLower d

theorem lowerAscii_eq_self {text : Text} (h : ∀ c ∈ text, c.isUpper = false) :
    lowerAscii text = text := by
  have hchars : ∀ c ∈ text, c.toLower = id c := by
    intro c hc
    rcases toLower_cases c with ⟨-, hsame⟩ | ⟨hupper, -⟩
    · exact hsame
    · rw [h c hc] at hupper
      exact absurd hupper Bool.false_ne_true
  exact (List.map_congr_left hchars).trans (List.map_id text)

theorem trimStart_lowerAscii (text : Text) :
    trimStart (lowerAscii text) = lowerAscii (trimStart text) := by
  have hblank : isBlank ∘ Char.toLower = isBlank := funext isBlank_toLower
  rw [trimStart, lowerAscii, List.dropWhile_map, hblank]
  rfl

private theorem trimEnd_lowerAscii (text : Text) :
    trimEnd (lowerAscii text) = lowerAscii (trimEnd text) := by
  have hstart := trimStart_lowerAscii text.reverse
  simp only [trimStart, lowerAscii] at hstart
  simp only [trimEnd, dropEndWhile, lowerAscii, ← List.map_reverse, hstart]

theorem trim_lowerAscii (text : Text) : trim (lowerAscii text) = lowerAscii (trim text) := by
  rw [trim, trimStart_lowerAscii, trimEnd_lowerAscii, ← trim]

end PathFilter.Text
