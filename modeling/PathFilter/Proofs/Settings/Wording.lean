import PathFilter.Settings.Error

/-!
The wording of the checks on a line of a settings file. No two checks have the same wording, and the
wording of a repeated name gives back the name and the number of the line that had it first: behind
the last space there is nothing but the digits and a bracket.
-/

set_option autoImplicit false
set_option relaxedAutoImplicit false

namespace PathFilter

private theorem decimal_injective : Function.Injective Text.decimal := by
  intro a b h
  calc
    a = Nat.ofDigitChars 10 (Text.decimal a) 0 := Nat.ofDigitChars_ten_toDigits.symm
    _ = Nat.ofDigitChars 10 (Text.decimal b) 0 := by rw [h]
    _ = b := Nat.ofDigitChars_ten_toDigits

private theorem space_not_mem_reverse_decimal (number : Nat) :
    ' ' ∉ (Text.decimal number).reverse := by
  intro h
  have hdigit : ' '.isDigit = true :=
    Nat.isDigit_of_mem_toDigits (by decide) (by decide) (List.mem_reverse.mp h)
  exact absurd hdigit (by decide)

private theorem append_space_decimal_inj {text other : Text} {number count : Nat}
    (h : text ++ ' ' :: Text.decimal number = other ++ ' ' :: Text.decimal count) :
    text = other ∧ number = count := by
  have hreverse : (Text.decimal number).reverse ++ ' ' :: text.reverse =
      (Text.decimal count).reverse ++ ' ' :: other.reverse := by
    simpa using congrArg List.reverse h
  obtain ⟨hdigits, htext⟩ := Text.append_cons_inj_of_first (space_not_mem_reverse_decimal number)
    (space_not_mem_reverse_decimal count) hreverse
  exact ⟨List.reverse_inj.mp htext, decimal_injective (List.reverse_inj.mp hdigits)⟩

namespace LineFault

/-- How each check is worded, with numbers as they are printed. -/
inductive Worded : LineFault → Text → Prop
  | openHeader : Worded .openHeader "unterminated section header".toList
  | emptyName : Worded .emptyName "section name must be non-empty".toList
  | repeatedName (name : Text) (line : Nat) :
      Worded (.repeatedName name line)
        ("duplicate section '".toList ++ name ++ "' (previously defined at line ".toList ++
          (toString line).toList ++ ")".toList)
  | afterHeader : Worded .afterHeader "unexpected content after section header".toList
  | noEquals : Worded .noEquals "expected 'key = value' format".toList
  | emptyKey : Worded .emptyKey "setting name must be non-empty".toList

private theorem toList_toString (line : Nat) : (toString line).toList = Text.decimal line := by
  rw [Nat.toString_eq_repr, Nat.toList_repr, Text.decimal]

private theorem worded_message (fault : LineFault) : Worded fault fault.message := by
  cases fault with
  | repeatedName name line =>
    have h := Worded.repeatedName name line
    rw [toList_toString] at h
    exact h
  | openHeader => exact .openHeader
  | emptyName => exact .emptyName
  | afterHeader => exact .afterHeader
  | noEquals => exact .noEquals
  | emptyKey => exact .emptyKey

private theorem Worded.eq_message {fault : LineFault} {text : Text} (h : Worded fault text) :
    text = fault.message := by
  cases h with
  | repeatedName name line =>
    rw [toList_toString]
    rfl
  | _ => rfl

private theorem message_repeatedName_inj {name other : Text} {line number : Nat}
    (h : (repeatedName name line).message = (repeatedName other number).message) :
    name = other ∧ line = number := by
  have hmiddle : "' (previously defined at line ".toList =
      "' (previously defined at line".toList ++ [' '] := by decide +kernel
  have hbehind : "duplicate section '".toList ++ name ++ "' (previously defined at line".toList ++
      ' ' :: Text.decimal line = "duplicate section '".toList ++ other ++
        "' (previously defined at line".toList ++ ' ' :: Text.decimal number := by
    have hwhole : ("duplicate section '".toList ++ name ++
        ("' (previously defined at line".toList ++ [' ']) ++ Text.decimal line) ++ [')'] =
        ("duplicate section '".toList ++ other ++
          ("' (previously defined at line".toList ++ [' ']) ++ Text.decimal number) ++ [')'] := by
      rw [← hmiddle]
      exact h
    have hcut := List.append_cancel_right hwhole
    simpa only [List.append_assoc, List.singleton_append] using hcut
  obtain ⟨hname, hnumber⟩ := append_space_decimal_inj hbehind
  exact ⟨List.append_cancel_left (List.append_cancel_right hname), hnumber⟩

private def plain : List LineFault := [.openHeader, .emptyName, .afterHeader, .noEquals, .emptyKey]

private theorem mem_plain_or (fault : LineFault) :
    fault ∈ plain ∨ ∃ name line, fault = .repeatedName name line := by
  cases fault with
  | repeatedName name line => exact .inr ⟨name, line, rfl⟩
  | _ => exact .inl (by decide)

private theorem eq_of_message_eq_of_plain :
    ∀ a ∈ plain, ∀ b ∈ plain, a.message = b.message → a = b := by decide +kernel

private theorem head?_message_of_plain : ∀ a ∈ plain, a.message.head? ≠ some 'd' := by
  decide +kernel

theorem message_injective : Function.Injective message := by
  intro a b h
  rcases mem_plain_or a with ha | ⟨name, line, rfl⟩
  · rcases mem_plain_or b with hb | ⟨other, number, rfl⟩
    · exact eq_of_message_eq_of_plain a ha b hb h
    · exact absurd (congrArg List.head? h) (head?_message_of_plain a ha)
  · rcases mem_plain_or b with hb | ⟨other, number, rfl⟩
    · exact absurd (congrArg List.head? h.symm) (head?_message_of_plain b hb)
    · obtain ⟨rfl, rfl⟩ := message_repeatedName_inj h
      rfl

theorem worded_message_iff {check fault : LineFault} :
    Worded check fault.message ↔ check = fault := by
  constructor
  · intro h
    exact message_injective h.eq_message.symm
  · rintro rfl
    exact worded_message check

end LineFault

end PathFilter
