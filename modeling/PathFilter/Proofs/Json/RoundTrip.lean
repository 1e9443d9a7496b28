import Mathlib.Data.List.TakeWhile
import Mathlib.Tactic.SplitIfs
import PathFilter.Json.Reader

set_option autoImplicit false
set_option relaxedAutoImplicit false

namespace PathFilter

namespace Json

private theorem digitValue?_hexDigit : ∀ n < 16, digitValue? (hexDigit n) = some n := by decide

/-- The letter of an escape is printed and stands for its character again, and it does not announce
a code. -/
theorem unescape?_of_escapeLetter? {c letter : Char} (h : escapeLetter? c = some letter) :
    unescape? letter = some c ∧ letter ≠ 'u' ∧ 0x20 ≤ letter.toNat := by
  simp only [escapeLetter?, beq_iff_eq] at h
  split_ifs at h with h1 h2 h3 h4 h5 h6 h7
  all_goals
    obtain rfl := Option.some.inj h
    subst c
    decide

private theorem ne_of_escapeLetter?_eq_none {c : Char} (h : escapeLetter? c = none) :
    c ≠ '"' ∧ c ≠ '\\' := by
  constructor
  · rintro rfl
    exact absurd h (by decide)
  · rintro rfl
    exact absurd h (by decide)

private theorem unit?_of_lt {n : Nat} (h : n < 0x20) :
    unit? '0' '0' (hexDigit (n / 16)) (hexDigit (n % 16)) = some n := by
  have hzero : digitValue? '0' = some 0 := by decide
  have hvalue : n / 16 * 16 + n % 16 = n := by omega
  rw [unit?, hzero, digitValue?_hexDigit (n / 16) (by omega),
    digitValue?_hexDigit (n % 16) (by omega)]
  simp [hvalue]

section Strings

def withChar (c : Char) (read? : Option (Text × Text)) : Option (Text × Text) :=
  read?.map fun read => (c :: read.1, read.2)

private theorem readChars_plain {c : Char} (least : 0x20 ≤ c.toNat) (noQuote : c ≠ '"')
    (noEscape : c ≠ '\\') (rest : Text) : readChars (c :: rest) = withChar c (readChars rest) := by
  have hchecks : ¬ (c.toNat < 0x20 || c == '\\') = true := by
    simp only [Bool.or_eq_true, decide_eq_true_eq, beq_iff_eq, not_or]
    exact ⟨by omega, noEscape⟩
  rw [readChars, if_neg hchecks, withChar]
  · exact noQuote
  · exact fun _ _ _ _ _ _ _ _ _ h => absurd h noEscape
  · exact fun _ _ _ _ _ h => absurd h noEscape
  · exact fun _ _ h => absurd h noEscape

private theorem readChars_letter {letter c : Char} (h : unescape? letter = some c)
    (noCode : letter ≠ 'u') (rest : Text) :
    readChars ('\\' :: letter :: rest) = withChar c (readChars rest) := by
  rw [readChars, h]
  · cases readChars rest <;> rfl
  · exact fun _ _ _ _ _ _ _ _ _ h => absurd h noCode
  · exact fun _ _ _ _ _ h => absurd h noCode

private theorem readChars_code {a b c d char : Char} (h : (unit? a b c d).bind charOf? = some char)
    (rest : Text) :
    readChars ('\\' :: 'u' :: a :: b :: c :: d :: rest) = withChar char (readChars rest) := by
  -- a second code may follow, but the first one is a character by itself
  by_cases hnext : ∃ e f g i more, rest = '\\' :: 'u' :: e :: f :: g :: i :: more
  · obtain ⟨e, f, g, i, more, rfl⟩ := hnext
    rw [readChars, h]
    rfl
  · rw [readChars, h]
    · cases readChars rest <;> rfl
    · exact fun e f g i more hrest => hnext ⟨e, f, g, i, more, hrest⟩

private theorem readChars_writeChar (c : Char) (rest : Text) :
    readChars (writeChar c ++ rest) = withChar c (readChars rest) := by
  rw [writeChar]
  cases hletter : escapeLetter? c with
  | some letter =>
    obtain ⟨hback, hcode, -⟩ := unescape?_of_escapeLetter? hletter
    exact readChars_letter hback hcode rest
  | none =>
    obtain ⟨noQuote, noEscape⟩ := ne_of_escapeLetter?_eq_none hletter
    by_cases hcontrol : c.toNat < 0x20
    · have hchar : charOf? c.toNat = some c := by
        have hsurrogate : ¬ (0xD800 ≤ c.toNat && c.toNat ≤ 0xDFFF) = true := by
          simp only [Bool.and_eq_true, decide_eq_true_eq]
          omega
        rw [charOf?, if_neg hsurrogate, Char.ofNat_toNat]
      simp only [if_pos hcontrol]
      refine readChars_code ?_ rest
      rw [unit?_of_lt hcontrol]
      exact hchar
    · simp only [if_neg hcontrol]
      exact readChars_plain (Nat.le_of_not_lt hcontrol) noQuote noEscape rest

private theorem writeString_append (text rest : Text) :
    writeString text ++ rest = '"' :: (text.flatMap writeChar ++ '"' :: rest) := by
      simp [writeString]

private theorem readString_writeString (text rest : Text) :
    readString (writeString text ++ rest) = some (text, rest) := by
  have hchars : readChars (text.flatMap writeChar ++ '"' :: rest) = some (text, rest) := by
    induction text with
    | nil => rw [List.flatMap_nil, List.nil_append, readChars]
    | cons c text ih => rw [List.flatMap_cons, List.append_assoc, readChars_writeChar, ih]; rfl
  rw [writeString_append]
  exact hchars

end Strings

section Objects

private theorem skipSpace_cons {c : Char} (h : isSpace c = false) (rest : Text) :
    skipSpace (c :: rest) = c :: rest :=
  List.dropWhile_cons_of_neg (by rw [h]; exact Bool.false_ne_true)

private theorem skipSpace_writeString (text rest : Text) :
    skipSpace (writeString text ++ rest) = writeString text ++ rest :=
  skipSpace_cons (by decide) _

private theorem skipSpace_writeValue (value : Value) (rest : Text) :
    skipSpace (writeValue value ++ rest) = writeValue value ++ rest := by
  cases value with
  | text text => exact skipSpace_writeString text rest
  | flag flag => cases flag <;> exact skipSpace_cons (by decide) _

private theorem readValue_writeValue (value : Value) (rest : Text) :
    readValue (writeValue value ++ rest) = some (value, rest) := by
  cases value with
  | text text =>
    have hstring := readString_writeString text rest
    rw [writeValue, readValue]
    rw [writeString_append] at hstring ⊢
    simp [Text.after?, hstring]
  | flag flag =>
    cases flag with
    | true => rw [writeValue, readValue, Text.after?_append]
    | false =>
      have hfalse : Text.after? "true".toList ("false".toList ++ rest) = none := rfl
      rw [writeValue, readValue, Text.after?_append, hfalse]

private theorem readMember_writeMember (member : Text × Value) (rest : Text) :
    readMember (writeMember member ++ rest) = some (member, rest) := by
  have htext : writeMember member ++ rest =
      writeString member.1 ++ (':' :: (writeValue member.2 ++ rest)) := by simp [writeMember]
  rw [htext, readMember, readString_writeString]
  simp only [Option.bind_eq_bind, Option.bind_some]
  rw [skipSpace_cons (by decide)]
  simp [skipSpace_writeValue, readValue_writeValue]

private theorem exists_writeMembers_eq (member : Text × Value) (others : List (Text × Value)) :
    ∃ more, writeMembers (member :: others) = '"' :: more := by
  cases others <;> exact ⟨_, rfl⟩

private theorem skipSpace_writeMembers (member : Text × Value) (others : List (Text × Value))
    (rest : Text) :
    skipSpace (writeMembers (member :: others) ++ rest) =
      writeMembers (member :: others) ++ rest := by
  obtain ⟨more, hmore⟩ := exists_writeMembers_eq member others
  rw [hmore]
  exact skipSpace_cons (by decide) _

private theorem writeMembers_cons_cons (member next : Text × Value) (others : List (Text × Value))
    (rest : Text) :
    writeMembers (member :: next :: others) ++ rest =
      writeMember member ++ ',' :: (writeMembers (next :: others) ++ rest) := by
  simp [writeMembers]

/-- Members are read up to the closing brace. -/
theorem readMembers_writeMembers {members : List (Text × Value)} (nonempty : members ≠ [])
    {allowed : Nat} (bound : members.length ≤ allowed) (rest : Text) :
    readMembers allowed (writeMembers members ++ '\x7d' :: rest) = some (members, rest) := by
  induction members generalizing allowed with
  | nil => exact absurd rfl nonempty
  | cons member others ih =>
    cases allowed with
    | zero => exact absurd bound (Nat.not_succ_le_zero _)
    | succ allowed =>
      cases others with
      | nil =>
        rw [writeMembers, readMembers, readMember_writeMember]
        simp only [Option.bind_eq_bind, Option.bind_some]
        rw [skipSpace_cons (by decide)]
        rfl
      | cons next others =>
        have hread := ih (List.cons_ne_nil next others) (Nat.le_of_succ_le_succ bound)
        rw [writeMembers_cons_cons, readMembers, readMember_writeMember]
        simp only [Option.bind_eq_bind, Option.bind_some]
        rw [skipSpace_cons (by decide)]
        simp only [skipSpace_writeMembers, hread, Option.bind_some]
        rfl

private theorem length_le_writeMembers (members : List (Text × Value)) :
    members.length ≤ (writeMembers members).length := by
  have hmember : ∀ member, 1 ≤ (writeMember member).length := fun member => by
    simp [writeMember, writeString]
  induction members with
  | nil => exact Nat.zero_le _
  | cons member others ih =>
    cases others with
    | nil => exact hmember member
    | cons next others =>
      have hcons := congrArg List.length (writeMembers_cons_cons member next others [])
      simp only [List.append_nil, List.length_append, List.length_cons] at hcons ih ⊢
      omega

theorem readObject_writeObject (members : List (Text × Value)) {space : Text}
    (blank : ∀ c ∈ space, isSpace c = true) :
    readObject (writeObject members ++ space) = some members := by
  have hspace : skipSpace space = [] := List.dropWhile_eq_nil_iff.mpr blank
  have htext : writeObject members ++ space =
      '\x7b' :: (writeMembers members ++ '\x7d' :: space) := by simp [writeObject]
  rw [htext, readObject, skipSpace_cons (by decide)]
  cases members with
  | nil =>
    rw [writeMembers, List.nil_append]
    simp only [skipSpace_cons (show isSpace '\x7d' = false by decide), hspace]
    rfl
  | cons member others =>
    have hbound : (member :: others).length ≤ (writeObject (member :: others) ++ space).length := by
      have hlength := length_le_writeMembers (member :: others)
      simp only [writeObject, List.length_append, List.length_cons] at hlength ⊢
      omega
    have hread := readMembers_writeMembers (List.cons_ne_nil member others) hbound space
    rw [htext] at hread
    simp only [skipSpace_writeMembers]
    split
    next rest hempty =>
      obtain ⟨more, hmore⟩ := exists_writeMembers_eq member others
      rw [hmore, List.cons_append, List.cons.injEq] at hempty
      exact absurd hempty.1 (by decide)
    next =>
      rw [hread]
      simp [hspace]

end Objects

section Characters

/-- What is written is printable: no control character below a space is left. -/
def Printable (text : Text) : Prop := ∀ c ∈ text, 0x20 ≤ c.toNat

instance : DecidablePred Printable := fun text =>
  decidable_of_iff (text.all (fun c => 0x20 ≤ c.toNat) = true) (by simp [Printable])

theorem Printable.append {left right : Text} (hleft : Printable left) (hright : Printable right) :
    Printable (left ++ right) := by
  intro c hc
  rcases List.mem_append.mp hc with hc | hc
  · exact hleft c hc
  · exact hright c hc

private theorem printable_cons_iff {c : Char} {text : Text} :
    Printable (c :: text) ↔ 0x20 ≤ c.toNat ∧ Printable text := List.forall_mem_cons

private theorem printable_nil : Printable [] := fun _ hc => absurd hc List.not_mem_nil

private theorem hexDigit_printed : ∀ n < 16, 0x20 ≤ (hexDigit n).toNat := by decide

private theorem printable_writeChar (c : Char) : Printable (writeChar c) := by
  rw [writeChar]
  cases hletter : escapeLetter? c with
  | some letter =>
    obtain ⟨-, -, hprinted⟩ := unescape?_of_escapeLetter? hletter
    simp only [printable_cons_iff]
    exact ⟨by decide, hprinted, printable_nil⟩
  | none =>
    by_cases hcontrol : c.toNat < 0x20
    · simp only [if_pos hcontrol, printable_cons_iff]
      exact ⟨by decide, by decide, by decide, by decide, hexDigit_printed _ (by omega),
        hexDigit_printed _ (by omega), printable_nil⟩
    · simp only [if_neg hcontrol, printable_cons_iff]
      exact ⟨Nat.le_of_not_lt hcontrol, printable_nil⟩

private theorem printable_writeString (text : Text) : Printable (writeString text) := by
  have hchars : Printable (text.flatMap writeChar) := by
    intro c hc
    obtain ⟨source, -, hc⟩ := List.mem_flatMap.mp hc
    exact printable_writeChar source c hc
  exact (printable_cons_iff.mpr ⟨by decide, hchars⟩).append (by decide)

private theorem printable_writeValue (value : Value) : Printable (writeValue value) := by
  cases value with
  | text text => exact printable_writeString text
  | flag flag => cases flag <;> decide

private theorem printable_writeMember (member : Text × Value) : Printable (writeMember member) :=
  (printable_writeString member.1).append
    (printable_cons_iff.mpr ⟨by decide, printable_writeValue member.2⟩)

private theorem printable_writeMembers (members : List (Text × Value)) :
    Printable (writeMembers members) := by
  induction members with
  | nil => exact printable_nil
  | cons member others ih =>
    cases others with
    | nil => exact printable_writeMember member
    | cons next others =>
      exact (printable_writeMember member).append (printable_cons_iff.mpr ⟨by decide, ih⟩)

theorem printable_writeObject (members : List (Text × Value)) : Printable (writeObject members) :=
  (printable_cons_iff.mpr ⟨by decide, printable_writeMembers members⟩).append
    (by decide)

end Characters

end Json

end PathFilter
