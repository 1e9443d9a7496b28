import Mathlib.Tactic.SplitIfs
import PathFilter.Text.Utf8

/-!
UTF-8 read back. The bytes of a text are read as that text, strictly and leniently, and bytes that
are not those of any text hold an ill-formed piece.
-/

set_option autoImplicit false
set_option relaxedAutoImplicit false

namespace PathFilter.Utf8

inductive Completes : Pending → Bytes → Char → Prop
  | last {pending : Pending} {b : UInt8} {c : Char} :
      next pending b = .done c → Completes pending [b] c
  | more {pending after : Pending} {b : UInt8} {bytes : Bytes} {c : Char} :
      next pending b = .more after → Completes after bytes c → Completes pending (b :: bytes) c

/-- Bytes that are read as one character. -/
inductive Reads : Bytes → Char → Prop
  | single {b : UInt8} {c : Char} : first b = .done c → Reads [b] c
  | several {pending : Pending} {b : UInt8} {bytes : Bytes} {c : Char} :
      first b = .more pending → Completes pending bytes c → Reads (b :: bytes) c

private theorem Completes.pieces_append {pending : Pending} {bytes : Bytes} {c : Char}
    (completes : Completes pending bytes c) (rest : Bytes) :
    pieces (some pending) (bytes ++ rest) = some c :: pieces none rest := by
  induction completes with
  | last hnext => rw [List.singleton_append, pieces, hnext]
  | more hnext _ ih => rw [List.cons_append, pieces, hnext]; exact ih

private theorem Reads.pieces_append {bytes : Bytes} {c : Char} (reads : Reads bytes c)
    (rest : Bytes) :
    pieces none (bytes ++ rest) = some c :: pieces none rest := by
  cases reads with
  | single hfirst => rw [List.singleton_append, pieces, hfirst]
  | several hfirst completes =>
    rw [List.cons_append, pieces, hfirst]
    exact completes.pieces_append rest

private theorem exists_completes_of_pieces {pending : Pending} {bytes : Bytes} {c : Char}
    {tail : List (Option Char)} (h : pieces (some pending) bytes = some c :: tail) :
    ∃ mark rest, bytes = mark ++ rest ∧ Completes pending mark c ∧ pieces none rest = tail := by
  induction bytes generalizing pending with
  | nil => simp [pieces] at h
  | cons b bytes ih =>
    rw [pieces] at h
    cases hnext : next pending b with
    | done d =>
      simp only [hnext, List.cons.injEq, Option.some.injEq] at h
      exact ⟨[b], bytes, rfl, .last (h.1 ▸ hnext), h.2⟩
    | more after =>
      simp only [hnext] at h
      obtain ⟨mark, rest, hbytes, completes, htail⟩ := ih h
      exact ⟨b :: mark, rest, by rw [hbytes, List.cons_append], .more hnext completes, htail⟩
    | broken => simp [hnext] at h

private theorem exists_reads_of_pieces {bytes : Bytes} {c : Char} {tail : List (Option Char)}
    (h : pieces none bytes = some c :: tail) :
    ∃ mark rest, bytes = mark ++ rest ∧ Reads mark c ∧ pieces none rest = tail := by
  cases bytes with
  | nil => simp [pieces] at h
  | cons b bytes =>
    rw [pieces] at h
    cases hfirst : first b with
    | done d =>
      simp only [hfirst, List.cons.injEq, Option.some.injEq] at h
      exact ⟨[b], bytes, rfl, .single (h.1 ▸ hfirst), h.2⟩
    | more pending =>
      simp only [hfirst] at h
      obtain ⟨mark, rest, hbytes, completes, htail⟩ := exists_completes_of_pieces h
      exact ⟨b :: mark, rest, by rw [hbytes, List.cons_append], .several hfirst completes, htail⟩
    | broken => simp [hfirst] at h

private theorem pieces_some_ne_nil (pending : Pending) (bytes : Bytes) :
    pieces (some pending) bytes ≠ [] := by
  induction bytes generalizing pending with
  | nil => simp [pieces]
  | cons b bytes ih =>
    rw [pieces]
    cases next pending b with
    | done c => simp
    | broken => simp
    | more after => exact ih after

private theorem eq_nil_of_pieces {bytes : Bytes} (h : pieces none bytes = []) : bytes = [] := by
  cases bytes with
  | nil => rfl
  | cons b bytes =>
    rw [pieces] at h
    cases hfirst : first b with
    | done c => simp [hfirst] at h
    | broken => simp [hfirst] at h
    | more pending =>
      simp only [hfirst] at h
      exact absurd h (pieces_some_ne_nil pending bytes)

section Characters

variable {bits least greatest owed : Nat} {b : UInt8} {bytes : Bytes} {c : Char}

theorem toNat_ofNat {n : Nat} (valid : n < 0xD800 ∨ 0xDFFF < n ∧ n < 0x110000) :
    (Char.ofNat n).toNat = n := by
  have hvalid : n.isValidChar := valid
  rw [Char.ofNat, dif_pos hvalid]
  rfl

private theorem toNat_valid (c : Char) : c.toNat < 0xD800 ∨ 0xDFFF < c.toNat ∧ c.toNat < 0x110000 :=
  c.valid

private theorem eq_ofNat_iff {n : Nat} (valid : n < 0xD800 ∨ 0xDFFF < n ∧ n < 0x110000) :
    c = Char.ofNat n ↔ c.toNat = n := by
  constructor
  · rintro rfl
    exact toNat_ofNat valid
  · rintro rfl
    exact (Char.ofNat_toNat c).symm

private theorem toNat_byte {n : Nat} (hn : n < 0x100) : (UInt8.ofNat n).toNat = n := by
  rw [UInt8.toNat_ofNat', Nat.mod_eq_of_lt hn]

private theorem eq_byte {n : Nat} (hb : b.toNat = n) : UInt8.ofNat n = b := by
  rw [← hb, UInt8.ofNat_toNat]

private theorem next_of_within {pending : Pending}
    (within : pending.least ≤ b.toNat ∧ b.toNat ≤ pending.greatest) :
    next pending b =
      if pending.owed ≤ 1 then .done (Char.ofNat (pending.bits * 0x40 + b.toNat % 0x40))
      else .more ⟨pending.bits * 0x40 + b.toNat % 0x40, pending.owed - 1, 0x80, 0xBF⟩ := by
  have hin : ¬ (b.toNat < pending.least ∨ pending.greatest < b.toNat) := by omega
  simp [next, hin]

private theorem within_of_next {pending : Pending} (h : next pending b ≠ .broken) :
    pending.least ≤ b.toNat ∧ b.toNat ≤ pending.greatest := by
  simp only [next] at h
  split_ifs at h with hout
  · exact absurd rfl h
  all_goals
    simp only [Bool.or_eq_true, decide_eq_true_eq, not_or, Nat.not_lt] at hout
    exact hout

private theorem completes_one_iff :
    Completes ⟨bits, 1, least, greatest⟩ bytes c ↔
      ∃ b : UInt8, bytes = [b] ∧ (least ≤ b.toNat ∧ b.toNat ≤ greatest) ∧
        c = Char.ofNat (bits * 0x40 + b.toNat % 0x40) := by
  constructor
  · intro completes
    cases completes with
    | @last _ b _ hnext =>
      have hin := within_of_next (by rw [hnext]; simp)
      rw [next_of_within hin, if_pos (Nat.le_refl 1)] at hnext
      exact ⟨b, rfl, hin, (Progress.done.inj hnext).symm⟩
    | @more _ _ b _ _ hnext =>
      have hin := within_of_next (by rw [hnext]; simp)
      rw [next_of_within hin, if_pos (Nat.le_refl 1)] at hnext
      exact absurd hnext (by simp)
  · rintro ⟨b, rfl, hin, rfl⟩
    exact .last ((next_of_within hin).trans (if_pos (Nat.le_refl 1)))

private theorem completes_more_iff :
    Completes ⟨bits, owed + 2, least, greatest⟩ bytes c ↔
      ∃ (b : UInt8) (rest : Bytes), bytes = b :: rest ∧ (least ≤ b.toNat ∧ b.toNat ≤ greatest) ∧
        Completes ⟨bits * 0x40 + b.toNat % 0x40, owed + 1, 0x80, 0xBF⟩ rest c := by
  have howed : ¬ owed + 2 ≤ 1 := by omega
  constructor
  · intro completes
    cases completes with
    | @last _ b _ hnext =>
      have hin := within_of_next (by rw [hnext]; simp)
      rw [next_of_within hin, if_neg howed] at hnext
      exact absurd hnext (by simp)
    | @more _ _ b rest _ hnext completes =>
      have hin := within_of_next (by rw [hnext]; simp)
      rw [next_of_within hin, if_neg howed] at hnext
      rw [← Progress.more.inj hnext] at completes
      exact ⟨b, rest, rfl, hin, completes⟩
  · rintro ⟨b, rest, rfl, hin, completes⟩
    exact .more ((next_of_within hin).trans (if_neg howed)) completes

private theorem first_one (hb : b.toNat < 0x80) : first b = .done (Char.ofNat b.toNat) := if_pos hb

private theorem first_two (least : 0xC2 ≤ b.toNat) (greatest : b.toNat < 0xE0) :
    first b = .more ⟨b.toNat - 0xC0, 1, 0x80, 0xBF⟩ := by
  have hone : ¬ b.toNat < 0x80 := by omega
  have hbroken : ¬ b.toNat < 0xC2 := by omega
  simp only [first]
  rw [if_neg hone, if_neg hbroken, if_pos greatest]

private theorem first_three (least : 0xE0 ≤ b.toNat) (greatest : b.toNat < 0xF0) :
    first b = .more ⟨b.toNat - 0xE0, 2, if b.toNat = 0xE0 then 0xA0 else 0x80,
      if b.toNat = 0xED then 0x9F else 0xBF⟩ := by
  have hone : ¬ b.toNat < 0x80 := by omega
  have hbroken : ¬ b.toNat < 0xC2 := by omega
  have htwo : ¬ b.toNat < 0xE0 := by omega
  simp only [first]
  rw [if_neg hone, if_neg hbroken, if_neg htwo]
  by_cases hlow : b.toNat = 0xE0
  · rw [hlow]
    rfl
  by_cases hhigh : b.toNat = 0xED
  · rw [hhigh]
    rfl
  · rw [if_neg hlow, if_neg hhigh, if_pos greatest, if_neg hlow, if_neg hhigh]

private theorem first_four (least : 0xF0 ≤ b.toNat) (greatest : b.toNat < 0xF5) :
    first b = .more ⟨b.toNat - 0xF0, 3, if b.toNat = 0xF0 then 0x90 else 0x80,
      if b.toNat = 0xF4 then 0x8F else 0xBF⟩ := by
  have hone : ¬ b.toNat < 0x80 := by omega
  have hbroken : ¬ b.toNat < 0xC2 := by omega
  have htwo : ¬ b.toNat < 0xE0 := by omega
  have hthree : ¬ b.toNat < 0xF0 ∧ b.toNat ≠ 0xE0 ∧ b.toNat ≠ 0xED := by omega
  simp only [first]
  rw [if_neg hone, if_neg hbroken, if_neg htwo, if_neg hthree.2.1, if_neg hthree.2.2,
    if_neg hthree.1]
  by_cases hlow : b.toNat = 0xF0
  · rw [hlow]
    rfl
  by_cases hhigh : b.toNat = 0xF4
  · rw [hhigh]
    rfl
  · have hbelow : b.toNat < 0xF4 := by omega
    rw [if_neg hlow, if_pos hbelow, if_neg hlow, if_neg hhigh]

private theorem first_broken (h : 0x80 ≤ b.toNat ∧ b.toNat < 0xC2 ∨ 0xF5 ≤ b.toNat) :
    first b = .broken := by
  have hone : ¬ b.toNat < 0x80 := by omega
  simp only [first]
  rw [if_neg hone]
  rcases h with ⟨-, hlow⟩ | hhigh
  · rw [if_pos hlow]
  · have hbroken : ¬ b.toNat < 0xC2 := by omega
    have htwo : ¬ b.toNat < 0xE0 ∧ b.toNat ≠ 0xE0 := by omega
    have hthree : ¬ b.toNat < 0xF0 ∧ b.toNat ≠ 0xED := by omega
    have hfour : ¬ b.toNat < 0xF4 ∧ b.toNat ≠ 0xF0 ∧ b.toNat ≠ 0xF4 := by omega
    rw [if_neg hbroken, if_neg htwo.1, if_neg htwo.2, if_neg hthree.2, if_neg hthree.1,
      if_neg hfour.2.1, if_neg hfour.1, if_neg hfour.2.2]

/-- What a first byte leads to, by the range that it is in. -/
theorem first_cases (b : UInt8) :
    (b.toNat < 0x80 ∧ first b = .done (Char.ofNat b.toNat)) ∨
      (0xC2 ≤ b.toNat ∧ b.toNat < 0xE0 ∧ first b = .more ⟨b.toNat - 0xC0, 1, 0x80, 0xBF⟩) ∨
      (0xE0 ≤ b.toNat ∧ b.toNat < 0xF0 ∧ first b = .more ⟨b.toNat - 0xE0, 2,
        if b.toNat = 0xE0 then 0xA0 else 0x80, if b.toNat = 0xED then 0x9F else 0xBF⟩) ∨
      (0xF0 ≤ b.toNat ∧ b.toNat < 0xF5 ∧ first b = .more ⟨b.toNat - 0xF0, 3,
        if b.toNat = 0xF0 then 0x90 else 0x80, if b.toNat = 0xF4 then 0x8F else 0xBF⟩) ∨
      first b = .broken := by
  rcases Nat.lt_or_ge b.toNat 0x80 with hone | hone
  · exact .inl ⟨hone, first_one hone⟩
  rcases Nat.lt_or_ge b.toNat 0xC2 with hlow | hlow
  · exact .inr (.inr (.inr (.inr (first_broken (.inl ⟨hone, hlow⟩)))))
  rcases Nat.lt_or_ge b.toNat 0xE0 with htwo | htwo
  · exact .inr (.inl ⟨hlow, htwo, first_two hlow htwo⟩)
  rcases Nat.lt_or_ge b.toNat 0xF0 with hthree | hthree
  · exact .inr (.inr (.inl ⟨htwo, hthree, first_three htwo hthree⟩))
  rcases Nat.lt_or_ge b.toNat 0xF5 with hfour | hfour
  · exact .inr (.inr (.inr (.inl ⟨hthree, hfour, first_four hthree hfour⟩)))
  · exact .inr (.inr (.inr (.inr (first_broken (.inr hfour)))))

/-! The bits of a number, cut into those of some bytes and put together again. -/

private theorem value_two (n : Nat) :
    (0xC0 + n / 0x40 - 0xC0) * 0x40 + (0x80 + n % 0x40) % 0x40 = n := by omega

private theorem value_three (n : Nat) :
    ((0xE0 + n / 0x1000 - 0xE0) * 0x40 + (0x80 + n / 0x40 % 0x40) % 0x40) * 0x40 +
      (0x80 + n % 0x40) % 0x40 = n := by omega

private theorem value_four (n : Nat) :
    (((0xF0 + n / 0x40000 - 0xF0) * 0x40 + (0x80 + n / 0x1000 % 0x40) % 0x40) * 0x40 +
      (0x80 + n / 0x40 % 0x40) % 0x40) * 0x40 + (0x80 + n % 0x40) % 0x40 = n := by omega

theorem width_pos (c : Char) : 0 < width c := by
  unfold width encodeChar
  simp only
  split_ifs <;> simp

private theorem reads_encodeChar (c : Char) : Reads (encodeChar c) c := by
  have hvalid := toNat_valid c
  simp only [encodeChar]
  split_ifs with hone htwo hthree
  · have hb := toNat_byte (n := c.toNat) (by omega)
    refine .single ?_
    rw [first_one (by omega), hb, Char.ofNat_toNat]
  · have hb := toNat_byte (n := 0xC0 + c.toNat / 0x40) (by omega)
    have hlast := toNat_byte (n := 0x80 + c.toNat % 0x40) (by omega)
    refine .several (first_two (by omega) (by omega)) (completes_one_iff.mpr ⟨_, rfl, ?_, ?_⟩)
    · omega
    · rw [hb, hlast, value_two, Char.ofNat_toNat]
  · have hb := toNat_byte (n := 0xE0 + c.toNat / 0x1000) (by omega)
    have hmiddle := toNat_byte (n := 0x80 + c.toNat / 0x40 % 0x40) (by omega)
    have hlast := toNat_byte (n := 0x80 + c.toNat % 0x40) (by omega)
    refine .several (first_three (by omega) (by omega)) (completes_more_iff.mpr
      ⟨_, _, rfl, ?_, completes_one_iff.mpr ⟨_, rfl, ?_, ?_⟩⟩)
    · split_ifs <;> omega
    · omega
    · rw [hb, hmiddle, hlast, value_three, Char.ofNat_toNat]
  · have hb := toNat_byte (n := 0xF0 + c.toNat / 0x40000) (by omega)
    have hsecond := toNat_byte (n := 0x80 + c.toNat / 0x1000 % 0x40) (by omega)
    have hthird := toNat_byte (n := 0x80 + c.toNat / 0x40 % 0x40) (by omega)
    have hlast := toNat_byte (n := 0x80 + c.toNat % 0x40) (by omega)
    refine .several (first_four (by omega) (by omega)) (completes_more_iff.mpr
      ⟨_, _, rfl, ?_, completes_more_iff.mpr ⟨_, _, rfl, ?_,
        completes_one_iff.mpr ⟨_, rfl, ?_, ?_⟩⟩⟩)
    · split_ifs <;> omega
    · omega
    · omega
    · rw [hb, hsecond, hthird, hlast, value_four, Char.ofNat_toNat]

private theorem encodeChar_two {last : UInt8} (least : 0xC2 ≤ b.toNat) (greatest : b.toNat < 0xE0)
    (hlast : 0x80 ≤ last.toNat ∧ last.toNat ≤ 0xBF)
    (hc : c.toNat = (b.toNat - 0xC0) * 0x40 + last.toNat % 0x40) : encodeChar c = [b, last] := by
  have hrange : ¬ c.toNat < 0x80 ∧ c.toNat < 0x800 := by omega
  simp only [encodeChar]
  rw [if_neg hrange.1, if_pos hrange.2, eq_byte (b := b) (by omega), eq_byte (b := last) (by omega)]

private theorem encodeChar_three {middle last : UInt8} (least : 0xE0 ≤ b.toNat)
    (greatest : b.toNat < 0xF0) (hmiddle : 0x80 ≤ middle.toNat ∧ middle.toNat ≤ 0xBF)
    (hlast : 0x80 ≤ last.toNat ∧ last.toNat ≤ 0xBF) (long : 0x800 ≤ c.toNat)
    (hc : c.toNat = ((b.toNat - 0xE0) * 0x40 + middle.toNat % 0x40) * 0x40 + last.toNat % 0x40) :
    encodeChar c = [b, middle, last] := by
  have hrange : ¬ c.toNat < 0x80 ∧ ¬ c.toNat < 0x800 ∧ c.toNat < 0x10000 := by omega
  simp only [encodeChar]
  rw [if_neg hrange.1, if_neg hrange.2.1, if_pos hrange.2.2, eq_byte (b := b) (by omega),
    eq_byte (b := middle) (by omega), eq_byte (b := last) (by omega)]

private theorem encodeChar_four {second third last : UInt8} (least : 0xF0 ≤ b.toNat)
    (hsecond : 0x80 ≤ second.toNat ∧ second.toNat ≤ 0xBF)
    (hthird : 0x80 ≤ third.toNat ∧ third.toNat ≤ 0xBF)
    (hlast : 0x80 ≤ last.toNat ∧ last.toNat ≤ 0xBF) (long : 0x10000 ≤ c.toNat)
    (hc : c.toNat = (((b.toNat - 0xF0) * 0x40 + second.toNat % 0x40) * 0x40 + third.toNat % 0x40) *
      0x40 + last.toNat % 0x40) :
    encodeChar c = [b, second, third, last] := by
  have hrange : ¬ c.toNat < 0x80 ∧ ¬ c.toNat < 0x800 ∧ ¬ c.toNat < 0x10000 := by omega
  simp only [encodeChar]
  rw [if_neg hrange.1, if_neg hrange.2.1, if_neg hrange.2.2, eq_byte (b := b) (by omega),
    eq_byte (b := second) (by omega), eq_byte (b := third) (by omega),
    eq_byte (b := last) (by omega)]

private theorem Reads.eq_encodeChar (reads : Reads bytes c) : bytes = encodeChar c := by
  cases reads with
  | @single b _ hfirst =>
    rcases first_cases b with ⟨hone, hb⟩ | ⟨-, -, hb⟩ | ⟨-, -, hb⟩ | ⟨-, -, hb⟩ | hb
    · rw [hb, Progress.done.injEq, eq_comm, eq_ofNat_iff (by omega)] at hfirst
      rw [encodeChar, if_pos (by omega), eq_byte hfirst.symm]
    all_goals
      rw [hb] at hfirst
      cases hfirst
  | @several pending b rest _ hfirst completes =>
    rcases first_cases b with ⟨-, hb⟩ | ⟨hlow, htwo, hb⟩ | ⟨htwo, hthree, hb⟩ |
      ⟨hthree, hfour, hb⟩ | hb
    · rw [hb] at hfirst
      cases hfirst
    · rw [hb, Progress.more.injEq] at hfirst
      rw [← hfirst, completes_one_iff] at completes
      obtain ⟨last, rfl, hlast, hc⟩ := completes
      rw [eq_ofNat_iff (by omega)] at hc
      exact (encodeChar_two hlow htwo hlast hc).symm
    · rw [hb, Progress.more.injEq] at hfirst
      rw [← hfirst, completes_more_iff] at completes
      obtain ⟨middle, rest, rfl, hin, completes⟩ := completes
      obtain ⟨last, rfl, hlast, hc⟩ := completes_one_iff.mp completes
      have hrange : 0x80 ≤ middle.toNat ∧ middle.toNat ≤ 0xBF ∧
          (b.toNat = 0xE0 → 0xA0 ≤ middle.toNat) ∧ (b.toNat = 0xED → middle.toNat ≤ 0x9F) := by
        split_ifs at hin <;> omega
      rw [eq_ofNat_iff (by omega)] at hc
      exact (encodeChar_three htwo hthree ⟨hrange.1, hrange.2.1⟩ hlast (by omega) hc).symm
    · rw [hb, Progress.more.injEq] at hfirst
      rw [← hfirst, completes_more_iff] at completes
      obtain ⟨second, rest, rfl, hin, completes⟩ := completes
      obtain ⟨third, rest, rfl, hthird, completes⟩ := completes_more_iff.mp completes
      obtain ⟨last, rfl, hlast, hc⟩ := completes_one_iff.mp completes
      have hrange : 0x80 ≤ second.toNat ∧ second.toNat ≤ 0xBF ∧
          (b.toNat = 0xF0 → 0x90 ≤ second.toNat) ∧ (b.toNat = 0xF4 → second.toNat ≤ 0x8F) := by
        split_ifs at hin <;> omega
      rw [eq_ofNat_iff (by omega)] at hc
      exact (encodeChar_four hthree ⟨hrange.1, hrange.2.1⟩ hthird hlast (by omega) hc).symm
    · rw [hb] at hfirst
      cases hfirst

/-- A character of ASCII has a byte of its own, which no other character has. -/
theorem mem_encodeChar_iff {mark : Char} (ascii : mark.toNat < 0x80) :
    UInt8.ofNat mark.toNat ∈ encodeChar c ↔ c = mark := by
  have hvalid := toNat_valid c
  have hmark := toNat_byte (n := mark.toNat) (by omega)
  have hchar : c = mark ↔ c.toNat = mark.toNat := by
    rw [← eq_ofNat_iff (toNat_valid mark), Char.ofNat_toNat]
  simp only [encodeChar, hchar]
  split_ifs with hone htwo hthree
  all_goals
    simp only [List.mem_cons, List.not_mem_nil, or_false, ← UInt8.toNat_inj, hmark]
  · rw [toNat_byte (by omega), eq_comm]
  · rw [toNat_byte (by omega), toNat_byte (by omega)]
    omega
  · rw [toNat_byte (by omega), toNat_byte (by omega), toNat_byte (by omega)]
    omega
  · rw [toNat_byte (by omega), toNat_byte (by omega), toNat_byte (by omega), toNat_byte (by omega)]
    omega

end Characters

theorem encode_append (left right : Text) : encode (left ++ right) = encode left ++ encode right :=
  List.flatMap_append

theorem length_encode_cons (c : Char) (text : Text) :
    (encode (c :: text)).length = width c + (encode text).length := by
  rw [encode, List.flatMap_cons, List.length_append, width, encode]

theorem flatten_map_encode (texts : List Text) :
    (texts.map encode).flatten = encode texts.flatten := by
  induction texts with
  | nil => rfl
  | cons text texts ih =>
      rw [List.map_cons, List.flatten_cons, List.flatten_cons, encode_append, ih]

theorem mem_encode_iff (mark : Char) (ascii : mark.toNat < 0x80) {text : Text} :
    UInt8.ofNat mark.toNat ∈ encode text ↔ mark ∈ text := by
  rw [encode, List.mem_flatMap]
  constructor
  · rintro ⟨c, hc, hbyte⟩
    rwa [← (mem_encodeChar_iff ascii).mp hbyte]
  · intro hmark
    exact ⟨mark, hmark, (mem_encodeChar_iff ascii).mpr rfl⟩

private theorem pieces_encode (text : Text) : pieces none (encode text) = text.map some := by
  induction text with
  | nil => rfl
  | cons c text ih =>
    rw [encode, List.flatMap_cons, (reads_encodeChar c).pieces_append, List.map_cons, ← ih]
    rfl

private theorem eq_encode_of_pieces {bytes : Bytes} {text : Text}
    (h : pieces none bytes = text.map some) :
    bytes = encode text := by
  induction text generalizing bytes with
  | nil => exact eq_nil_of_pieces h
  | cons c text ih =>
    obtain ⟨mark, rest, rfl, reads, hrest⟩ := exists_reads_of_pieces h
    rw [reads.eq_encodeChar, ih hrest]
    rfl

private theorem mapM_id_eq_some_iff {α : Type} {pieces : List (Option α)} {items : List α} :
    pieces.mapM id = some items ↔ pieces = items.map some := by
  induction pieces generalizing items with
  | nil => cases items <;> simp
  | cons piece pieces ih =>
    simp only [List.mapM_cons, Option.bind_eq_bind, Option.bind_eq_some_iff, Option.pure_def,
      Option.some.injEq, id, ih]
    constructor
    · rintro ⟨item, rfl, others, rfl, rfl⟩
      rfl
    · intro h
      obtain ⟨item, others, rfl, hitem, hothers⟩ := List.map_eq_cons_iff.mp h.symm
      exact ⟨item, hitem.symm, others, hothers.symm, rfl⟩

theorem decode?_eq_some_iff {bytes : Bytes} {text : Text} :
    decode? bytes = some text ↔ bytes = encode text := by
  rw [decode?, mapM_id_eq_some_iff]
  constructor
  · exact eq_encode_of_pieces
  · rintro rfl
    exact pieces_encode text

theorem decodeLossy_encode (text : Text) : decodeLossy (encode text) = text := by
  rw [decodeLossy, pieces_encode, List.map_map]
  exact List.map_id text

end PathFilter.Utf8
