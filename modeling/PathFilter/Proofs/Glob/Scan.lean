import Mathlib.Algebra.GroupWithZero.Nat
import PathFilter.Proofs.Glob.Greedy
import PathFilter.Proofs.Text.Utf8

/-!
One step of the scan over byte offsets. `Follows` ties a scan to what it has before it, so every
offset stands at a character or at the end of the name and no reading is misplaced; the last star
has a character to take whenever it is asked for one. `remaining` starts below `stepBound` and falls
with every step.
-/

set_option autoImplicit false
set_option relaxedAutoImplicit false

namespace PathFilter.Wildcard

def byteLength (name : Text) : Nat := (name.map Utf8.width).sum

def Begins (name rest : Text) (offset : Nat) : Prop :=
  ∃ before, name = before ++ rest ∧ offset = byteLength before

private def cells (c : Char) : List (Option Char) :=
  some c :: List.replicate (Utf8.width c - 1) none

@[simp] theorem byteLength_cons (c : Char) (name : Text) :
    byteLength (c :: name) = Utf8.width c + byteLength name := by
  simp [byteLength]

@[simp] theorem byteLength_append (left right : Text) :
    byteLength (left ++ right) = byteLength left + byteLength right := by
  simp [byteLength]

private theorem length_cells (c : Char) : (cells c).length = Utf8.width c := by
  have h := Utf8.width_pos c
  simp only [cells, List.length_cons, List.length_replicate]
  omega

private theorem length_flatMap_cells (name : Text) :
    (name.flatMap cells).length = byteLength name := by
  induction name with
  | nil => rfl
  | cons c name ih =>
    rw [List.flatMap_cons, List.length_append, length_cells, ih, byteLength_cons]

private theorem byteMap_eq (name : Text) : byteMap name = (name.flatMap cells).toArray := rfl

private theorem size_byteMap (name : Text) : (byteMap name).size = byteLength name := by
  rw [byteMap_eq, List.size_toArray, length_flatMap_cells]

private theorem getElem?_byteMap (before rest : Text) :
    (byteMap (before ++ rest))[byteLength before]? = rest.head?.map some := by
  rw [byteMap_eq, List.getElem?_toArray, List.flatMap_append,
    List.getElem?_append_right (Nat.le_of_eq (length_flatMap_cells before)), length_flatMap_cells,
    Nat.sub_self]
  cases rest with
  | nil => rfl
  | cons c rest => rfl

namespace Begins

variable {name rest : Text} {c : Char} {offset : Nat}

theorem start (name : Text) : Begins name name 0 := ⟨[], rfl, rfl⟩

theorem add_byteLength (h : Begins name rest offset) :
    offset + byteLength rest = byteLength name := by
  obtain ⟨before, rfl, rfl⟩ := h
  rw [byteLength_append]

theorem next (h : Begins name (c :: rest) offset) :
    Begins name rest (offset + Utf8.width c) := by
  obtain ⟨before, rfl, rfl⟩ := h
  exact ⟨before ++ [c], by simp, by simp [byteLength]⟩

private theorem read_cons (h : Begins name (c :: rest) offset) :
    read (byteMap name) offset = .char c := by
  obtain ⟨before, rfl, rfl⟩ := h
  rw [read, getElem?_byteMap]
  rfl

private theorem read_nil (h : Begins name [] offset) : read (byteMap name) offset = .finish := by
  have hend : offset = (byteMap name).size := by
    rw [size_byteMap, ← h.add_byteLength]
    rfl
  obtain ⟨before, rfl, rfl⟩ := h
  rw [read, getElem?_byteMap]
  exact if_pos hend

end Begins

/-- A scan keeps the place of the last star and of the name behind it; before the first star it
keeps the beginning of the name. -/
inductive LastStar (pattern : List Char) (name : Text) :
    Option Nat → Nat → Option (List Char × Text) → Prop
  | none : LastStar pattern name none 0 none
  | some {passed after : List Char} {resumed : Text} {resume : Nat} :
      pattern = passed ++ '*' :: after → Begins name resumed resume →
      LastStar pattern name (some passed.length) resume (some (after, resumed))

structure Follows (pattern : List Char) (name : Text) (scan : Scan) (view : View) : Prop where
  position : ∃ passed, pattern = passed ++ view.left ∧ scan.position = passed.length
  offset : Begins name view.rest scan.offset
  star : LastStar pattern name scan.star scan.resume view.last
  held : view.Held

/-- A bound of the steps that are left: each retreat moves the last star on, and between two
retreats each step passes a character of the pattern. -/
def remaining (pattern : List Char) (name : Text) (scan : Scan) : Nat :=
  (byteLength name - scan.resume) * (pattern.length + 1) + (pattern.length - scan.position)

namespace Follows

variable {pattern : List Char} {name : Text} {scan : Scan} {view : View}

theorem start (pattern : List Char) (name : Text) :
    Follows pattern name {} ⟨pattern, name, none⟩ where
  position := ⟨[], rfl, rfl⟩
  offset := Begins.start name
  star := LastStar.none
  held := by
    intro after resumed h
    cases h

theorem position_le (h : Follows pattern name scan view) :
    scan.position + view.left.length = pattern.length := by
  obtain ⟨passed, rfl, hpos⟩ := h.position
  rw [hpos, List.length_append]

private theorem getElem?_position (h : Follows pattern name scan view) :
    pattern.toArray[scan.position]? = view.left.head? := by
  obtain ⟨passed, rfl, hpos⟩ := h.position
  rw [List.getElem?_toArray, hpos, List.getElem?_append_right (Nat.le_refl _), Nat.sub_self,
    List.head?_eq_getElem?]

private theorem drop_position (h : Follows pattern name scan view) :
    pattern.toArray.toList.drop scan.position = view.left := by
  obtain ⟨passed, rfl, hpos⟩ := h.position
  rw [hpos]
  exact List.drop_left

theorem resume_le_offset (h : Follows pattern name scan view) : scan.resume ≤ scan.offset := by
  obtain ⟨left, rest, last⟩ := view
  obtain ⟨position, offset, star, resume⟩ := scan
  have hstar : LastStar pattern name star resume last := h.star
  cases hstar with
  | none => exact Nat.zero_le _
  | @some _ after resumed _ _ hresume =>
    obtain ⟨literal, taken, -, split, -⟩ := h.held after resumed rfl
    have hresumed : resumed = taken ++ rest := split
    have hoffset : offset + byteLength rest = byteLength name := h.offset.add_byteLength
    have hbytes := hresume.add_byteLength
    rw [hresumed, byteLength_append] at hbytes
    show resume ≤ offset
    omega

private theorem resume_le_byteLength (h : Follows pattern name scan view) :
    scan.resume ≤ byteLength name := by
  have hle := h.resume_le_offset
  have hoffset := h.offset.add_byteLength
  omega

private theorem passStar {left : List Char} {rest : Text} {last : Option (List Char × Text)}
    (h : Follows pattern name scan ⟨'*' :: left, rest, last⟩) :
    Follows pattern name
      { position := scan.position + 1, offset := scan.offset, star := some scan.position,
        resume := scan.offset } ⟨left, rest, some (left, rest)⟩ := by
  obtain ⟨passed, hsplit, hpos⟩ := h.position
  refine ⟨⟨passed ++ ['*'], by simpa using hsplit, by simp [hpos]⟩, h.offset, ?_,
    View.held_resumed left rest⟩
  rw [hpos]
  exact LastStar.some hsplit h.offset

private theorem takeOne {p c : Char} {left : List Char} {rest : Text}
    {last : Option (List Char × Text)} (one : TakesOne p c)
    (h : Follows pattern name scan ⟨p :: left, c :: rest, last⟩) :
    Follows pattern name
      { scan with position := scan.position + 1, offset := scan.offset + Utf8.width c }
      ⟨left, rest, last⟩ := by
  obtain ⟨passed, hsplit, hpos⟩ := h.position
  exact ⟨⟨passed ++ [p], by simpa using hsplit, by simp [hpos]⟩, h.offset.next, h.star,
    (View.Step.take one).held h.held⟩

private theorem resumeAt {left after : List Char} {rest resumed : Text} {d : Char} {star : Nat}
    (h : Follows pattern name scan ⟨left, rest, some (after, d :: resumed)⟩)
    (hstar : scan.star = some star) :
    read (byteMap name) scan.resume = .char d ∧
      Follows pattern name
        { position := star + 1, offset := scan.resume + Utf8.width d, star := some star,
          resume := scan.resume + Utf8.width d } ⟨after, resumed, some (after, resumed)⟩ := by
  obtain ⟨position, offset, star', resume⟩ := scan
  obtain rfl : star' = some star := hstar
  have hlast : LastStar pattern name (some star) resume (some (after, d :: resumed)) := h.star
  cases hlast with
  | @some passed _ _ _ hsplit hresume =>
    refine ⟨hresume.read_cons, ⟨passed ++ ['*'], by simpa using hsplit, by simp⟩, hresume.next,
      LastStar.some hsplit hresume.next, View.held_resumed after resumed⟩

end Follows

/-- What a step does to a scan that has a view before it. -/
inductive Moves (pattern : List Char) (name : Text) (scan : Scan) (view : View) : Move → Prop
  | go {next : Scan} {nextView : View} :
      view.Step nextView → Follows pattern name next nextView →
      remaining pattern name next < remaining pattern name scan →
      Moves pattern name scan view (.go next)
  | stop {answer : Bool} :
      view.Ends answer →
        Moves pattern name scan view (.stop (if answer then .accepted else .rejected))

private theorem remaining_lt_of_position {pattern : List Char} {name : Text} {scan next : Scan}
    (hresume : scan.resume ≤ next.resume) (hposition : scan.position < next.position)
    (hle : next.position ≤ pattern.length) :
    remaining pattern name next < remaining pattern name scan := by
  have hmul : (byteLength name - next.resume) * (pattern.length + 1) ≤
      (byteLength name - scan.resume) * (pattern.length + 1) :=
    Nat.mul_le_mul_right _ (Nat.sub_le_sub_left hresume _)
  simp only [remaining]
  omega

private theorem remaining_lt_of_resume {pattern : List Char} {name : Text} {scan next : Scan}
    (hresume : scan.resume < next.resume) (hle : next.resume ≤ byteLength name) :
    remaining pattern name next < remaining pattern name scan := by
  have hmul : (byteLength name - next.resume + 1) * (pattern.length + 1) ≤
      (byteLength name - scan.resume) * (pattern.length + 1) :=
    Nat.mul_le_mul_right _ (by omega)
  rw [Nat.add_mul, Nat.one_mul] at hmul
  simp only [remaining]
  omega

private theorem retreat_moves {pattern : List Char} {name : Text} {scan : Scan} {left : List Char}
    {c : Char} {rest : Text} {last : Option (List Char × Text)}
    (h : Follows pattern name scan ⟨left, c :: rest, last⟩) (blocked : Blocked left c) :
    Moves pattern name scan ⟨left, c :: rest, last⟩ (retreat (byteMap name) scan) := by
  obtain ⟨position, offset, star, resume⟩ := scan
  have hstar : LastStar pattern name star resume last := h.star
  cases hstar with
  | none => exact Moves.stop (View.Ends.blocked blocked)
  | @some passed after resumed _ hsplit hresume =>
    -- the star has a character to take: `c` is still among those behind it
    obtain ⟨literal, taken, -, hresumed, -⟩ := h.held after resumed rfl
    cases resumed with
    | nil => simp at hresumed
    | cons d resumed =>
      obtain ⟨hread, hnext⟩ := h.resumeAt rfl
      have hread : read (byteMap name) resume = .char d := hread
      simp only [retreat, hread]
      exact Moves.go (View.Step.retreat blocked) hnext
        (remaining_lt_of_resume (Nat.lt_add_of_pos_right (Utf8.width_pos d))
          hnext.resume_le_byteLength)

theorem step_moves {pattern : List Char} {name : Text} {scan : Scan} {view : View}
    (h : Follows pattern name scan view) :
    Moves pattern name scan view (step pattern.toArray (byteMap name) scan) := by
  obtain ⟨left, rest, last⟩ := view
  cases rest with
  | nil =>
    have hle := h.position_le
    have hread : read (byteMap name) scan.offset = .finish := h.offset.read_nil
    have hdrop : pattern.toArray.toList.drop scan.position = left := h.drop_position
    have hin : ¬ pattern.toArray.size < scan.position := by
      rw [List.size_toArray]
      omega
    simp only [step, hread, conclude, hdrop, if_neg hin]
    exact Moves.stop View.Ends.finished
  | cons c rest =>
    have hread : read (byteMap name) scan.offset = .char c := h.offset.read_cons
    have hget : pattern.toArray[scan.position]? = left.head? := h.getElem?_position
    have hle := h.position_le
    cases left with
    | nil =>
      have blocked : Blocked [] c := by
        intro p tail hp
        cases hp
      simp only [step, hread, hget, List.head?_nil]
      exact retreat_moves h blocked
    | cons p left =>
      have hlt : scan.position + 1 ≤ pattern.length := by
        rw [List.length_cons] at hle
        omega
      simp only [step, hread, hget, List.head?_cons]
      split_ifs with hstar hone
      · subst hstar
        exact Moves.go View.Step.star h.passStar
          (remaining_lt_of_position h.resume_le_offset (Nat.lt_succ_self _) hlt)
      · have one : TakesOne p c := ⟨hstar, by simpa using hone⟩
        exact Moves.go (View.Step.take one) (h.takeOne one)
          (remaining_lt_of_position (Nat.le_refl _) (Nat.lt_succ_self _) hlt)
      · have blocked : Blocked (p :: left) c := by
          intro q tail hq
          obtain ⟨rfl, -⟩ := List.cons.inj hq
          exact ⟨hstar, fun one => hone (by simpa using one.2)⟩
        exact retreat_moves h blocked

theorem remaining_lt_stepBound (pattern : List Char) (name : Text) :
    remaining pattern name {} < stepBound pattern.toArray (byteMap name) := by
  simp only [remaining, stepBound, size_byteMap, List.size_toArray, Nat.sub_zero]
  rw [Nat.add_mul, Nat.one_mul]
  omega

end PathFilter.Wildcard
