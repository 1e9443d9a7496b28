import Mathlib.Data.Nat.Find
import PathFilter.Proofs.Glob.Scan

/-!
The states that a scan passes. Each of them has a view before it in which the question about the
whole name is still open, and `remaining` has fallen with every step up to it. So a scan ends by
accepting or rejecting, and it accepts the names that the pattern fits; until then positions and
offsets stay in bounds and at characters, and the answer depends on nothing but what stands behind
the last star.
-/

set_option autoImplicit false
set_option relaxedAutoImplicit false

namespace PathFilter.Wildcard

def Move.next? : Move → Option Scan
  | .go scan => some scan
  | .stop _ => none

/-- The state of a scan after a number of steps; there is none once it has stopped. -/
def stateAfter (pattern : List Char) (name : Text) : Nat → Option Scan
  | 0 => some {}
  | steps + 1 => (stateAfter pattern name steps).bind fun scan =>
      (step pattern.toArray (byteMap name) scan).next?

/-- A character of the name begins at the byte offset, or the name ends there. -/
def AtCharacter (name : Text) (offset : Nat) : Prop :=
  ∃ before rest, name = before ++ rest ∧ (Utf8.encode before).length = offset

structure InBounds (pattern : List Char) (name : Text) (scan : Scan) : Prop where
  position_le : scan.position ≤ pattern.length
  resume_le : scan.resume ≤ scan.offset
  offset_le : scan.offset ≤ (Utf8.encode name).length
  offset_atCharacter : AtCharacter name scan.offset
  resume_atCharacter : AtCharacter name scan.resume

private theorem length_encode (name : Text) : (Utf8.encode name).length = byteLength name := by
  induction name with
  | nil => rfl
  | cons c name ih => rw [Utf8.length_encode_cons, byteLength_cons, ih]

private theorem Begins.atCharacter {name rest : Text} {offset : Nat} (h : Begins name rest offset) :
    AtCharacter name offset := by
  obtain ⟨before, hname, hoffset⟩ := h
  exact ⟨before, rest, hname, by rw [length_encode, hoffset]⟩

private theorem LastStar.exists_begins {pattern : List Char} {name : Text} {star : Option Nat}
    {resume : Nat} {last : Option (List Char × Text)} (h : LastStar pattern name star resume last) :
    ∃ resumed, Begins name resumed resume := by
  cases h with
  | none => exact ⟨name, Begins.start name⟩
  | some _ hresume => exact ⟨_, hresume⟩

/-- Once a star has been passed, the open question is what the pattern from the last star on makes
of the name from where that star stopped. -/
theorem Follows.exists_resumed {pattern : List Char} {name : Text} {scan : Scan} {view : View}
    {star : Nat} (h : Follows pattern name scan view) (hstar : scan.star = some star) :
    ∃ resumed, Begins name resumed scan.resume ∧
      (view.Open ↔ Fits (pattern.drop star) resumed) := by
  obtain ⟨left, rest, last⟩ := view
  have hlast : LastStar pattern name scan.star scan.resume last := h.star
  rw [hstar] at hlast
  cases hlast with
  | @some passed after resumed _ hsplit hresume =>
    refine ⟨resumed, hresume, ?_⟩
    rw [hsplit, List.drop_left]
    rfl

private theorem Follows.inBounds {pattern : List Char} {name : Text} {scan : Scan} {view : View}
    (h : Follows pattern name scan view) : InBounds pattern name scan := by
  obtain ⟨resumed, hresume⟩ := h.star.exists_begins
  have hposition := h.position_le
  have hoffset := h.offset.add_byteLength
  refine ⟨by omega, h.resume_le_offset, ?_, h.offset.atCharacter, hresume.atCharacter⟩
  rw [length_encode]
  omega

private theorem Follows.answer_of_stop {pattern : List Char} {name : Text} {scan : Scan}
    {view : View} {outcome : Outcome} (h : Follows pattern name scan view)
    (stops : step pattern.toArray (byteMap name) scan = .stop outcome) :
    outcome = .accepted ∨ outcome = .rejected := by
  have hmoves := step_moves h
  rw [stops] at hmoves
  cases hmoves with
  | @stop answer _ => cases answer <;> simp

section States

variable {pattern : List Char} {name : Text} {steps : Nat} {state : Scan}

private theorem stateAfter_succ_iff {next : Scan} :
    stateAfter pattern name (steps + 1) = some next ↔
      ∃ state, stateAfter pattern name steps = some state ∧
        step pattern.toArray (byteMap name) state = .go next := by
  have hnext : ∀ move : Move, move.next? = some next ↔ move = .go next := by
    intro move
    cases move <;> simp [Move.next?]
  simp only [stateAfter, Option.bind_eq_some_iff, hnext]

private theorem stateAfter_eq_none_of_le {more : Nat} (hle : steps ≤ more)
    (ended : stateAfter pattern name steps = none) : stateAfter pattern name more = none := by
  induction hle with
  | refl => exact ended
  | step _ ih => rw [stateAfter, ih, Option.bind_none]

/-- Every state that a scan passes has a view before it. The question is the one about the whole
name, and each step has used up a part of what remained. -/
theorem exists_view_of_stateAfter (h : stateAfter pattern name steps = some state) :
    ∃ view, Follows pattern name state view ∧ (Fits pattern name ↔ view.Open) ∧
      remaining pattern name state + steps ≤ remaining pattern name {} := by
  induction steps generalizing state with
  | zero =>
    obtain rfl : ({} : Scan) = state := Option.some.inj h
    exact ⟨⟨pattern, name, none⟩, Follows.start pattern name, Iff.rfl, Nat.le_refl _⟩
  | succ steps ih =>
    obtain ⟨before, hbefore, hstep⟩ := stateAfter_succ_iff.mp h
    obtain ⟨view, follows, hopen, hle⟩ := ih hbefore
    have hmoves := step_moves follows
    rw [hstep] at hmoves
    cases hmoves with
    | @go _ next hview hnext hlt =>
      exact ⟨next, hnext, hopen.trans (hview.open_iff follows.held), by omega⟩

private theorem run_eq_of_stateAfter (h : stateAfter pattern name steps = some state) (more : Nat) :
    run pattern.toArray (byteMap name) (steps + more) {} =
      run pattern.toArray (byteMap name) more state := by
  induction steps generalizing state more with
  | zero =>
    obtain rfl : ({} : Scan) = state := Option.some.inj h
    rw [Nat.zero_add]
  | succ steps ih =>
    obtain ⟨before, hbefore, hstep⟩ := stateAfter_succ_iff.mp h
    rw [Nat.add_right_comm, Nat.add_assoc, ih hbefore, run, hstep]

private theorem step_eq_of_last (h : stateAfter pattern name steps = some state)
    (ended : stateAfter pattern name (steps + 1) = none) :
    step pattern.toArray (byteMap name) state = .stop (scan pattern name) := by
  rw [stateAfter, h, Option.bind_some] at ended
  obtain ⟨view, -, -, hle⟩ := exists_view_of_stateAfter h
  have hbound := remaining_lt_stepBound pattern name
  obtain ⟨more, hmore⟩ : ∃ more, stepBound pattern.toArray (byteMap name) = steps + (more + 1) :=
    ⟨stepBound pattern.toArray (byteMap name) - (steps + 1), by omega⟩
  have hscan : scan pattern name = run pattern.toArray (byteMap name) (more + 1) state := by
    rw [scan, hmore, run_eq_of_stateAfter h]
  rw [hscan, run]
  cases hstep : step pattern.toArray (byteMap name) state with
  | go next => simp [hstep, Move.next?] at ended
  | stop outcome => rfl

private theorem exists_last_state (pattern : List Char) (name : Text) :
    ∃ steps state, stateAfter pattern name steps = some state ∧
      stateAfter pattern name (steps + 1) = none := by
  have hends : ∃ steps, stateAfter pattern name steps = none := by
    refine ⟨remaining pattern name {} + 1, ?_⟩
    rw [Option.eq_none_iff_forall_ne_some]
    intro state h
    obtain ⟨view, -, -, hle⟩ := exists_view_of_stateAfter h
    omega
  cases hfirst : Nat.find hends with
  | zero =>
    have hnone : stateAfter pattern name 0 = none := hfirst ▸ Nat.find_spec hends
    exact absurd hnone (by simp [stateAfter])
  | succ steps =>
    have hnone : stateAfter pattern name (steps + 1) = none := hfirst ▸ Nat.find_spec hends
    have hsome : stateAfter pattern name steps ≠ none := Nat.find_min hends (by omega)
    obtain ⟨state, hstate⟩ := Option.ne_none_iff_exists'.mp hsome
    exact ⟨steps, state, hstate, hnone⟩

/-- A scan of a whole name ends in time with the right answer. -/
theorem scan_answers (pattern : List Char) (name : Text) :
    ∃ answer : Bool, scan pattern name = (if answer then .accepted else .rejected) ∧
      (Fits pattern name ↔ answer = true) := by
  obtain ⟨steps, state, hstate, hnone⟩ := exists_last_state pattern name
  obtain ⟨view, follows, hopen, -⟩ := exists_view_of_stateAfter hstate
  have hmoves := step_moves follows
  rw [step_eq_of_last hstate hnone] at hmoves
  generalize scan pattern name = outcome at hmoves ⊢
  cases hmoves with
  | @stop answer ends => exact ⟨answer, rfl, hopen.trans (ends.open_iff follows.held)⟩

theorem accepts_eq_true_iff {pattern : List Char} {name : Text} :
    accepts pattern name = true ↔ Fits pattern name := by
  obtain ⟨answer, hscan, hfits⟩ := scan_answers pattern name
  rw [hfits, accepts, hscan]
  cases answer <;> simp

end States

/-- A scan ends: from its last state it stops with the outcome, which accepts or rejects, and no
further state follows. Every state that it passes is in bounds: the position is at most the length
of the pattern, and both offsets stand at characters of the name or at its end, that of the last
star not behind that of the scan. So no step is misplaced, and the last star is never asked for a
character that is not there. -/
theorem scan_ends_in_bounds (pattern : List Char) (name : Text) :
    (∃ steps last, stateAfter pattern name steps = some last ∧
      step pattern.toArray (byteMap name) last = .stop (scan pattern name) ∧
      (scan pattern name = .accepted ∨ scan pattern name = .rejected) ∧
      ∀ more, steps < more → stateAfter pattern name more = none) ∧
    ∀ {steps : Nat} {state : Scan}, stateAfter pattern name steps = some state →
      InBounds pattern name state ∧
        step pattern.toArray (byteMap name) state ≠ .stop .exhausted ∧
        step pattern.toArray (byteMap name) state ≠ .stop .misplaced := by
  constructor
  · obtain ⟨steps, last, hlast, hnone⟩ := exists_last_state pattern name
    obtain ⟨view, follows, -⟩ := exists_view_of_stateAfter hlast
    have hstops := step_eq_of_last hlast hnone
    refine ⟨steps, last, hlast, hstops, follows.answer_of_stop hstops, ?_⟩
    exact fun more hmore => stateAfter_eq_none_of_le hmore hnone
  · intro steps state h
    obtain ⟨view, follows, -⟩ := exists_view_of_stateAfter h
    refine ⟨follows.inBounds, ?_, ?_⟩
    · intro hstops
      exact absurd (follows.answer_of_stop hstops) (by decide)
    · intro hstops
      exact absurd (follows.answer_of_stop hstops) (by decide)

/-- A name with characters of one to four bytes. After ten steps the last star has taken three
characters, the last of them of three bytes. -/
theorem scan_ends_in_bounds_allWidths :
    let pattern := "*é?*€c".toList
    let name := "aé€bé𝄞€€c".toList
    let state : Scan := { position := 4, offset := 16, star := some 3, resume := 16 }
    stateAfter pattern name 10 = some state ∧ InBounds pattern name state ∧
      step pattern.toArray (byteMap name) state ≠ .stop .exhausted ∧
      step pattern.toArray (byteMap name) state ≠ .stop .misplaced := by
  intro pattern name state
  have hstate : stateAfter pattern name 10 = some state := by decide +kernel
  exact ⟨hstate, (scan_ends_in_bounds pattern name).2 hstate⟩

/-- The last star is enough. A name is accepted if and only if it can be cut into consecutive
pieces, one for each character of the pattern, whatever the earlier stars take in such a cut. For at
each state behind a star, the whole name fits the pattern if and only if the name from where that
star stopped fits the pattern from that star on. -/
theorem accepts_iff_exists_pieces (pattern : List Char) (name : Text) :
    (accepts pattern name = true ↔
      ∃ pieces : List Text, pieces.flatten = name ∧ List.Forall₂ Takes pattern pieces) ∧
    ∀ {steps star : Nat} {state : Scan}, stateAfter pattern name steps = some state →
      state.star = some star →
      ∃ before rest, name = before ++ rest ∧ (Utf8.encode before).length = state.resume ∧
        (Fits pattern name ↔ Fits (pattern.drop star) rest) := by
  constructor
  · rw [accepts_eq_true_iff, fits_iff_exists_pieces]
  · intro steps star state h hstar
    obtain ⟨view, follows, hopen, -⟩ := exists_view_of_stateAfter h
    obtain ⟨rest, ⟨before, hname, hresume⟩, hrest⟩ := follows.exists_resumed hstar
    exact ⟨before, rest, hname, by rw [length_encode, hresume], hopen.trans hrest⟩

theorem accepts_iff_exists_pieces_secondStar :
    let pattern := "*a?*bc".toList
    let name := "xaabbbc".toList
    let state : Scan := { position := 4, offset := 5, star := some 3, resume := 5 }
    (stateAfter pattern name 9 = some state ∧ state.star = some 3) ∧
      (∃ pieces : List Text, pieces.flatten = name ∧ List.Forall₂ Takes pattern pieces) ∧
      ∃ before rest, name = before ++ rest ∧ (Utf8.encode before).length = 5 ∧
        (Fits pattern name ↔ Fits "*bc".toList rest) := by
  intro pattern name state
  have hstate : stateAfter pattern name 9 = some state := by decide +kernel
  have haccepts : accepts pattern name = true := by decide +kernel
  obtain ⟨hpieces, hlast⟩ := accepts_iff_exists_pieces pattern name
  exact ⟨⟨hstate, rfl⟩, hpieces.mp haccepts, hlast hstate rfl⟩

end PathFilter.Wildcard
