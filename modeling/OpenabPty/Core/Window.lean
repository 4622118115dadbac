import Mathlib.Algebra.GroupWithZero.Nat
import Mathlib.Data.List.DropRight
import Mathlib.Data.List.Infix

/-!
# Windows of a stream

A bounded buffer that drops its oldest elements holds the end of what was put into it. Here a
stream is the list of everything that was put in, a window is `stream.rtake n`, and what a
reader makes of a stream is a list of pieces: what it was given and from which position on, and
how much was left out.
-/

namespace Window

variable {α : Type} {stream window : List α} {n m capacity : Nat}

/-- What a buffer with room for `capacity` elements holds after `elements` were put into it. -/
def push (capacity : Nat) (window elements : List α) : List α :=
  (window ++ elements).rtake capacity

theorem length_rtake (l : List α) (n : Nat) : (l.rtake n).length = min n l.length := by
  rw [List.rtake, List.length_drop]
  omega

theorem rtake_suffix (l : List α) (n : Nat) : l.rtake n <:+ l := List.drop_suffix _ _

theorem push_of_fits {elements : List α} (h : window.length + elements.length ≤ capacity) :
    push capacity window elements = window ++ elements := by
  rw [push, List.rtake, List.length_append, Nat.sub_eq_zero_of_le h, List.drop_zero]

theorem length_push (window elements : List α) :
    (push capacity window elements).length = min capacity (window.length + elements.length) := by
  rw [push, length_rtake, List.length_append]

/-- What is put in leaves the window the end of a longer stream. -/
theorem push_rtake (capacity : Nat) (stream elements : List α) (h : n ≤ stream.length) :
    push capacity (stream.rtake n) elements =
      (stream ++ elements).rtake (min capacity (n + elements.length)) := by
  have hwindow : stream.rtake n ++ elements = (stream ++ elements).drop (stream.length - n) := by
    rw [List.drop_append_of_le_length (Nat.sub_le _ _), List.rtake]
  rw [push, hwindow, List.rtake, List.rtake, List.drop_drop, List.length_drop, List.length_append]
  congr 1
  omega

/-- Putting in one part after the other is putting in both. -/
theorem push_push (capacity : Nat) (window elements more : List α) :
    push capacity (push capacity window elements) more =
      push capacity window (elements ++ more) := by
  have hlen : min capacity (window ++ elements).length ≤ (window ++ elements).length :=
    Nat.min_le_right _ _
  have hwindow : push capacity window elements =
      (window ++ elements).rtake (min capacity (window ++ elements).length) := by
    rw [push, List.rtake, List.rtake]
    congr 1
    omega
  rw [hwindow, push_rtake capacity _ more hlen, push, ← List.append_assoc, List.rtake, List.rtake]
  congr 1
  simp only [List.length_append]
  omega

/-! ## Stacks

With its newest element last, a bounded buffer is a stack that forgets what lies at the bottom. -/

/-- What fits in is all on top of what is left of the stack before. -/
theorem push_eq_append {elements : List α} (h : elements.length ≤ capacity) :
    push capacity window elements = window.rtake (capacity - elements.length) ++ elements := by
  have hdrop : window.length + elements.length - capacity ≤ window.length := by omega
  rw [push, List.rtake, List.rtake, List.length_append, List.drop_append_of_le_length hdrop]
  congr 2
  omega

/-- Taking off as many elements as were put on leaves what the stack before could keep. -/
theorem take_push {elements : List α} (h : elements.length ≤ capacity) :
    (push capacity window elements).take
        ((push capacity window elements).length - elements.length) =
      window.rtake (capacity - elements.length) := by
  rw [push_eq_append h, List.length_append, Nat.add_sub_cancel, List.take_left]

/-- The element that is taken off last was put on first. -/
theorem getElem?_push {elements : List α} (h : elements.length ≤ capacity) :
    (push capacity window elements)[(push capacity window elements).length - elements.length]? =
      elements.head? := by
  rw [push_eq_append h, List.length_append, Nat.add_sub_cancel,
    List.getElem?_append_right (Nat.le_refl _), Nat.sub_self, List.head?_eq_getElem?]

/-! ## Readers -/

/-- A piece of what a reader gets: elements from the position `start` on, or a gap. -/
inductive Piece (α : Type) where
  | out (start : Nat) (elements : List α)
  | skip (n : Nat)
  deriving DecidableEq, Repr

/-- How far a piece takes its reader. -/
def Piece.width : Piece α → Nat
  | .out _ elements => elements.length
  | .skip n => n

/-- The elements of a piece. -/
def Piece.elements : Piece α → List α
  | .out _ elements => elements
  | .skip _ => []

/-- How much a piece leaves out. -/
def Piece.skipped : Piece α → Nat
  | .out .. => 0
  | .skip n => n

/-- How far some pieces take their reader. -/
def width (pieces : List (Piece α)) : Nat := (pieces.map Piece.width).sum

/-- From the position `p` on every piece is where it says it is, right behind the piece before
it, and has what the stream has there. -/
def Reads (stream : List α) : Nat → List (Piece α) → Prop
  | _, [] => True
  | p, .out start elements :: pieces =>
    start = p ∧ elements <+: stream.drop p ∧ Reads stream (p + elements.length) pieces
  | p, .skip n :: pieces => Reads stream (p + n) pieces

@[simp] theorem width_nil : width ([] : List (Piece α)) = 0 := rfl

@[simp] theorem width_append (pieces more : List (Piece α)) :
    width (pieces ++ more) = width pieces + width more := by
  rw [width, List.map_append, List.sum_append]
  rfl

@[simp] theorem width_singleton (piece : Piece α) : width [piece] = piece.width := by
  rw [width, List.map_singleton, List.sum_singleton]

/-- Every piece is given or left out. -/
theorem width_eq (pieces : List (Piece α)) :
    width pieces = (pieces.flatMap Piece.elements).length + (pieces.map Piece.skipped).sum := by
  induction pieces with
  | nil => rfl
  | cons piece pieces ih =>
    rw [width, List.map_cons, List.sum_cons, ← width, ih, List.flatMap_cons, List.length_append,
      List.map_cons, List.sum_cons]
    cases piece <;> simp only [Piece.width, Piece.elements, Piece.skipped, List.length_nil] <;> omega

theorem reads_append {p : Nat} {pieces more : List (Piece α)} :
    Reads stream p (pieces ++ more) ↔
      Reads stream p pieces ∧ Reads stream (p + width pieces) more := by
  induction pieces generalizing p with
  | nil => simp [Reads]
  | cons piece pieces ih =>
    have hwidth : width (piece :: pieces) = piece.width + width pieces := by
      rw [width, List.map_cons, List.sum_cons]
      rfl
    cases piece with
    | out start elements =>
      simp only [List.cons_append, Reads, ih, hwidth, Piece.width, Nat.add_assoc, and_assoc]
    | skip n => simp only [List.cons_append, Reads, ih, hwidth, Piece.width, Nat.add_assoc]

/-- What was read stays read when the stream goes on. -/
theorem Reads.mono {p : Nat} {pieces : List (Piece α)} (h : Reads stream p pieces)
    (more : List α) : Reads (stream ++ more) p pieces := by
  induction pieces generalizing p with
  | nil => trivial
  | cons piece pieces ih =>
    cases piece with
    | out start elements =>
      obtain ⟨hstart, hprefix, hrest⟩ := h
      refine ⟨hstart, hprefix.trans ?_, ih hrest⟩
      rw [List.drop_append]
      exact List.prefix_append _ _
    | skip n => exact ih h

end Window
