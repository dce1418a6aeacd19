import Mathlib
/-!
# Buffered writers

A writer collects what it is given in a buffer of fixed capacity and hands the buffer on when the next piece does not
fit, as `std::io::BufWriter` does.  None of that shows in `contents`, what the file and the buffer hold together:

* a write appends its pieces to the contents (`contents_writePieces`), a flush keeps them (`contents_flush`);
* the file is the contents up to what still waits (`file_prefix`), and no more than the capacity waits
  (`length_contents_le`);
* behind a flush the file is the contents (`file_flush`).

The file takes every write.  A writer that is neither flushed nor dropped never hands on the end of what it was given.
-/

/-- What has reached the file, and what waits in the buffer. -/
structure BufWriter (α : Type) (capacity : Nat) where
  file : List α
  buffer : List α
  room : buffer.length ≤ capacity

namespace BufWriter

variable {α : Type} {capacity : Nat}

def create : BufWriter α capacity := ⟨[], [], Nat.zero_le _⟩

def flush (w : BufWriter α capacity) : BufWriter α capacity := ⟨w.file ++ w.buffer, [], Nat.zero_le _⟩

theorem room_append (w : BufWriter α capacity) {piece : List α} (h : piece.length ≤ capacity - w.buffer.length) :
    (w.buffer ++ piece).length ≤ capacity := by
  have := w.room
  rw [List.length_append]
  omega

/-- `write_all`.  A piece of the buffer's whole capacity goes past the buffer. -/
def writeAll (w : BufWriter α capacity) (piece : List α) : BufWriter α capacity :=
  if h : piece.length ≤ capacity - w.buffer.length then
    if piece.length < capacity then ⟨w.file, w.buffer ++ piece, w.room_append h⟩
    else ⟨w.file ++ piece, w.buffer, w.room⟩
  else if h : piece.length < capacity then ⟨w.flush.file, piece, h.le⟩
  else ⟨w.flush.file ++ piece, [], Nat.zero_le _⟩

/-- `write_fmt` hands its pieces over one by one. -/
def writePieces (w : BufWriter α capacity) (pieces : List (List α)) : BufWriter α capacity := pieces.foldl writeAll w

def contents (w : BufWriter α capacity) : List α := w.file ++ w.buffer

@[simp] theorem contents_create : (create : BufWriter α capacity).contents = [] := rfl

@[simp] theorem contents_flush (w : BufWriter α capacity) : w.flush.contents = w.contents := List.append_nil _

@[simp] theorem file_flush (w : BufWriter α capacity) : w.flush.file = w.contents := rfl

theorem contents_writeAll (w : BufWriter α capacity) (piece : List α) :
    (w.writeAll piece).contents = w.contents ++ piece := by
  unfold writeAll contents
  split
  · split
    · exact (List.append_assoc _ _ _).symm
    · -- a piece of the whole capacity fits into an empty buffer only
      have hempty : w.buffer = [] := List.eq_nil_of_length_eq_zero (by have := w.room; omega)
      simp [hempty]
  · split
    · rfl
    · exact List.append_nil _

@[simp] theorem contents_writePieces (pieces : List (List α)) (w : BufWriter α capacity) :
    (w.writePieces pieces).contents = w.contents ++ pieces.flatten := by
  induction pieces generalizing w with
  | nil => exact (List.append_nil _).symm
  | cons piece pieces ih =>
    have hrest := ih (w.writeAll piece)
    rw [contents_writeAll, List.append_assoc] at hrest
    exact hrest

theorem file_prefix (w : BufWriter α capacity) : w.file <+: w.contents := List.prefix_append _ _

theorem length_contents_le (w : BufWriter α capacity) : w.contents.length ≤ w.file.length + capacity := by
  have := w.room
  rw [contents, List.length_append]
  omega

end BufWriter
