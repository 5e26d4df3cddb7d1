import Mathlib.Data.List.Basic
import Mathlib.Tactic

/-!
# Frames of equal size on a byte stream

A sender writes frames of `size` bytes on a stream, and every byte carries the mark of its frame.
The stream arrives in order but cut anywhere, and the receiver takes whole frames out of its buffer.
`Receives` keeps the reads aligned with the frames.
-/

namespace Framing

variable {α : Type*} {size : ℕ}

def stream (size : ℕ) (frames : List α) : List α := frames.flatMap (List.replicate size)

theorem stream_append (size : ℕ) (frames frames' : List α) :
    stream size (frames ++ frames') = stream size frames ++ stream size frames' :=
  List.flatMap_append

@[simp] theorem length_stream (size : ℕ) (frames : List α) :
    (stream size frames).length = frames.length * size := by
  simp [stream]

theorem drop_stream (size : ℕ) (frames : List α) (k : ℕ) :
    (stream size frames).drop (k * size) = stream size (frames.drop k) := by
  rcases Nat.lt_or_ge frames.length k with hlt | hle
  · have hlength : (stream size frames).length ≤ k * size := by
      rw [length_stream]
      exact Nat.mul_le_mul_right _ hlt.le
    rw [List.drop_of_length_le hlength, List.drop_of_length_le hlt.le]
    rfl
  · have hlength : (stream size (frames.take k)).length = k * size := by
      rw [length_stream, List.length_take_of_le hle]
    calc (stream size frames).drop (k * size)
        = (stream size (frames.take k) ++ stream size (frames.drop k)).drop (k * size) := by
          rw [← stream_append, List.take_append_drop]
      _ = stream size (frames.drop k) := by rw [← hlength, List.drop_left]

/-- Of the stream `delivered` bytes have arrived, `read` frames have been taken out, and the bytes
in between wait in the buffer. -/
structure Receives (size : ℕ) (frames : List α) (delivered read : ℕ) (buffer : List α) : Prop where
  delivered_le : delivered ≤ frames.length * size
  read_le : read * size ≤ delivered
  buffer_eq : buffer = ((stream size frames).take delivered).drop (read * size)

namespace Receives

variable {frames buffer : List α} {delivered read : ℕ}

theorem start (size : ℕ) : Receives size ([] : List α) 0 0 [] where
  delivered_le := Nat.zero_le _
  read_le := (Nat.zero_mul size).le
  buffer_eq := by simp

theorem length_buffer (h : Receives size frames delivered read buffer) :
    buffer.length = delivered - read * size := by
  rw [h.buffer_eq, List.length_drop, List.length_take, length_stream, min_eq_left h.delivered_le]

/-- More frames on the stream do not change what has arrived. -/
theorem send (h : Receives size frames delivered read buffer) (frames' : List α) :
    Receives size (frames ++ frames') delivered read buffer where
  delivered_le := by
    have hle := h.delivered_le
    rw [List.length_append, Nat.add_mul]
    omega
  read_le := h.read_le
  buffer_eq := by
    have hle : delivered ≤ (stream size frames).length := by
      rw [length_stream]
      exact h.delivered_le
    rw [stream_append, List.take_append_of_le_length hle]
    exact h.buffer_eq

theorem deliver (h : Receives size frames delivered read buffer) {n : ℕ}
    (hn : delivered + n ≤ frames.length * size) :
    Receives size frames (delivered + n) read
      (buffer ++ ((stream size frames).drop delivered).take n) where
  delivered_le := hn
  read_le := h.read_le.trans (Nat.le_add_right _ _)
  buffer_eq := by
    have hle : read * size ≤ ((stream size frames).take delivered).length := by
      rw [List.length_take, length_stream, min_eq_left h.delivered_le]
      exact h.read_le
    rw [List.take_add, List.drop_append_of_le_length hle, ← h.buffer_eq]

/-- A read of `size` bytes takes one whole frame. -/
theorem read_frame (h : Receives size frames delivered read buffer) (hsize : 0 < size)
    (hbuffer : size ≤ buffer.length) :
    ∃ frame, frames[read]? = some frame ∧ buffer.take size = List.replicate size frame ∧
      Receives size frames delivered (read + 1) (buffer.drop size) := by
  have hlength := h.length_buffer
  have hdelivered := h.delivered_le
  have hnext : (read + 1) * size ≤ delivered := by
    rw [Nat.add_mul, Nat.one_mul]
    have hle := h.read_le
    omega
  have hread : read < frames.length := by
    by_contra hge
    have hmul := Nat.mul_le_mul_right size (Nat.le_of_not_lt hge)
    rw [Nat.add_mul, Nat.one_mul] at hnext
    omega
  refine ⟨frames[read], List.getElem?_eq_getElem hread, ?_, hdelivered, hnext, ?_⟩
  · rw [h.buffer_eq, List.drop_take, drop_stream, List.drop_eq_getElem_cons hread, List.take_take,
      min_eq_left (by omega), stream, List.flatMap_cons,
      List.take_append_of_le_length (List.length_replicate.ge), List.take_of_length_le]
    exact List.length_replicate.le
  · rw [h.buffer_eq, List.drop_drop, Nat.add_mul, Nat.one_mul]

/-- Once less than a frame is left, all whole frames have been read. -/
theorem read_eq (h : Receives size frames delivered read buffer) (hbuffer : buffer.length < size) :
    read = delivered / size ∧ buffer.length = delivered % size := by
  have hlength := h.length_buffer
  have hle := h.read_le
  have hread : delivered / size = read := by
    rw [Nat.div_eq_iff (by omega)]
    constructor
    · rw [Nat.mul_comm] at hle ⊢
      exact hle
    · omega
  refine ⟨hread.symm, ?_⟩
  have hmod := Nat.div_add_mod' delivered size
  rw [hread] at hmod
  omega

end Receives

end Framing
