import Mathlib.Data.List.Basic
import Mathlib.Data.List.Infix
import Mathlib.Tactic

/-!
# Messages of different sizes on a byte stream

Numbers are written in network byte order, the most significant byte first. Messages follow each
other on a stream that arrives in order but cut anywhere, and the receiver takes whole messages out
of its buffer. `Reassembles` keeps what it has taken aligned with the messages.
-/

namespace MessageStream

/-! ## Network byte order -/

/-- The last `width` bytes of a number. -/
def writeHton : ℕ → ℕ → List UInt8
  | 0, _ => []
  | width + 1, data => writeHton width (data / 256) ++ [UInt8.ofNat data]

def readNtoh (bytes : List UInt8) : ℕ :=
  bytes.foldl (fun retval byte => retval * 256 + byte.toNat) 0

@[simp] theorem length_writeHton (width data : ℕ) : (writeHton width data).length = width := by
  induction width generalizing data with
  | zero => rfl
  | succ width ih => simp [writeHton, ih]

theorem readNtoh_concat (bytes : List UInt8) (byte : UInt8) :
    readNtoh (bytes ++ [byte]) = readNtoh bytes * 256 + byte.toNat := by
  rw [readNtoh, List.foldl_append]
  rfl

theorem readNtoh_writeHton {width data : ℕ} (h : data < 256 ^ width) :
    readNtoh (writeHton width data) = data := by
  induction width generalizing data with
  | zero =>
    rw [pow_zero, Nat.lt_one_iff] at h
    rw [h]
    rfl
  | succ width ih =>
    have hhigh : data / 256 < 256 ^ width := by
      rw [pow_succ] at h
      exact Nat.div_lt_of_lt_mul (Nat.mul_comm _ _ ▸ h)
    have hlow : (UInt8.ofNat data).toNat = data % 256 := UInt8.toNat_ofNat'
    rw [writeHton, readNtoh_concat, ih hhigh, hlow]
    omega

/-! ## Messages -/

variable {α : Type*} {messages : List (List α)} {received piece buffer message : List α} {taken : ℕ}

/-- Of the messages on a stream `taken` have been taken out of what has arrived, and the buffer
holds the rest of it. -/
structure Reassembles (messages : List (List α)) (received : List α) (taken : ℕ)
    (buffer : List α) : Prop where
  sent : received <+: messages.flatten
  received_eq : received = (messages.take taken).flatten ++ buffer

namespace Reassembles

theorem start (messages : List (List α)) : Reassembles messages [] 0 [] where
  sent := List.nil_prefix
  received_eq := rfl

theorem receive (h : Reassembles messages received taken buffer)
    (hsent : received ++ piece <+: messages.flatten) :
    Reassembles messages (received ++ piece) taken (buffer ++ piece) where
  sent := hsent
  received_eq := by rw [h.received_eq, List.append_assoc]

/-- The buffer holds the beginning of the messages that have not been taken. -/
theorem buffer_prefix (h : Reassembles messages received taken buffer) :
    buffer <+: (messages.drop taken).flatten := by
  have hsent := h.sent
  rw [h.received_eq, ← List.take_append_drop taken messages, List.flatten_append,
    List.take_append_drop] at hsent
  exact (List.prefix_append_right_inj _).mp hsent

/-- What is in the buffer belongs to a message. -/
theorem exists_message (h : Reassembles messages received taken buffer) (hbuffer : buffer ≠ []) :
    ∃ message, messages[taken]? = some message := by
  cases hmessage : messages[taken]? with
  | some message => exact ⟨message, rfl⟩
  | none =>
    have hprefix := h.buffer_prefix
    rw [List.drop_of_length_le (List.getElem?_eq_none_iff.mp hmessage)] at hprefix
    exact absurd (List.prefix_nil.mp hprefix) hbuffer

/-- A message that has arrived is a prefix of the buffer, as is every prefix of it that has. -/
theorem prefix_buffer (h : Reassembles messages received taken buffer)
    (hmessage : messages[taken]? = some message) {head : List α} (hhead : head <+: message)
    (hlength : head.length ≤ buffer.length) : head <+: buffer := by
  have hflatten : (messages.drop taken).flatten =
      message ++ (messages.drop (taken + 1)).flatten := by
    obtain ⟨htaken, rfl⟩ := List.getElem?_eq_some_iff.mp hmessage
    rw [List.drop_eq_getElem_cons htaken, List.flatten_cons]
  have hfirst : head <+: (messages.drop taken).flatten := by
    rw [hflatten]
    exact hhead.trans (List.prefix_append _ _)
  exact List.prefix_of_prefix_length_le hfirst h.buffer_prefix hlength

/-- A message that has arrived can be taken. -/
theorem take (h : Reassembles messages received taken buffer)
    (hmessage : messages[taken]? = some message) (hlength : message.length ≤ buffer.length) :
    buffer.take message.length = message ∧
      Reassembles messages received (taken + 1) (buffer.drop message.length) := by
  obtain ⟨rest, hrest⟩ := h.prefix_buffer hmessage (List.prefix_refl message) hlength
  obtain ⟨htaken, hget⟩ := List.getElem?_eq_some_iff.mp hmessage
  constructor
  · rw [← hrest, List.take_left]
  · refine ⟨h.sent, ?_⟩
    rw [h.received_eq, ← hrest, List.drop_left, List.take_succ_eq_append_getElem htaken, hget,
      List.flatten_append, List.flatten_singleton, List.append_assoc]

/-- Once everything has arrived, the buffer holds the messages that have not been taken. -/
theorem buffer_eq (h : Reassembles messages received taken buffer)
    (hall : received = messages.flatten) : buffer = (messages.drop taken).flatten := by
  have hreceived := h.received_eq
  rw [hall, ← List.take_append_drop taken messages, List.flatten_append,
    List.take_append_drop] at hreceived
  exact (List.append_cancel_left hreceived).symm

end Reassembles

end MessageStream
