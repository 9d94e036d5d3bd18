import Shiplog.Proofs.Messages

/-!
Frames at the front of bytes and of streams. Bytes that begin with a frame that can be sent are
read as the frame, whatever follows it, and all others are refused for their header or for their
length (`Frame.encode_or_refusal`, `Frame.Refusal.decode`). A stream gives a frame just when it
begins with the bytes of one (`Frame.perform_receive_eq_ok_iff`), and refuses a header just when
it announces more than may be sent (`Frame.refuses_iff`).
-/
namespace Shiplog

open Wire

namespace Wire

variable {α : Type} {outcome : Except Flaw α}

theorem check_eq_ok_iff {a : α} : check outcome = .ok a ↔ outcome = .ok a := by
  cases outcome <;> simp [check, Except.mapError]

theorem check_eq_error_iff {e : Error} : check outcome = .error e ↔ ∃ flaw, outcome = .error flaw ∧ e = .protocol flaw.text := by
  cases outcome <;> simp [check, Except.mapError, Flaw.toError, eq_comm]

end Wire

namespace Frame

variable {f g : Frame} {bs rest rest' stream : Bytes} {flaw : Flaw}

/-! ## Bytes -/

/-- Whatever follows a frame, its header announces its payload. -/
theorem announced_encode (short : f.payload.length < 2 ^ 32) (rest : Bytes) :
    announced (f.encode ++ rest) = f.payload.length := by
  rw [← announced_take, encode_eq, List.append_assoc, List.take_left' f.length_header, announced_header short]

theorem length_encode (f : Frame) : f.encode.length = headerSize + f.payload.length := by
  rw [encode_eq, List.length_append, length_header]

/-- A frame goes as far as its header says. -/
theorem announced_eq_length (fits : f.Fits) (rest : Bytes) : headerSize + announced (f.encode ++ rest) = f.encode.length := by
  rw [announced_encode fits.lt, length_encode]

theorem encode_injective (same : f.encode = g.encode) : f = g := by
  obtain ⟨headers, payloads⟩ := List.append_inj same (f.length_header.trans g.length_header.symm)
  obtain ⟨kinds, -⟩ := List.cons.inj headers
  cases f
  cases g
  simp_all

/-- A frame at the front of some bytes is read, whatever follows. -/
theorem decode_encode (fits : f.Fits) (rest : Bytes) : decode (f.encode ++ rest) = .ok f := by
  have header : ¬ (f.encode ++ rest).length < headerSize := by
    rw [List.length_append, length_encode]
    omega
  have whole : ¬ (f.encode ++ rest).length < headerSize + f.payload.length := by
    rw [List.length_append, length_encode]
    omega
  have payload : ((f.encode ++ rest).drop headerSize).take f.payload.length = f.payload := by
    rw [encode_eq, List.append_assoc, List.drop_left' f.length_header, List.take_left]
  simp only [decode, announced_encode fits.lt, checkLength, Nat.not_lt.mpr fits, header, whole, if_false, payload]
  rfl

theorem check_write (fits : f.Fits) : check f.write = .ok f.encode := by
  rw [write, checkLength, if_neg (Nat.not_lt.mpr fits)]
  rfl

/-- A frame that could not be read is not written. -/
theorem check_write_error (large : maxPayload < f.payload.length) :
    check f.write = .error (.protocol (Flaw.tooLarge f.payload.length).text) := by
  rw [write, checkLength, if_pos large]
  rfl

/-- Why no frame is read from some bytes: each flaw with the bytes that have it. -/
inductive Refusal : Bytes → Flaw → Prop
  | shortHeader {bs : Bytes} (short : bs.length < headerSize) : Refusal bs (.shortHeader bs.length)
  | tooLarge {bs : Bytes} (large : Oversized bs) : Refusal bs (.tooLarge (announced bs))
  | shortPayload {bs : Bytes} (header : headerSize ≤ bs.length) (fits : announced bs ≤ maxPayload)
      (short : bs.length < headerSize + announced bs) :
      Refusal bs (.shortPayload (headerSize + announced bs) bs.length)

theorem Refusal.decode (refusal : Refusal bs flaw) : Frame.decode bs = .error flaw := by
  cases refusal with
  | shortHeader short =>
    simp only [Frame.decode, short, if_true, bind, Except.bind]
    rfl
  | tooLarge large =>
    have header : ¬ bs.length < headerSize := Nat.not_lt.mpr large.1
    simp only [Frame.decode, checkLength, header, large.2, if_true, if_false, bind, Except.bind]
  | shortPayload header fits short =>
    simp only [Frame.decode, checkLength, Nat.not_lt.mpr header, Nat.not_lt.mpr fits, short, if_true, if_false, bind,
      Except.bind]
    rfl

/-- Bytes begin with a frame that can be sent, or they are refused. -/
theorem encode_or_refusal (bs : Bytes) :
    (∃ f rest, Fits f ∧ bs = f.encode ++ rest) ∨ ∃ flaw, Refusal bs flaw := by
  rcases front_cases bs with (short | ⟨fits, short⟩) | large | front
  · exact .inr ⟨_, .shortHeader short⟩
  · by_cases header : bs.length < headerSize
    · exact .inr ⟨_, .shortHeader header⟩
    · exact .inr ⟨_, .shortPayload (Nat.le_of_not_lt header) fits short⟩
  · exact .inr ⟨_, .tooLarge large⟩
  · exact .inl front

/-! ## Streams -/

theorem perform_receive_eq_ok_iff :
    (receive Wire.take).perform stream = (.ok f, rest) ↔ f.Fits ∧ stream = f.encode ++ rest := by
  constructor
  · intro read
    rcases front_cases stream with cut | large | ⟨g, behind, fits, rfl⟩
    · rw [perform_receive_of_cut cut] at read
      cases read
    · rw [perform_receive_of_oversized large] at read
      cases read
    · rw [perform_receive_encode fits] at read
      cases read
      exact ⟨fits, rfl⟩
  · rintro ⟨fits, rfl⟩
    exact perform_receive_encode fits rest

/-- A header is refused just when the payload that it announces is too long to be sent. -/
theorem refuses_iff (header : headerSize ≤ stream.length) :
    (∃ detail rest, (receive Wire.take).perform stream = (.error (.protocol detail), rest)) ↔
      maxPayload < announced stream := by
  constructor
  · rintro ⟨detail, rest, refused⟩
    rcases front_cases stream with cut | large | ⟨f, behind, fits, rfl⟩
    · rw [perform_receive_of_cut cut] at refused
      cases refused
    · exact large.2
    · rw [perform_receive_encode fits] at refused
      cases refused
  · intro large
    exact ⟨_, _, perform_receive_of_oversized ⟨header, large⟩⟩

/-- What is cut off inside a frame is short of what its header announces. -/
theorem cut_of_prefix (fits : f.Fits) (part : stream <+: f.encode) (short : stream.length < f.encode.length) : Cut stream := by
  by_cases header : stream.length < headerSize
  · exact .inl header
  · have same : announced stream = f.payload.length := by
      obtain ⟨more, whole⟩ := part
      have front : f.encode.take headerSize = stream.take headerSize := by
        rw [← whole, List.take_append_of_le_length (Nat.le_of_not_lt header)]
      rw [← announced_take, ← front, encode_eq, List.take_left' f.length_header, announced_header fits.lt]
    rw [length_encode] at short
    rw [Cut, same]
    exact .inr ⟨fits, short⟩

end Frame
end Shiplog
