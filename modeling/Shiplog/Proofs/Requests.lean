import Shiplog.Proofs.Frames

/-!
Which bytes are read as a request. A request that can be sent is read from its own bytes,
whatever follows them (`Request.decode_encode`), and from no others, so a request has one
spelling (`Request.decode_exactly`). Every flaw is found in exactly the bytes that have it
(`Request.decode_eq_error_iff`): in their header, in the length that it announces, or in the
frame at their front.
-/
namespace Shiplog

open Wire

namespace Request

variable {bs : Bytes} {flaw : Flaw} {r : Request}

/-- Why no request is read from some bytes: each flaw with the bytes that have it. -/
inductive Refusal : Bytes → Flaw → Prop
  | shortHeader {bs : Bytes} (short : bs.length < Frame.headerSize) : Refusal bs (.shortHeader bs.length)
  | tooLarge {bs : Bytes} (large : Frame.Oversized bs) : Refusal bs (.tooLarge (Frame.announced bs))
  | shortPayload {bs : Bytes} (header : Frame.headerSize ≤ bs.length) (fits : Frame.announced bs ≤ Frame.maxPayload)
      (short : bs.length < Frame.headerSize + Frame.announced bs) :
      Refusal bs (.shortPayload (Frame.headerSize + Frame.announced bs) bs.length)
  | garbled {f : Frame} {flaw : Flaw} (fits : f.Fits) (garbled : Garbled f flaw) (rest : Bytes) :
      Refusal (f.encode ++ rest) flaw

theorem decode_append {f : Frame} (fits : f.Fits) (rest : Bytes) : decode (f.encode ++ rest) = ofFrame f := by
  simp only [decode, Frame.decode_encode fits, bind, Except.bind]

/-- A request that can be sent is read from its bytes, whatever follows. -/
theorem decode_encode (sound : r.Sound) (rest : Bytes) : decode (r.encode ++ rest) = .ok r := by
  rw [encode, decode_append sound.fits, ofFrame_frame sound.named (counted_of_fits sound.fits)]

theorem Refusal.of_frame (refusal : Frame.Refusal bs flaw) : Refusal bs flaw := by
  cases refusal with
  | shortHeader short => exact .shortHeader short
  | tooLarge large => exact .tooLarge large
  | shortPayload header fits short => exact .shortPayload header fits short

theorem decode_of_refusal (refusal : Frame.Refusal bs flaw) : decode bs = .error flaw := by
  simp only [decode, refusal.decode, bind, Except.bind]

theorem Refusal.decode (refusal : Refusal bs flaw) : Request.decode bs = .error flaw := by
  cases refusal with
  | shortHeader short => exact decode_of_refusal (.shortHeader short)
  | tooLarge large => exact decode_of_refusal (.tooLarge large)
  | shortPayload header fits short => exact decode_of_refusal (.shortPayload header fits short)
  | garbled fits garbled rest => rw [decode_append fits, garbled.ofFrame]

/-- Bytes begin with the spelling of a request that can be sent, or they are refused. -/
theorem encode_or_refusal (bs : Bytes) :
    (∃ r rest, Sound r ∧ bs = encode r ++ rest) ∨ ∃ flaw, Refusal bs flaw := by
  rcases Frame.encode_or_refusal bs with ⟨f, rest, fits, rfl⟩ | ⟨flaw, refusal⟩
  · rcases frame_or_garbled f with ⟨r, rfl, named, -⟩ | ⟨flaw, garbled⟩
    · exact .inl ⟨r, rest, ⟨named, fits⟩, rfl⟩
    · exact .inr ⟨flaw, .garbled fits garbled rest⟩
  · exact .inr ⟨flaw, .of_frame refusal⟩

/-- What reading some bytes gives, with its exact condition. -/
theorem decode_outcome (bs : Bytes) : (∀ r, decode bs = .ok r ↔ r.Sound ∧ ∃ rest, bs = r.encode ++ rest) ∧
    ∀ flaw, decode bs = .error flaw ↔ Refusal bs flaw := by
  refine outcome_iff (fun bs r => r.Sound ∧ ∃ rest, bs = r.encode ++ rest) Refusal ?_ (fun _ _ => Refusal.decode) ?_ bs
  · rintro _ r ⟨sound, rest, rfl⟩
    exact decode_encode sound rest
  · exact fun bs => (encode_or_refusal bs).imp_left fun ⟨r, rest, sound, same⟩ => ⟨r, sound, rest, same⟩

theorem decode_eq_ok_iff : decode bs = .ok r ↔ r.Sound ∧ ∃ rest, bs = r.encode ++ rest :=
  (decode_outcome bs).1 r

theorem decode_eq_error_iff : decode bs = .error flaw ↔ Refusal bs flaw :=
  (decode_outcome bs).2 flaw

/-- Exactly the spellings of requests that can be sent, followed by anything, are read: each as
    its request, whose spelling is the bytes that the header covers. All other bytes are refused,
    with the flaw that is in them. -/
theorem decode_exactly (bs : Bytes) :
    (∀ r, check (decode bs) = .ok r ↔ r.Sound ∧ ∃ rest, bs = r.encode ++ rest) ∧
    (∀ r, check (decode bs) = .ok r → Frame.headerSize + Frame.announced bs ≤ bs.length ∧
      r.encode = bs.take (Frame.headerSize + Frame.announced bs)) ∧
    (∀ e, check (decode bs) = .error e ↔ ∃ flaw, Refusal bs flaw ∧ e = .protocol flaw.text) := by
  have read (r : Request) : check (decode bs) = .ok r ↔ r.Sound ∧ ∃ rest, bs = r.encode ++ rest := by
    rw [← decode_eq_ok_iff]
    cases decode bs <;> simp [check, Except.mapError]
  refine ⟨read, fun r accepted => ?_, fun e => ?_⟩
  · obtain ⟨sound, rest, rfl⟩ := (read r).mp accepted
    have spelled : Frame.headerSize + Frame.announced (r.encode ++ rest) = r.encode.length := by
      rw [encode, Frame.announced_encode sound.fits.lt, Frame.length_encode]
    rw [spelled, List.length_append, List.take_left]
    exact ⟨Nat.le_add_right _ _, rfl⟩
  · simp only [← decode_eq_error_iff]
    cases decode bs <;> simp [check, Except.mapError, Flaw.toError, eq_comm]

/-- An argument that is longer than what is left of the payload. -/
example : decode ([0x2A, 0, 0, 0, 9] ++ [0, 0, 0, 1] ++ [0, 0, 0, 2] ++ [7]) = .error (.shortArgument 0 2 1) := by
  decide

end Request
end Shiplog
