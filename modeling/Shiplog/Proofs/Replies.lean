import Shiplog.Proofs.Frames

/-!
Which bytes are read as a reply. Bytes spell a text when they are its bytes
(`Text.ofBytes?_eq_some`), and a word of eight bytes spells an integer, so every frame spells one
reply or is garbled (`Reply.frame_or_garbled`). A reply that can be sent is read from its own
bytes, whatever follows them, and from no others; all other bytes are refused, each with the flaw
that is in them (`Reply.decode_faithful`).
-/
namespace Shiplog

open Wire

namespace Text

variable {bs : Bytes} {text : String}

theorem toBytes_of_ofBytes? (read : ofBytes? bs = some text) : toBytes text = bs := by
  rw [ofBytes?, String.fromUTF8?] at read
  split at read
  · obtain rfl := Option.some.inj read
    rw [toBytes_eq]
    rfl
  · cases read

/-- A text has one spelling. -/
theorem ofBytes?_eq_some : ofBytes? bs = some text ↔ bs = toBytes text := by
  constructor
  · exact fun read => (toBytes_of_ofBytes? read).symm
  · rintro rfl
    exact ofBytes?_toBytes text

theorem ofBytes?_eq_none : ofBytes? bs = none ↔ ∀ text, bs ≠ toBytes text := by
  simp only [Option.eq_none_iff_forall_ne_some, ne_eq, ofBytes?_eq_some]

end Text

namespace Reply

variable {bs : Bytes} {flaw : Flaw} {f : Frame} {r : Reply}

/-! ## Frames -/

/-- What keeps a frame from spelling a reply: each flaw with the frames that have it. -/
inductive Garbled : Frame → Flaw → Prop
  | notReply {tag : UInt8} (other : 4 < tag) (payload : Bytes) : Garbled ⟨tag, payload⟩ (.notReply tag)
  | fullNull {payload : Bytes} (more : payload ≠ []) : Garbled ⟨1, payload⟩ (.fullNull payload.length)
  | integerWidth {payload : Bytes} (width : payload.length ≠ 8) : Garbled ⟨3, payload⟩ (.integerWidth payload.length)
  | notText {tag : UInt8} (textual : tag = 0 ∨ tag = 2) {payload : Bytes} (unreadable : ∀ text, payload ≠ Text.toBytes text) :
      Garbled ⟨tag, payload⟩ .notText

/-- A garbled frame is refused with its flaw. -/
theorem Garbled.ofFrame (garbled : Garbled f flaw) : Reply.ofFrame f = .error flaw := by
  cases garbled with
  | @notReply tag other payload =>
    have others : tag ≠ 0 ∧ tag ≠ 1 ∧ tag ≠ 2 ∧ tag ≠ 3 ∧ tag ≠ 4 := by grind
    simp [Reply.ofFrame, others]
  | fullNull more => simp [Reply.ofFrame, more]
  | integerWidth width => simp [Reply.ofFrame, width]
  | @notText tag textual payload unreadable =>
    have unread : readText payload = .error .notText := by rw [readText, Text.ofBytes?_eq_none.mpr unreadable]
    rcases textual with rfl | rfl <;> simp [Reply.ofFrame, unread, Except.map]

/-- Eight bytes spell an integer. -/
theorem exists_integer {payload : Bytes} (width : payload.length = 8) : ∃ value, frame (integer value) = ⟨3, payload⟩ := by
  refine ⟨(UInt64.ofNat (Bytes.toNatBE payload)).toInt64, ?_⟩
  have word : Bytes.toNatBE payload < 2 ^ 64 := by
    have bound := Bytes.toNatBE_lt payload
    rwa [width] at bound
  have same : Bytes.ofNatBE 8 (Bytes.toNatBE payload) = payload := by
    rw [← width]
    exact Bytes.ofNatBE_toNatBE payload
  have number : (UInt64.ofNat (Bytes.toNatBE payload)).toNat = Bytes.toNatBE payload := by
    rw [UInt64.toNat_ofNat', Nat.mod_eq_of_lt word]
  simp [frame, kind, Reply.payload, number, same]

/-- Bytes spell a text, or they are garbled as such. -/
theorem exists_text (payload : Bytes) : (∃ text, Text.toBytes text = payload) ∨ ∀ text, payload ≠ Text.toBytes text := by
  cases read : Text.ofBytes? payload with
  | some text => exact .inl ⟨text, Text.toBytes_of_ofBytes? read⟩
  | none => exact .inr (Text.ofBytes?_eq_none.mp read)

/-- A frame spells a reply, or it is garbled. -/
theorem frame_or_garbled (f : Frame) : (∃ r : Reply, r.frame = f) ∨ ∃ flaw, Garbled f flaw := by
  obtain ⟨tag, payload⟩ := f
  by_cases status_tag : tag = 0
  · subst status_tag
    rcases exists_text payload with ⟨text, rfl⟩ | unreadable
    · exact .inl ⟨.status text, rfl⟩
    · exact .inr ⟨_, .notText (.inl rfl) unreadable⟩
  by_cases null_tag : tag = 1
  · subst null_tag
    by_cases empty : payload = []
    · exact .inl ⟨.null, by rw [empty]; rfl⟩
    · exact .inr ⟨_, .fullNull empty⟩
  by_cases error_tag : tag = 2
  · subst error_tag
    rcases exists_text payload with ⟨text, rfl⟩ | unreadable
    · exact .inl ⟨.error text, rfl⟩
    · exact .inr ⟨_, .notText (.inr rfl) unreadable⟩
  by_cases integer_tag : tag = 3
  · subst integer_tag
    by_cases width : payload.length = 8
    · obtain ⟨value, same⟩ := exists_integer width
      exact .inl ⟨.integer value, same⟩
    · exact .inr ⟨_, .integerWidth width⟩
  by_cases bulk_tag : tag = 4
  · subst bulk_tag
    exact .inl ⟨.bulk payload, rfl⟩
  · exact .inr ⟨_, .notReply (by grind) payload⟩

theorem ofFrame_eq_ok_iff : ofFrame f = .ok r ↔ f = r.frame := by
  constructor
  · intro read
    rcases frame_or_garbled f with ⟨r', rfl⟩ | ⟨flaw, garbled⟩
    · rw [ofFrame_frame] at read
      rw [Except.ok.inj read]
    · cases garbled.ofFrame.symm.trans read
  · rintro rfl
    exact ofFrame_frame r

theorem encode_injective {r' : Reply} (same : r.encode = r'.encode) : r = r' := by
  have read := ofFrame_frame r
  rw [Frame.encode_injective same, ofFrame_frame] at read
  exact (Except.ok.inj read).symm

/-! ## Bytes -/

/-- Why no reply is read from some bytes: they begin with no frame, or with one that is garbled. -/
inductive Refusal : Bytes → Flaw → Prop
  | unframed {bs : Bytes} {flaw : Flaw} (refusal : Frame.Refusal bs flaw) : Refusal bs flaw
  | garbled {f : Frame} {flaw : Flaw} (fits : f.Fits) (garbled : Garbled f flaw) (rest : Bytes) :
      Refusal (f.encode ++ rest) flaw

theorem decode_append (fits : f.Fits) (rest : Bytes) : decode (f.encode ++ rest) = ofFrame f := by
  simp only [decode, Frame.decode_encode fits, bind, Except.bind]

/-- A reply that can be sent is read from its bytes, whatever follows. -/
theorem decode_encode (fits : r.frame.Fits) (rest : Bytes) : decode (r.encode ++ rest) = .ok r := by
  rw [encode, decode_append fits, ofFrame_frame]

/-- No reply's bytes begin with those of another. -/
theorem eq_of_prefix {r' : Reply} (fits : r.frame.Fits) (fits' : r'.frame.Fits) (part : r.encode <+: r'.encode) : r = r' := by
  obtain ⟨more, same⟩ := part
  have read := decode_encode fits' []
  rw [List.append_nil, ← same, decode_encode fits more] at read
  exact Except.ok.inj read

theorem Refusal.decode (refusal : Refusal bs flaw) : Reply.decode bs = .error flaw := by
  cases refusal with
  | unframed refusal => simp only [Reply.decode, refusal.decode, bind, Except.bind]
  | garbled fits garbled rest => rw [decode_append fits, garbled.ofFrame]

/-- Bytes begin with the spelling of a reply that can be sent, or they are refused. -/
theorem encode_or_refusal (bs : Bytes) :
    (∃ (r : Reply) (rest : Bytes), r.frame.Fits ∧ bs = r.encode ++ rest) ∨ ∃ flaw, Refusal bs flaw := by
  rcases Frame.encode_or_refusal bs with ⟨f, rest, fits, rfl⟩ | ⟨flaw, refusal⟩
  · rcases frame_or_garbled f with ⟨r, rfl⟩ | ⟨flaw, garbled⟩
    · exact .inl ⟨r, rest, fits, rfl⟩
    · exact .inr ⟨flaw, .garbled fits garbled rest⟩
  · exact .inr ⟨flaw, .unframed refusal⟩

/-- What reading some bytes gives, with its exact condition. -/
theorem decode_outcome (bs : Bytes) : (∀ r, decode bs = .ok r ↔ r.frame.Fits ∧ ∃ rest, bs = r.encode ++ rest) ∧
    ∀ flaw, decode bs = .error flaw ↔ Refusal bs flaw := by
  refine outcome_iff (fun bs r => r.frame.Fits ∧ ∃ rest, bs = r.encode ++ rest) Refusal ?_ (fun _ _ => Refusal.decode) ?_ bs
  · rintro _ r ⟨fits, rest, rfl⟩
    exact decode_encode fits rest
  · exact fun bs => (encode_or_refusal bs).imp_left fun ⟨r, rest, fits, same⟩ => ⟨r, fits, rest, same⟩

theorem decode_eq_ok_iff : decode bs = .ok r ↔ r.frame.Fits ∧ ∃ rest, bs = r.encode ++ rest :=
  (decode_outcome bs).1 r

theorem decode_eq_error_iff : decode bs = .error flaw ↔ Refusal bs flaw :=
  (decode_outcome bs).2 flaw

/-- Exactly the spellings of replies that can be sent, followed by anything, are read: each as its
    reply, whose spelling is the bytes that the header covers. All other bytes are refused, with
    the flaw that is in them. -/
theorem decode_faithful (bs : Bytes) :
    (∀ r, check (decode bs) = .ok r ↔ r.frame.Fits ∧ ∃ rest, bs = r.encode ++ rest) ∧
    (∀ r, check (decode bs) = .ok r → Frame.headerSize + Frame.announced bs ≤ bs.length ∧
      r.encode = bs.take (Frame.headerSize + Frame.announced bs)) ∧
    (∀ e, check (decode bs) = .error e ↔ ∃ flaw, Refusal bs flaw ∧ e = .protocol flaw.text) := by
  refine ⟨fun r => check_eq_ok_iff.trans decode_eq_ok_iff, fun r read => ?_, fun e => ?_⟩
  · obtain ⟨fits, rest, rfl⟩ := decode_eq_ok_iff.mp (check_eq_ok_iff.mp read)
    have covered : Frame.headerSize + Frame.announced (r.encode ++ rest) = r.encode.length :=
      Frame.announced_eq_length fits rest
    rw [covered, List.length_append, List.take_left]
    exact ⟨Nat.le_add_right _ _, rfl⟩
  · simp only [check_eq_error_iff, decode_eq_error_iff]

/-- The lowest integer, and a text that is cut off inside a character. -/
example : decode [3, 0, 0, 0, 8, 0x80, 0, 0, 0, 0, 0, 0, 0] = .ok (.integer Int64.minValue) ∧
    decode [0, 0, 0, 0, 1, 0xC3] = .error .notText := by
  decide

end Reply
end Shiplog
