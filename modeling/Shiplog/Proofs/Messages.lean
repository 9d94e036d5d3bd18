import Shiplog.Connection
import Shiplog.Proofs.Layouts

/-!
Messages read back what was written. A stream that begins with the bytes of a frame
gives the frame and leaves what follows; any other stream ends inside its first frame or
announces one too long (`Frame.front_cases`). The frame of a request spells the request, and
every other frame is garbled (`Request.frame_or_garbled`) and is refused with its flaw
(`Request.Garbled.ofFrame`); the frame of a reply spells the reply (`Reply.ofFrame_frame`). The
flaws that readers find are reported in short texts, so the reports can be sent
(`Reply.fits_report`).
-/
namespace Shiplog

open Wire

/-! ## Text -/

namespace Text

private theorem toList_loop (bs : ByteArray) (i : Nat) (read : List UInt8) :
    ByteArray.toList.loop bs i read = read.reverse ++ bs.data.toList.drop i := by
  fun_induction ByteArray.toList.loop bs i read with
  | case1 i read inside ih =>
    have within : i < bs.data.toList.length := by simpa using inside
    have next : bs.get! i = bs.data.toList[i] := by simp [ByteArray.get!, inside]
    rw [ih, List.reverse_cons, List.append_assoc, List.drop_eq_getElem_cons within, next]
    rfl
  | case2 i read outside =>
    rw [List.drop_eq_nil_of_le (by simpa using outside), List.append_nil]

theorem toBytes_eq (text : String) : toBytes text = text.toByteArray.data.toList := by
  rw [toBytes, ByteArray.toList, toList_loop]
  rfl

/-- The bytes of a text spell the text. -/
theorem ofBytes?_toBytes (text : String) : ofBytes? (toBytes text) = some text := by
  have bytes : (⟨(toBytes text).toArray⟩ : ByteArray) = text.toByteArray := by
    rw [toBytes_eq, Array.toArray_toList]
  rw [ofBytes?, bytes, String.fromUTF8?, dif_pos text.isValidUTF8]
  rfl

/-- No character takes more than four bytes. -/
theorem length_toBytes_le (text : String) : (toBytes text).length ≤ 4 * text.length := by
  have chars (cs : List Char) : String.utf8Len cs ≤ 4 * cs.length := by
    induction cs with
    | nil => simp
    | cons c cs ih =>
      have size := Char.utf8Size_le_four c
      rw [String.utf8Len_cons, List.length_cons]
      omega
  have bytes : (toBytes text).length = String.utf8Len text.toList := by
    rw [toBytes_eq, ← String.utf8ByteSize_ofList, String.ofList_toList]
    rfl
  rw [bytes, ← String.length_toList]
  exact chars _

/-- Reading leniently, every character takes a byte or more. -/
theorem length_lossy_le (bs : Bytes) : (lossy bs).length ≤ bs.length := by
  rw [lossy, String.length_ofList]
  fun_induction lossyChars bs with
  | case1 => exact Nat.le_refl 0
  | case2 first rest _ ih => simpa using ih
  | case3 first rest ranges _ taken ih =>
    rw [List.length_drop] at ih
    simp only [List.length_cons]
    omega

end Text

/-! ## Frames -/

namespace Wire

namespace Flaw

/-- The numbers that a flaw reports. -/
def numbers : Flaw → List Nat
  | shortHeader n | tooLarge n | trailing n | fullNull n | integerWidth n => [n]
  | shortPayload m n => [m, n]
  | shortArgument l m n => [l, m, n]
  | _ => []

/-- Every number that a flaw reports fits a word. -/
def Small (flaw : Flaw) : Prop :=
  ∀ n ∈ flaw.numbers, n < 2 ^ 64

variable {flaw : Flaw}

theorem Small.of_numbers (none : flaw.numbers = []) : flaw.Small := by
  simp [Small, none]

/-- The texts of flaws are short. -/
theorem length_text_le (small : flaw.Small) : flaw.text.length ≤ 128 := by
  have digits {n : Nat} (word : n < 2 ^ 64) : (toString n).length ≤ 20 :=
    Nat.repr_length n 20 (by decide) (by omega)
  have pair (b : UInt8) : (Hex.ofBytes [b]).length ≤ 2 := by simp [Hex.ofBytes, Hex.ofByte, Hex.digits]
  have part (s : String) : s.length ≤ s.length := Nat.le_refl _
  have join {s t : String} {m n : Nat} (first : s.length ≤ m) (second : t.length ≤ n) : (s ++ t).length ≤ m + n := by
    rw [String.length_append]
    exact Nat.add_le_add first second
  unfold text
  cases flaw <;>
    simp only [Small, numbers, List.mem_cons, List.not_mem_nil, or_false, forall_eq_or_imp, forall_eq] at small
  case shortHeader length =>
    exact (join (join (join (part _) (digits (by decide))) (part _)) (digits small)).trans (by decide)
  case tooLarge length =>
    exact (join (join (join (join (part _) (digits small)) (part _)) (digits (by decide))) (part _)).trans (by decide)
  case shortPayload expected length =>
    exact (join (join (join (part _) (digits small.1)) (part _)) (digits small.2)).trans (by decide)
  case notRequest kind => exact (join (part _) (pair kind)).trans (by decide)
  case shortArgument index expected length =>
    exact (join (join (join (join (join (join (part _) (digits small.1)) (part _)) (digits small.2.1)) (part _))
      (digits small.2.2)) (part _)).trans (by decide)
  case trailing length => exact (join (join (part _) (digits small)) (part _)).trans (by decide)
  case fullNull length => exact (join (join (part _) (digits small)) (part _)).trans (by decide)
  case integerWidth length => exact (join (part _) (digits small)).trans (by decide)
  case notReply kind => exact (join (part _) (pair kind)).trans (by decide)
  all_goals decide

end Flaw

variable {taken rest stream : Bytes} {n : Nat}

theorem perform_take_of_le (enough : n ≤ stream.length) :
    (take n).perform stream = (.ok (stream.take n), stream.drop n) := by
  rw [take, Action.perform_ofStep, if_pos ((Bytes.atLeast_iff n stream).mpr enough)]

theorem perform_take_append (length : taken.length = n) :
    (take n).perform (taken ++ rest) = (.ok taken, rest) := by
  rw [perform_take_of_le (by rw [List.length_append]; omega), ← length, List.take_left, List.drop_left]

theorem perform_take_of_lt (short : stream.length < n) :
    (take n).perform stream = (.error (.io .unexpectedEof), []) := by
  have less : ¬ Bytes.atLeast n stream = true := by
    rw [Bytes.atLeast_iff]
    exact Nat.not_le.mpr short
  rw [take, Action.perform_ofStep, if_neg less]

end Wire

namespace Frame

variable {f : Frame} {stream : Bytes}

/-- The frame is not too long to be read. -/
def Fits (f : Frame) : Prop :=
  f.payload.length ≤ maxPayload

instance (f : Frame) : Decidable f.Fits :=
  inferInstanceAs (Decidable (f.payload.length ≤ maxPayload))

/-- A stream that ends inside its first frame: before the end of the header, or of the
    payload that the header announces. -/
def Cut (stream : Bytes) : Prop :=
  stream.length < headerSize ∨ announced stream ≤ maxPayload ∧ stream.length < headerSize + announced stream

/-- A stream whose first header announces a payload that is too long. -/
def Oversized (stream : Bytes) : Prop :=
  headerSize ≤ stream.length ∧ maxPayload < announced stream

def header (f : Frame) : Bytes :=
  f.kind :: Bytes.ofNatBE 4 f.payload.length

theorem encode_eq (f : Frame) : f.encode = f.header ++ f.payload := rfl

theorem length_header (f : Frame) : f.header.length = headerSize := by
  simp [header, headerSize]

theorem Fits.lt (fits : f.Fits) : f.payload.length < 2 ^ 32 :=
  Nat.lt_of_le_of_lt fits (by decide)

theorem announced_header (short : f.payload.length < 2 ^ 32) : announced f.header = f.payload.length := by
  rw [announced, header, List.drop_succ_cons, List.drop_zero, List.take_of_length_le (by simp), Bytes.toNatBE_ofNatBE]
  exact Nat.mod_eq_of_lt short

theorem announced_take (stream : Bytes) : announced (stream.take headerSize) = announced stream := by
  rw [announced, announced, headerSize, List.drop_take, List.take_take]
  rfl

theorem announced_lt (stream : Bytes) : announced stream < 2 ^ 32 := by
  have few : ((stream.drop 1).take 4).length ≤ 4 := by simp
  calc announced stream < 256 ^ ((stream.drop 1).take 4).length := Bytes.toNatBE_lt _
    _ ≤ 256 ^ 4 := Nat.pow_le_pow_right (by decide) few
    _ = 2 ^ 32 := by decide

/-- The check of a length as a step of a reader. -/
theorem perform_check_ok {length : Nat} (short : length ≤ maxPayload) (stream : Bytes) :
    (Action.ofExcept ((checkLength length).mapError Flaw.toError)).perform stream = (.ok (), stream) := by
  rw [checkLength, if_neg (Nat.not_lt.mpr short)]
  rfl

theorem perform_check_error {length : Nat} (long : maxPayload < length) (stream : Bytes) :
    (Action.ofExcept ((checkLength length).mapError Flaw.toError)).perform stream =
      (.error (Flaw.tooLarge length).toError, stream) := by
  rw [checkLength, if_pos long]
  rfl

/-- A frame at the front of a stream is read whole, and what follows is left. -/
theorem perform_receive_encode (fits : f.Fits) (rest : Bytes) :
    (receive Wire.take).perform (f.encode ++ rest) = (.ok f, rest) := by
  rw [receive, encode_eq, List.append_assoc, Action.perform_bind_ok (perform_take_append f.length_header),
    announced_header fits.lt, Action.perform_bind_ok (perform_check_ok fits _),
    Action.perform_bind_ok (perform_take_append rfl)]
  rfl

/-- Of a stream that ends inside its first frame nothing is left. -/
theorem perform_receive_of_cut (cut : Cut stream) :
    (receive Wire.take).perform stream = (.error (.io .unexpectedEof), []) := by
  by_cases short : stream.length < headerSize
  · rw [receive, Action.perform_bind_error (perform_take_of_lt short)]
  · obtain ⟨fits, part⟩ := cut.resolve_left short
    have body : (take (announced stream)).perform (stream.drop headerSize) = (.error (.io .unexpectedEof), []) :=
      perform_take_of_lt (by rw [List.length_drop]; omega)
    rw [receive, Action.perform_bind_ok (perform_take_of_le (Nat.le_of_not_lt short)), announced_take,
      Action.perform_bind_ok (perform_check_ok fits _), Action.perform_bind_error body]

/-- Of a frame that is too long nothing but the header is read. -/
theorem perform_receive_of_oversized (large : Oversized stream) :
    (receive Wire.take).perform stream =
      (.error (Flaw.tooLarge (announced stream)).toError, stream.drop headerSize) := by
  rw [receive, Action.perform_bind_ok (perform_take_of_le large.1), announced_take,
    Action.perform_bind_error (perform_check_error large.2 _)]

/-- A stream that holds as many bytes as its header announces begins with a frame. -/
theorem exists_front (header : headerSize ≤ stream.length) (whole : headerSize + announced stream ≤ stream.length) :
    ∃ f rest, f.payload.length = announced stream ∧ stream = encode f ++ rest := by
  match stream, header with
  | kind :: behind, header =>
    have four : (behind.take 4).length = 4 := by
      simp only [headerSize, List.length_cons] at header
      simp
      omega
    have enough : announced (kind :: behind) ≤ (behind.drop 4).length := by
      simp only [headerSize, List.length_cons] at whole
      rw [List.length_drop]
      omega
    have word : Bytes.ofNatBE 4 (announced (kind :: behind)) = behind.take 4 := by
      have same := Bytes.ofNatBE_toNatBE (behind.take 4)
      rwa [four] at same
    have length : ((behind.drop 4).take (announced (kind :: behind))).length = announced (kind :: behind) := by
      rw [List.length_take]
      omega
    refine ⟨⟨kind, (behind.drop 4).take (announced (kind :: behind))⟩,
      (behind.drop 4).drop (announced (kind :: behind)), length, ?_⟩
    rw [encode, length, word, List.cons_append, List.cons_append, List.append_assoc, List.take_append_drop,
      List.take_append_drop]

/-- What a stream begins with: part of a frame, a header of one that is too long, or a
    whole frame. -/
theorem front_cases (stream : Bytes) :
    Cut stream ∨ Oversized stream ∨ ∃ f rest, Fits f ∧ stream = f.encode ++ rest := by
  by_cases short : stream.length < headerSize
  · exact .inl (.inl short)
  · by_cases large : maxPayload < announced stream
    · exact .inr (.inl ⟨Nat.le_of_not_lt short, large⟩)
    · by_cases part : stream.length < headerSize + announced stream
      · exact .inl (.inr ⟨Nat.le_of_not_lt large, part⟩)
      · obtain ⟨f, rest, length, same⟩ := exists_front (Nat.le_of_not_lt short) (Nat.le_of_not_lt part)
        have fits : f.Fits := by
          rw [Fits, length]
          exact Nat.le_of_not_lt large
        exact .inr (.inr ⟨f, rest, fits, same⟩)

end Frame

/-! ## Requests -/

namespace Request

variable {bs rest : Bytes} {flaw : Flaw} {f : Frame} {r : Request}

/-- A number is read from the four bytes that spell it. -/
theorem takeNat_encodeNat {n : Nat} (word : n < 2 ^ 32) : takeNat flaw (encodeNat n ++ rest) = .ok (n, rest) := by
  have four : (Bytes.ofNatBE 4 n).length = 4 := Bytes.length_ofNatBE 4 n
  have enough : Bytes.atLeast 4 (Bytes.ofNatBE 4 n ++ rest) = true := by simp [Bytes.atLeast_iff]
  rw [takeNat, encodeNat, if_pos enough, List.take_left' four, List.drop_left' four, Bytes.toNatBE_ofNatBE,
    Nat.mod_eq_of_lt (by simpa using word)]

theorem takeNat_of_short (short : bs.length < 4) : takeNat flaw bs = .error flaw := by
  rw [takeNat, if_neg]
  rw [Bytes.atLeast_iff]
  exact Nat.not_le.mpr short

/-- Four bytes spell a number. -/
theorem takeNat_cases (bs : Bytes) : (∃ n rest, n < 2 ^ 32 ∧ bs = encodeNat n ++ rest) ∨ bs.length < 4 := by
  by_cases enough : 4 ≤ bs.length
  · have four : (bs.take 4).length = 4 := by simpa using enough
    refine .inl ⟨Bytes.toNatBE (bs.take 4), bs.drop 4, ?_, ?_⟩
    · have word := Bytes.toNatBE_lt (bs.take 4)
      rwa [four] at word
    · have same := Bytes.ofNatBE_toNatBE (bs.take 4)
      rw [four] at same
      rw [encodeNat, same, List.take_append_drop]
  · exact .inr (Nat.lt_of_not_le enough)

variable {index n : Nat} {arg : Bytes} {args : List Bytes}

/-- An argument at the front is read first. -/
theorem takeArgs_encodeArg (short : arg.length < 2 ^ 32) :
    takeArgs index (n + 1) (encodeArg arg ++ rest) =
      (takeArgs (index + 1) n rest).map fun read => (arg :: read.1, read.2) := by
  have length : takeNat .noLength (encodeArg arg ++ rest) = .ok (arg.length, arg ++ rest) := by
    rw [encodeArg, List.append_assoc, takeNat_encodeNat short]
  have enough : Bytes.atLeast arg.length (arg ++ rest) = true := by simp [Bytes.atLeast_iff]
  simp only [takeArgs, length, bind, Except.bind, enough, List.take_left, List.drop_left, if_true]
  cases takeArgs (index + 1) n rest <;> rfl

/-- Bytes that begin with no argument, with the flaw found in them: they end before the length
    of the argument or inside it. -/
inductive Cropped (index : Nat) : Bytes → Flaw → Prop
  | noLength {behind : Bytes} (short : behind.length < 4) : Cropped index behind .noLength
  | shortArgument {length : Nat} {behind : Bytes} (word : length < 2 ^ 32) (short : behind.length < length) :
      Cropped index (encodeNat length ++ behind) (.shortArgument index length behind.length)

theorem Cropped.takeArgs (cropped : Cropped index bs flaw) (n : Nat) : Request.takeArgs index (n + 1) bs = .error flaw := by
  cases cropped with
  | noLength short => simp only [Request.takeArgs, takeNat_of_short short, bind, Except.bind]
  | @shortArgument length behind word short =>
    have less : Bytes.atLeast length behind = false := by
      rw [← Bool.not_eq_true, Bytes.atLeast_iff]
      exact Nat.not_le.mpr short
    simp only [Request.takeArgs, takeNat_encodeNat word, bind, Except.bind, less]
    rfl

/-- Bytes begin with an argument, or they are cropped. -/
theorem takeArg_cases (index : Nat) (bs : Bytes) :
    (∃ arg rest, arg.length < 2 ^ 32 ∧ bs = encodeArg arg ++ rest) ∨ ∃ flaw, Cropped index bs flaw := by
  rcases takeNat_cases bs with ⟨length, rest, word, rfl⟩ | short
  · by_cases enough : length ≤ rest.length
    · have taken : (rest.take length).length = length := by simpa using enough
      refine .inl ⟨rest.take length, rest.drop length, by rwa [taken], ?_⟩
      rw [encodeArg, taken, List.append_assoc, List.take_append_drop]
    · exact .inr ⟨_, .shortArgument word (Nat.lt_of_not_le enough)⟩
  · exact .inr ⟨_, .noLength short⟩

/-- Arguments at the front are read first. -/
theorem takeArgs_append (shorts : ∀ arg ∈ args, arg.length < 2 ^ 32) :
    takeArgs index (args.length + n) (args.flatMap encodeArg ++ rest) =
      (takeArgs (index + args.length) n rest).map fun read => (args ++ read.1, read.2) := by
  induction args generalizing index with
  | nil =>
    simp only [List.length_nil, List.flatMap_nil, List.nil_append, Nat.zero_add, Nat.add_zero]
    cases takeArgs index n rest <;> rfl
  | cons arg args ih =>
    rw [List.forall_mem_cons] at shorts
    rw [List.flatMap_cons, List.append_assoc, List.length_cons, Nat.add_right_comm, takeArgs_encodeArg shorts.1,
      ih shorts.2, Nat.add_right_comm index]
    cases takeArgs (index + args.length + 1) n rest <;> rfl

/-- Arguments are read from the bytes that spell them. -/
theorem takeArgs_flatMap (shorts : ∀ arg ∈ args, arg.length < 2 ^ 32) :
    takeArgs index args.length (args.flatMap encodeArg ++ rest) = .ok (args, rest) := by
  have all : takeArgs index (args.length + 0) (args.flatMap encodeArg ++ rest) = _ := takeArgs_append shorts
  simpa [takeArgs, Except.map] using all

/-- Bytes spell as many arguments as are asked for, or they are cropped behind some of these. -/
theorem takeArgs_cases (index n : Nat) (bs : Bytes) :
    ∃ (args : List Bytes) (rest : Bytes), (∀ arg ∈ args, arg.length < 2 ^ 32) ∧ bs = args.flatMap encodeArg ++ rest ∧
      (args.length = n ∨ args.length < n ∧ ∃ flaw, Cropped (index + args.length) rest flaw) := by
  induction n generalizing index bs with
  | zero => exact ⟨[], bs, by simp, rfl, .inl rfl⟩
  | succ n ih =>
    rcases takeArg_cases index bs with ⟨arg, behind, short, rfl⟩ | cropped
    · obtain ⟨args, rest, shorts, rfl, ends⟩ := ih (index + 1) behind
      refine ⟨arg :: args, rest, List.forall_mem_cons.mpr ⟨short, shorts⟩, ?_, ?_⟩
      · rw [List.flatMap_cons, List.append_assoc]
      · rwa [List.length_cons, Nat.add_right_cancel_iff, Nat.add_lt_add_iff_right, ← Nat.add_assoc,
          Nat.add_right_comm index]
    · exact ⟨[], bs, by simp, rfl, .inr ⟨Nat.succ_pos n, cropped⟩⟩

/-- The lengths of a request fit the words that they are written in. -/
structure Counted (r : Request) : Prop where
  args : r.args.length < 2 ^ 32
  arg : ∀ arg ∈ r.args, arg.length < 2 ^ 32

/-- What keeps a frame from spelling a request: each flaw with the frames that have it. -/
inductive Garbled : Frame → Flaw → Prop
  | notRequest {tag : UInt8} (other : tag ≠ kind) (payload : Bytes) : Garbled ⟨tag, payload⟩ (.notRequest tag)
  | noCount {payload : Bytes} (short : payload.length < 4) : Garbled ⟨kind, payload⟩ .noCount
  | noArguments (behind : Bytes) : Garbled ⟨kind, encodeNat 0 ++ behind⟩ .noArguments
  | cropped {count : Nat} {args : List Bytes} {behind : Bytes} {flaw : Flaw} (word : count < 2 ^ 32)
      (shorts : ∀ arg ∈ args, arg.length < 2 ^ 32) (fewer : args.length < count)
      (cropped : Cropped args.length behind flaw) :
      Garbled ⟨kind, encodeNat count ++ (args.flatMap encodeArg ++ behind)⟩ flaw
  | trailing {args : List Bytes} {behind : Bytes} (named : args ≠ []) (counted : Counted ⟨args⟩) (more : behind ≠ []) :
      Garbled ⟨kind, encodeNat args.length ++ (args.flatMap encodeArg ++ behind)⟩ (.trailing behind.length)

/-- What is left of a frame's reader once the kind and the count are read. -/
theorem ofFrame_count {count : Nat} (word : count < 2 ^ 32) (pos : count ≠ 0) (bs : Bytes) :
    ofFrame ⟨kind, encodeNat count ++ bs⟩ = (takeArgs 0 count bs).bind fun read =>
      if read.2 = [] then .ok ⟨read.1⟩ else .error (.trailing read.2.length) := by
  simp only [ofFrame, takeNat_encodeNat word, bind, Except.bind, pos, ne_eq, not_true_eq_false, if_false]
  cases takeArgs 0 count bs with
  | error flaw => rfl
  | ok read => by_cases whole : read.2 = [] <;> simp [whole] <;> rfl

/-- The frame of a request with an argument spells the request. -/
theorem ofFrame_frame (some_args : r.args ≠ []) (counted : r.Counted) : ofFrame r.frame = .ok r := by
  have pos : r.args.length ≠ 0 := by simpa using some_args
  have args : takeArgs 0 r.args.length (r.args.flatMap encodeArg ++ []) = .ok (r.args, []) :=
    takeArgs_flatMap counted.arg
  rw [List.append_nil] at args
  rw [frame, ofFrame_count counted.args pos, args]
  rfl

/-- A garbled frame is refused with its flaw. -/
theorem Garbled.ofFrame (garbled : Garbled f flaw) : Request.ofFrame f = .error flaw := by
  cases garbled with
  | notRequest other payload =>
    simp only [Request.ofFrame, bind, Except.bind, ne_eq, other, not_false_eq_true, if_true]
    rfl
  | noCount short =>
    simp only [Request.ofFrame, takeNat_of_short short, bind, Except.bind, ne_eq, not_true_eq_false, if_false]
  | noArguments behind =>
    simp only [Request.ofFrame, takeNat_encodeNat (Nat.two_pow_pos 32), bind, Except.bind, ne_eq, not_true_eq_false, if_false]
    rfl
  | @cropped count args behind _ word shorts fewer cropped =>
    obtain ⟨n, rfl⟩ := Nat.exists_eq_add_of_lt fewer
    have stops := cropped.takeArgs n
    rw [← Nat.zero_add args.length] at stops
    rw [ofFrame_count word (by omega), Nat.add_assoc, takeArgs_append shorts, stops]
    rfl
  | trailing named counted more =>
    rw [ofFrame_count counted.args (by simpa using named), takeArgs_flatMap counted.arg]
    exact if_neg more

/-- A frame spells a request, or it is garbled. -/
theorem frame_or_garbled (f : Frame) :
    (∃ r : Request, r.frame = f ∧ r.args ≠ [] ∧ r.Counted) ∨ ∃ flaw, Garbled f flaw := by
  obtain ⟨tag, payload⟩ := f
  by_cases same : tag = kind
  · subst same
    rcases takeNat_cases payload with ⟨count, behind, word, rfl⟩ | short
    · by_cases pos : count = 0
      · subst pos
        exact .inr ⟨_, .noArguments behind⟩
      · obtain ⟨args, rest, shorts, rfl, rfl | ⟨fewer, flaw, cropped⟩⟩ := takeArgs_cases 0 count behind
        · have named : args ≠ [] := by simpa using pos
          by_cases whole : rest = []
          · subst whole
            refine .inl ⟨⟨args⟩, ?_, named, word, shorts⟩
            rw [frame, List.append_nil]
          · exact .inr ⟨_, .trailing named ⟨word, shorts⟩ whole⟩
        · rw [Nat.zero_add] at cropped
          exact .inr ⟨_, .cropped word shorts fewer cropped⟩
    · exact .inr ⟨_, .noCount short⟩
  · exact .inr ⟨_, .notRequest same payload⟩

/-- The numbers that are reported of a frame are bounded by its length and its counts. -/
theorem Garbled.small (garbled : Garbled f flaw) (fits : f.Fits) : flaw.Small := by
  have all := fits.lt
  cases garbled with
  | notRequest | noCount | noArguments => exact .of_numbers rfl
  | cropped word _ fewer cropped =>
    cases cropped with
    | noLength => exact .of_numbers rfl
    | shortArgument word short =>
      simp only [Flaw.Small, Flaw.numbers, List.mem_cons, List.not_mem_nil, or_false, forall_eq_or_imp, forall_eq]
      omega
  | trailing =>
    simp only [Flaw.Small, Flaw.numbers, List.mem_cons, List.not_mem_nil, or_false, forall_eq]
    simp only [List.length_append] at all
    omega

/-- A frame that spells no request is refused. -/
theorem ofFrame_cases (f : Frame) : (∃ r : Request, r.frame = f ∧ r.args ≠ [] ∧ r.Counted) ∨
    ∃ flaw, ofFrame f = .error flaw ∧ (f.Fits → flaw.Small) :=
  (frame_or_garbled f).imp_right fun ⟨flaw, garbled⟩ => ⟨flaw, garbled.ofFrame, garbled.small⟩

/-- A request that can be sent: it names a command, and its frame is not too long. -/
structure Sound (r : Request) : Prop where
  named : r.args ≠ []
  fits : r.frame.Fits

theorem length_le_of_mem {arg : Bytes} {args : List Bytes} (member : arg ∈ args) :
    arg.length ≤ (args.flatMap encodeArg).length := by
  obtain ⟨before, after, rfl⟩ := List.append_of_mem member
  simp only [List.flatMap_append, List.flatMap_cons, List.length_append, encodeArg]
  omega

theorem length_args_le (args : List Bytes) : args.length ≤ (args.flatMap encodeArg).length := by
  induction args with
  | nil => exact Nat.le_refl 0
  | cons arg args ih =>
    simp only [List.flatMap_cons, List.length_cons, List.length_append, encodeArg, encodeNat, Bytes.length_ofNatBE]
    omega

/-- The payload bounds all lengths in it. -/
theorem counted_of_fits (fits : r.frame.Fits) : r.Counted := by
  have all := fits.lt
  simp only [frame, List.length_append] at all
  constructor
  · have few := length_args_le r.args
    omega
  · intro arg member
    have short := length_le_of_mem member
    omega

/-- A sound request at the front of a stream is read, and what follows is left. -/
theorem perform_receive_encode (sound : r.Sound) (rest : Bytes) :
    (receive Wire.take).perform (r.encode ++ rest) = (.ok r, rest) := by
  rw [receive, encode, Action.perform_bind_ok (Frame.perform_receive_encode sound.fits rest),
    ofFrame_frame sound.named (counted_of_fits sound.fits)]
  rfl

end Request

/-! ## Replies -/

namespace Reply

variable {r : Reply}

/-- The frame of a reply spells the reply. -/
theorem ofFrame_frame (r : Reply) : ofFrame r.frame = .ok r := by
  cases r with
  | status text => simp [ofFrame, frame, kind, payload, readText, Text.ofBytes?_toBytes, Except.map]
  | null => simp [ofFrame, frame, kind, payload]
  | error text => simp [ofFrame, frame, kind, payload, readText, Text.ofBytes?_toBytes, Except.map]
  | integer value =>
    have word : Bytes.toNatBE (Bytes.ofNatBE 8 value.toUInt64.toNat) = value.toUInt64.toNat := by
      rw [Bytes.toNatBE_ofNatBE]
      exact Nat.mod_eq_of_lt value.toUInt64.toNat_lt
    simp [ofFrame, frame, kind, payload, word]
  | bulk data => simp [ofFrame, frame, kind, payload]

/-- A reply at the front of a stream is read, and what follows is left. -/
theorem perform_receive_encode (fits : r.frame.Fits) (rest : Bytes) :
    (receive Wire.take).perform (r.encode ++ rest) = (.ok r, rest) := by
  rw [receive, encode, Action.perform_bind_ok (Frame.perform_receive_encode fits rest), ofFrame_frame]
  rfl

/-- A report of a flaw can be sent. -/
theorem fits_report {flaw : Flaw} (small : flaw.Small) : (error flaw.toError.message).frame.Fits := by
  have short := Flaw.length_text_le small
  have bytes := Text.length_toBytes_le flaw.toError.message
  have whole : flaw.toError.message.length = 16 + flaw.text.length := String.length_append _ _
  simp only [Frame.Fits, frame, payload, Frame.maxPayload]
  omega

end Reply
end Shiplog
