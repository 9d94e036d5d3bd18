import Shiplog.Proofs.Pages

/-!
What the checksum of a page detects. A shift of the register is linear in exclusive or
(`shift_xor`) and loses nothing (`shift_injective`), and up to four bytes reach the
register as one word (`register_eq_iterate`). So byte strings that differ in a run of at
most four bytes have different checks, whatever stands before and after the run
(`crc32_ne_of_alikeBut`), and a page scratched in such a run, or in its checksum field, is
refused (`Page.Scratched.decode`).
-/
namespace Shiplog

namespace Bytes

/-- Two byte strings are the same but for the `count` bytes from `first` on. -/
def AlikeBut (first count : Nat) (xs ys : Bytes) : Prop :=
  ∀ i, i < first ∨ first + count ≤ i → xs[i]? = ys[i]?

variable {first count : Nat} {xs ys : Bytes}

theorem AlikeBut.take (alike : AlikeBut first count xs ys) : xs.take first = ys.take first := by
  refine List.ext_getElem? fun i => ?_
  rw [List.getElem?_take, List.getElem?_take]
  split
  · rename_i before
    exact alike i (.inl before)
  · rfl

theorem AlikeBut.drop (alike : AlikeBut first count xs ys) : xs.drop (first + count) = ys.drop (first + count) := by
  refine List.ext_getElem? fun i => ?_
  rw [List.getElem?_drop, List.getElem?_drop]
  exact alike _ (.inr (Nat.le_add_right _ _))

end Bytes

namespace Checksum

/-! ## One shift -/

theorem odd_iff (r : UInt32) : r &&& 1 = 1 ↔ r.toNat % 2 = 1 := by
  rw [← UInt32.toNat_inj, UInt32.toNat_and]
  change r.toNat &&& 1 = 1 ↔ _
  rw [Nat.and_one_is_mod]

theorem toNat_half (r : UInt32) : (r >>> 1).toNat = r.toNat / 2 := by
  rw [UInt32.toNat_shiftRight]
  exact Nat.shiftRight_one r.toNat

theorem shift_xor (r s : UInt32) : shift (r ^^^ s) = shift r ^^^ shift s := by
  have sum : (r ^^^ s).toNat % 2 = (r.toNat + s.toNat) % 2 := by
    rw [UInt32.toNat_xor, Nat.xor_mod_two_eq]
  simp only [shift, odd_iff, sum, UInt32.shiftRight_xor]
  rcases Nat.mod_two_eq_zero_or_one r.toNat with r_even | r_odd <;>
    rcases Nat.mod_two_eq_zero_or_one s.toNat with s_even | s_odd
  · simp [r_even, s_even, Nat.add_mod]
  · simp [r_even, s_odd, Nat.add_mod, UInt32.xor_assoc]
  · simp [r_odd, s_even, Nat.add_mod, UInt32.xor_assoc, UInt32.xor_comm polynomial]
  · have twice : r >>> 1 ^^^ polynomial ^^^ (s >>> 1 ^^^ polynomial) = r >>> 1 ^^^ s >>> 1 := by
      rw [UInt32.xor_comm (s >>> 1), UInt32.xor_assoc, ← UInt32.xor_assoc polynomial, UInt32.xor_self, UInt32.zero_xor]
    simp [r_odd, s_odd, Nat.add_mod, twice]

/-- Only an empty register is empty after a shift. -/
theorem shift_eq_zero {r : UInt32} (empty : shift r = 0) : r = 0 := by
  have word := r.toNat_lt
  have half := toNat_half r
  by_cases odd : r &&& 1 = 1
  · -- Half a register lacks the highest bit, which the generator has.
    rw [shift, if_pos odd, UInt32.xor_eq_zero_iff] at empty
    rw [empty, show polynomial.toNat = 0xEDB88320 from rfl] at half
    omega
  · rw [shift, if_neg odd] at empty
    rw [odd_iff] at odd
    rw [empty, show (0 : UInt32).toNat = 0 from rfl] at half
    exact UInt32.toNat_inj.mp (show r.toNat = 0 by omega)

theorem shift_injective : Function.Injective shift := by
  intro r s same
  have apart : shift (r ^^^ s) = 0 := by rw [shift_xor, same, UInt32.xor_self]
  exact UInt32.xor_eq_zero_iff.mp (shift_eq_zero apart)

/-- A clear lowest bit is shifted out. -/
theorem shift_double {n : Nat} (small : 2 * n < 2 ^ 32) : shift (UInt32.ofNat (2 * n)) = UInt32.ofNat n := by
  have whole : (UInt32.ofNat (2 * n)).toNat = 2 * n := UInt32.toNat_ofNat_of_lt' small
  have even : ¬ UInt32.ofNat (2 * n) &&& 1 = 1 := by
    rw [odd_iff, whole]
    omega
  rw [shift, if_neg even, ← UInt32.toNat_inj, toNat_half, whole, UInt32.toNat_ofNat_of_lt' (show n < 2 ^ 32 by omega)]
  omega

/-! ## Many shifts -/

theorem iterate_shift_xor (n : Nat) (r s : UInt32) : shift^[n] (r ^^^ s) = shift^[n] r ^^^ shift^[n] s := by
  induction n generalizing r s with
  | zero => rfl
  | succ n ih => rw [Function.iterate_succ_apply, shift_xor, ih, Function.iterate_succ_apply, Function.iterate_succ_apply]

theorem iterate_shift_scaled (n k : Nat) (small : 2 ^ n * k < 2 ^ 32) :
    shift^[n] (UInt32.ofNat (2 ^ n * k)) = UInt32.ofNat k := by
  induction n with
  | zero => simp
  | succ n ih =>
    rw [Nat.pow_succ', Nat.mul_assoc] at small ⊢
    rw [Function.iterate_succ_apply, shift_double small, ih (by omega)]

/-- The bytes that come later lose nothing of the register. -/
theorem register_injective (bs : Bytes) : Function.Injective (register · bs) := by
  induction bs with
  | nil => exact fun _ _ => id
  | cons b bs ih =>
    intro r s same
    have first : shift^[8] (r ^^^ b.toUInt32) = shift^[8] (s ^^^ b.toUInt32) := ih same
    exact (UInt32.xor_left_inj b.toUInt32).mp (shift_injective.iterate 8 first)

/-! ## Few bytes -/

/-- Bits that do not meet are added. -/
private theorem xor_scaled {low n : Nat} (high : Nat) (short : low < 2 ^ n) : low ^^^ 2 ^ n * high = low + 2 ^ n * high := by
  have pos := Nat.two_pow_pos n
  rw [← Nat.div_add_mod (low ^^^ 2 ^ n * high) (2 ^ n), Nat.xor_div_two_pow, Nat.xor_mod_two_pow, Nat.div_eq_of_lt short,
    Nat.mod_eq_of_lt short, Nat.mul_div_cancel_left high pos, Nat.mul_mod_right, Nat.zero_xor, Nat.xor_zero, Nat.add_comm]

/-- The bytes of a word are taken in as if the word came at once. -/
theorem register_eq_iterate {bs : Bytes} (few : bs.length ≤ 4) (r : UInt32) :
    register r bs = shift^[8 * bs.length] (r ^^^ UInt32.ofNat (Bytes.toNatLE bs)) := by
  induction bs generalizing r with
  | nil => simp [register, Bytes.toNatLE]
  | cons b bs ih =>
    rw [List.length_cons] at few
    have below := Bytes.toNatLE_lt bs
    have room : 2 ^ 8 * Bytes.toNatLE bs < 2 ^ 32 := by
      have least : 256 ^ bs.length ≤ 256 ^ 3 := Nat.pow_le_pow_right (by decide) (by omega)
      omega
    -- The later bytes stand above the first, and its eight shifts bring them down.
    have later := iterate_shift_scaled 8 (Bytes.toNatLE bs) room
    have word : UInt32.ofNat (Bytes.toNatLE (b :: bs)) = b.toUInt32 ^^^ UInt32.ofNat (2 ^ 8 * Bytes.toNatLE bs) := by
      have digit := b.toNat_lt
      rw [← UInt32.toNat_inj, UInt32.toNat_xor, UInt32.toNat_ofNat_of_lt' room, UInt8.toNat_toUInt32, Bytes.toNatLE,
        UInt32.toNat_ofNat_of_lt' (show _ < 2 ^ 32 by omega)]
      exact (xor_scaled _ digit).symm
    calc register r (b :: bs)
        = register (shift^[8] (r ^^^ b.toUInt32)) bs := rfl
      _ = shift^[8 * bs.length] (shift^[8] (r ^^^ b.toUInt32) ^^^ UInt32.ofNat (Bytes.toNatLE bs)) := ih (by omega) _
      _ = shift^[8 * bs.length] (shift^[8] (r ^^^ UInt32.ofNat (Bytes.toNatLE (b :: bs)))) := by
        rw [← later, ← iterate_shift_xor, word, UInt32.xor_assoc]
      _ = shift^[8 * (b :: bs).length] (r ^^^ UInt32.ofNat (Bytes.toNatLE (b :: bs))) := by
        rw [← Function.iterate_add_apply, List.length_cons, Nat.mul_succ]

/-- Up to four bytes are told by the register. -/
theorem eq_of_register_eq {bs cs : Bytes} (same : bs.length = cs.length) (few : bs.length ≤ 4) {r : UInt32}
    (registers : register r bs = register r cs) : bs = cs := by
  rw [register_eq_iterate few, register_eq_iterate (same ▸ few), same] at registers
  have words := (UInt32.xor_right_inj r).mp (shift_injective.iterate _ registers)
  have least : 256 ^ bs.length ≤ 256 ^ 4 := Nat.pow_le_pow_right (by decide) few
  have first := Bytes.toNatLE_lt bs
  have second := Bytes.toNatLE_lt cs
  rw [← same] at second
  rw [← UInt32.toNat_inj, UInt32.toNat_ofNat_of_lt' (show _ < 2 ^ 32 by omega),
    UInt32.toNat_ofNat_of_lt' (show _ < 2 ^ 32 by omega)] at words
  rw [← Bytes.ofNatLE_toNatLE bs, words, same, Bytes.ofNatLE_toNatLE]

/-- Byte strings that differ in a run of at most four bytes have different checks. -/
theorem crc32_ne_of_alikeBut {first count : Nat} {xs ys : Bytes} (same : xs.length = ys.length) (few : count ≤ 4)
    (alike : Bytes.AlikeBut first count xs ys) (ne : xs ≠ ys) : crc32 xs ≠ crc32 ys := by
  intro checks
  have parts (zs : Bytes) : zs = zs.take first ++ (zs.drop first).take count ++ zs.drop (first + count) := by
    rw [List.append_assoc, ← List.drop_drop, List.take_append_drop, List.take_append_drop]
  rw [crc32, crc32, UInt32.not_inj, parts xs, parts ys, alike.take, alike.drop] at checks
  simp only [register_append] at checks
  have runs := eq_of_register_eq (by simp [same]) (by simp; omega) (register_injective _ checks)
  exact ne ((parts xs).trans (by rw [alike.take, alike.drop, runs, ← parts ys]))

end Checksum

/-! ## Pages -/

namespace Page

/-- A block that lies in the place of a page: it has the page's size but is not the page, and
    they differ in the four checksum bytes only, or in a run of at most four bytes outside these. -/
structure Scratched (page block : Bytes) : Prop where
  length : block.length = page.length
  differs : block ≠ page
  within : Bytes.AlikeBut 3 4 block page ∨
    ∃ first count, count ≤ 4 ∧ (first + count ≤ 3 ∨ 7 ≤ first) ∧ Bytes.AlikeBut first count block page

variable {page block : Bytes} {read : Kind × Bytes}

/-- The bytes that the checksum of a page is taken of. -/
def covered (page : Bytes) : Bytes := page.take 3 ++ Bytes.zeros 4 ++ page.drop 7

theorem checksum_eq (page : Bytes) : checksum page = Checksum.crc32 (covered page) := rfl

theorem getElem?_covered (long : 7 ≤ page.length) (i : Nat) :
    (covered page)[i]? = if 3 ≤ i ∧ i < 7 then some 0 else page[i]? := by
  have three : (page.take 3).length = 3 := by simp; omega
  have seven : (page.take 3 ++ Bytes.zeros 4).length = 7 := by simp [three, Bytes.zeros]
  by_cases header : i < 3
  · rw [if_neg (by omega), covered, List.getElem?_append_left (by omega), List.getElem?_append_left (by omega),
      List.getElem?_take_of_lt header]
  · by_cases field : i < 7
    · rw [if_pos ⟨by omega, field⟩, covered, List.getElem?_append_left (by omega), List.getElem?_append_right (by omega),
        Bytes.zeros, List.getElem?_replicate_of_lt (by omega)]
    · rw [if_neg (by omega), covered, List.getElem?_append_right (by omega), List.getElem?_drop]
      congr 1
      omega

/-- A page is known by its checksum field and the bytes outside it. -/
theorem eq_of_field (field : (block.drop 3).take 4 = (page.drop 3).take 4) (alike : Bytes.AlikeBut 3 4 block page) :
    block = page := by
  refine List.ext_getElem? fun i => ?_
  by_cases inside : 3 ≤ i ∧ i < 7
  · have here := congrArg (fun bs : Bytes => bs[i - 3]?) field
    simp only [List.getElem?_take, List.getElem?_drop] at here
    rwa [if_pos (by omega), if_pos (by omega), Nat.add_sub_cancel' inside.1] at here
  · exact alike i (by omega)

/-- A page that is read has its checksum in the field. -/
theorem stored_of_decode (sound : decode page = .ok read) :
    page.length = size ∧ Bytes.toNatBE ((page.drop 3).take 4) = (checksum page).toNat := by
  unfold decode at sound
  split at sound
  · cases sound
  · rename_i whole
    split at sound
    · cases sound
    · rename_i stored
      exact ⟨not_not.mp whole, not_not.mp stored⟩

theorem decode_of_stored_ne (whole : block.length = size)
    (stored : Bytes.toNatBE ((block.drop 3).take 4) ≠ (checksum block).toNat) : decode block = .error .checksum := by
  rw [decode, if_neg (not_not.mpr whole), if_pos stored]

/-- A page that is read is refused once it is scratched. -/
theorem Scratched.decode (scratched : Scratched page block) (sound : decode page = .ok read) :
    Page.decode block = .error .checksum := by
  obtain ⟨whole, stored⟩ := stored_of_decode sound
  have long : 7 ≤ page.length := by
    rw [whole]
    decide
  have longBlock : 7 ≤ block.length := by rwa [scratched.length]
  refine decode_of_stored_ne (scratched.length.trans whole) fun again => ?_
  rcases scratched.within with inField | ⟨first, count, few, outside, alike⟩
  · -- The checksum is the same, but the field is another.
    have covers : covered block = covered page := by rw [covered, covered, inField.take, inField.drop]
    have lengths : ((block.drop 3).take 4).length = ((page.drop 3).take 4).length := by simp [scratched.length]
    rw [checksum_eq, covers, ← checksum_eq, ← stored] at again
    refine scratched.differs (eq_of_field ?_ inField)
    rw [← Bytes.ofNatBE_toNatBE ((block.drop 3).take 4), again, lengths, Bytes.ofNatBE_toNatBE]
  · -- The field is the same, but the checksum is another.
    have field : (block.drop 3).take 4 = (page.drop 3).take 4 := by
      refine List.ext_getElem? fun i => ?_
      simp only [List.getElem?_take, List.getElem?_drop]
      split
      · exact alike (3 + i) (by omega)
      · rfl
    have covers : Bytes.AlikeBut first count (covered block) (covered page) := fun i apart => by
      rw [getElem?_covered longBlock, getElem?_covered long, alike i apart]
    rw [field, stored, checksum_eq, checksum_eq, UInt32.toNat_inj] at again
    refine Checksum.crc32_ne_of_alikeBut ?_ few covers (fun same => ?_) again.symm
    · simp [covered, scratched.length]
    · refine scratched.differs (eq_of_field field fun i apart => ?_)
      have here := congrArg (fun bs : Bytes => bs[i]?) same
      simp only [getElem?_covered longBlock, getElem?_covered long] at here
      rwa [if_neg (by omega), if_neg (by omega)] at here

/-- A payload that fits makes a page, which is read as its kind and its payload, and which is
    refused as corrupt once it is scratched. -/
theorem encode_guarded (kind : Kind) {payload : Bytes} (fits : payload.length ≤ capacity) :
    ∃ page, encode kind payload = .ok page ∧ page.length = size ∧ decode page = .ok (kind, payload) ∧
      ∀ block, Scratched page block →
        (decode block).mapError (fun damage => Error.corruption damage.text) = .error (.corruption "page crc32 mismatch") := by
  have sound : decode (image (kind, payload)) = .ok (kind, payload) := decode_image fits
  refine ⟨image (kind, payload), encode_eq_image fits, length_image fits, sound, fun block scratched => ?_⟩
  rw [scratched.decode sound]
  rfl

/-- A byte of the payload that is one too high. -/
theorem encode_guarded_raised : ([7] : Bytes).length ≤ capacity ∧
    ∃ page block, encode .whole [7] = .ok page ∧ decode page = .ok (.whole, [7]) ∧ Scratched page block ∧
      (decode block).mapError (fun damage => Error.corruption damage.text) = .error (.corruption "page crc32 mismatch") := by
  have short : ([7] : Bytes).length ≤ capacity := by decide
  obtain ⟨page, written, whole, read, refused⟩ := encode_guarded .whole short
  have inside : headerSize < page.length := by
    rw [whole]
    decide
  have scratched : Scratched page (page.set headerSize (page[headerSize] + 1)) := by
    refine ⟨List.length_set, fun same => ?_, .inr ⟨headerSize, 1, by decide, .inr (by decide), fun i apart => ?_⟩⟩
    · have here := congrArg (fun bs : Bytes => bs[headerSize]?) same
      simp [inside] at here
    · rw [List.getElem?_set_ne]
      omega
  exact ⟨short, page, _, written, read, scratched, refused _ scratched⟩

end Page
end Shiplog
