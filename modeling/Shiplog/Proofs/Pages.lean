import Shiplog.Proofs.Layouts
import Shiplog.Segment

/-!
Pages as they lie in a file. The bytes of a page decode to its kind and payload
(`decode_image`), and a file of pages, with some bytes of one more, reads back as
these pages and the page cut short (`readContent_images`).
-/
namespace Shiplog

namespace Bytes

variable {size : Nat}

theorem chunks_cons (piece rest : Bytes) (full : piece.length = size) (pos : 0 < size) :
    chunks size (piece ++ rest) = piece :: chunks size rest := by
  have ne : ¬ (size = 0 ∨ piece ++ rest = []) := by
    rintro (zero | empty)
    · omega
    · simp only [List.append_eq_nil_iff] at empty
      simp only [empty.1, List.length_nil] at full
      omega
  rw [chunks, dif_neg ne, List.take_left' full, List.drop_left' full]

@[simp] theorem chunks_nil (size : Nat) : chunks size [] = [] := by
  rw [chunks, dif_pos (Or.inr rfl)]

theorem chunks_short (piece : Bytes) (short : piece.length ≤ size) (pos : 0 < size) (ne : piece ≠ []) :
    chunks size piece = [piece] := by
  have go : ¬ (size = 0 ∨ piece = []) := by
    rintro (zero | empty)
    · omega
    · exact ne empty
  rw [chunks, dif_neg go, List.take_of_length_le short, List.drop_eq_nil_of_le short, chunks_nil]

/-- No piece is longer than the size. -/
theorem length_le_of_mem_chunks {piece bs : Bytes} (member : piece ∈ chunks size bs) : piece.length ≤ size := by
  fun_induction chunks size bs with
  | case1 => simp at member
  | case2 bs _ ih =>
    rcases List.mem_cons.mp member with same | later
    · subst same
      exact List.length_take_le ..
    · exact ih later

end Bytes

namespace Page

def image (page : Kind × Bytes) : Bytes :=
  layout page.1 (Bytes.ofNatBE 4 (checksum (layout page.1 (Bytes.zeros 4) page.2)).toNat) page.2

/-- A page whose payload fits. -/
def Fits (page : Kind × Bytes) : Prop := page.2.length ≤ capacity

variable {kind : Kind} {payload crc : Bytes} {page : Kind × Bytes}

theorem encode_eq_image (fits : payload.length ≤ capacity) : encode kind payload = .ok (image (kind, payload)) := by
  rw [encode, if_neg (Nat.not_lt.mpr fits)]
  rfl

theorem length_layout (four : crc.length = 4) (fits : payload.length ≤ capacity) :
    (layout kind crc payload).length = size := by
  simp only [capacity, size, headerSize] at fits
  simp [layout, four, Bytes.zeros, capacity, size, headerSize]
  omega

@[simp] theorem length_image (fits : Fits page) : (image page).length = size :=
  length_layout (by simp) fits

/-- The checksum does not depend on the four bytes that hold it. -/
theorem checksum_layout (four : crc.length = 4) :
    checksum (layout kind crc payload) = checksum (layout kind (Bytes.zeros 4) payload) := by
  obtain ⟨a, b, c, d, rfl⟩ : ∃ a b c d, crc = [a, b, c, d] := by
    match crc, four with
    | [a, b, c, d], _ => exact ⟨a, b, c, d, rfl⟩
  obtain ⟨e, f, len⟩ : ∃ e f, Bytes.ofNatBE 2 payload.length = [e, f] := by
    match Bytes.ofNatBE 2 payload.length, Bytes.length_ofNatBE 2 payload.length with
    | [e, f], _ => exact ⟨e, f, rfl⟩
  simp [checksum, layout, len, Bytes.zeros]

/-- A page decodes to what it holds. -/
theorem decode_image (fits : Fits page) : decode (image page) = .ok page := by
  obtain ⟨kind, payload⟩ := page
  have whole := length_image fits
  have small : payload.length ≤ 4088 := fits
  obtain ⟨a, b, c, d, sum⟩ : ∃ a b c d, Bytes.ofNatBE 4
      (checksum (layout kind (Bytes.zeros 4) payload)).toNat = [a, b, c, d] := by
    match Bytes.ofNatBE 4 (checksum (layout kind (Bytes.zeros 4) payload)).toNat, Bytes.length_ofNatBE 4
      (checksum (layout kind (Bytes.zeros 4) payload)).toNat with
    | [a, b, c, d], _ => exact ⟨a, b, c, d, rfl⟩
  obtain ⟨e, f, len⟩ : ∃ e f, Bytes.ofNatBE 2 payload.length = [e, f] := by
    match Bytes.ofNatBE 2 payload.length, Bytes.length_ofNatBE 2 payload.length with
    | [e, f], _ => exact ⟨e, f, rfl⟩
  have sumBack : Bytes.toNatBE [a, b, c, d] = (checksum (layout kind (Bytes.zeros 4) payload)).toNat := by
    rw [← sum, Bytes.toNatBE_ofNatBE]
    exact Nat.mod_eq_of_lt (UInt32.toNat_lt _)
  have lenBack : Bytes.toNatBE [e, f] = payload.length := by
    rw [← len, Bytes.toNatBE_ofNatBE]
    exact Nat.mod_eq_of_lt (by omega)
  have same : checksum (image (kind, payload)) = checksum (layout kind (Bytes.zeros 4) payload) :=
    checksum_layout (by simp)
  have spelt : image (kind, payload) = firstByte kind :: e :: f :: a :: b :: c :: d :: 0 ::
      (payload ++ Bytes.zeros (capacity - payload.length)) := by
    rw [image, sum]
    simp [layout, len]
  have field : ((image (kind, payload)).drop 3).take 4 = [a, b, c, d] := by
    simp [spelt]
  have lengthField : ((image (kind, payload)).drop 1).take 2 = [e, f] := by
    simp [spelt]
  have head : (image (kind, payload)).headD 0 = firstByte kind := by
    simp [spelt]
  have body : ((image (kind, payload)).drop headerSize).take payload.length = payload := by
    simp [spelt, headerSize]
  have known : Kind.ofCode? (firstByte kind &&& 0x0F) = some kind := by
    cases kind <;> decide
  have room : ¬ payload.length + headerSize > size := by
    simp only [headerSize, size]
    omega
  unfold decode
  simp only [whole, field, sumBack, same, lengthField, lenBack, head, known, room, body, ne_eq, not_true_eq_false,
    ↓reduceIte]

end Page

namespace Segment

open Page (image Fits)

/-- What reading the bytes of a page cut short gives, and nothing for no bytes. -/
def tornReads (number : Nat) (torn : Bytes) : List PageRead :=
  if torn = [] then [] else [.error (.torn number torn.length)]

/-- Reading goes on behind some pages with what follows them. -/
theorem readPieces_append (pages : List (Page.Kind × Bytes)) (fits : ∀ page ∈ pages, Fits page) (rest : Bytes)
    (number : Nat) :
    readPieces number (Bytes.chunks Page.size (pages.flatMap image ++ rest)) =
      pages.map .ok ++ readPieces (number + pages.length) (Bytes.chunks Page.size rest) := by
  induction pages generalizing number with
  | nil => rfl
  | cons page pages ih =>
    have first := fits page List.mem_cons_self
    have later := fun p member => fits p (List.mem_cons_of_mem page member)
    rw [List.flatMap_cons, List.append_assoc, Bytes.chunks_cons _ _ (Page.length_image first) (by decide),
      readPieces, if_neg (by rw [Page.length_image first]; omega), Page.decode_image first]
    simp only [ih later, List.map_cons, List.cons_append, List.length_cons]
    rw [Nat.add_assoc, Nat.add_comm 1]

theorem readPieces_images (pages : List (Page.Kind × Bytes)) (fits : ∀ page ∈ pages, Fits page) (torn : Bytes)
    (short : torn.length < Page.size) (number : Nat) :
    readPieces number (Bytes.chunks Page.size (pages.flatMap image ++ torn)) =
      pages.map .ok ++ tornReads (number + pages.length) torn := by
  rw [readPieces_append pages fits torn number]
  by_cases empty : torn = []
  · simp [empty, readPieces, tornReads]
  · simp [Bytes.chunks_short torn (Nat.le_of_lt short) (by decide) empty, readPieces, tornReads, empty, short]

/-- A file of pages and some bytes of one more reads back as just these. -/
theorem readContent_images (pages : List (Page.Kind × Bytes)) (fits : ∀ page ∈ pages, Fits page) (torn : Bytes)
    (short : torn.length < Page.size) :
    readContent (pages.flatMap image ++ torn) = pages.map .ok ++ tornReads pages.length torn := by
  rw [readContent, readPieces_images pages fits torn short, Nat.zero_add]

theorem length_images (pages : List (Page.Kind × Bytes)) (fits : ∀ page ∈ pages, Fits page) :
    (pages.flatMap image).length = pages.length * Page.size := by
  induction pages with
  | nil => simp
  | cons page rest ih =>
    have later := ih fun p member => fits p (List.mem_cons_of_mem page member)
    rw [List.flatMap_cons, List.length_append, Page.length_image (fits page List.mem_cons_self), later,
      List.length_cons, Nat.succ_mul, Nat.add_comm]

/-- The first bytes of some pages are the first pages and some bytes of the next. -/
theorem take_images (pages : List (Page.Kind × Bytes)) (fits : ∀ page ∈ pages, Fits page) (torn : Bytes)
    (length : Nat) (within : length ≤ (pages.flatMap image ++ torn).length) (short : torn.length < Page.size) :
    ∃ rest, (pages.flatMap image ++ torn).take length = (pages.take (length / Page.size)).flatMap image ++ rest ∧
      rest.length = length % Page.size := by
  induction pages generalizing length with
  | nil =>
    simp only [List.flatMap_nil, List.nil_append, List.take_nil] at within ⊢
    refine ⟨torn.take length, rfl, ?_⟩
    rw [List.length_take, Nat.mod_eq_of_lt (by omega)]
    omega
  | cons page rest ih =>
    have first := Page.length_image (fits page List.mem_cons_self)
    have later := fun p member => fits p (List.mem_cons_of_mem page member)
    have pos : 0 < Page.size := by decide
    rw [List.flatMap_cons, List.append_assoc] at within ⊢
    by_cases inside : length < Page.size
    · refine ⟨(image page).take length, ?_, ?_⟩
      · rw [List.take_append_of_le_length (by omega), Nat.div_eq_of_lt inside]
        rfl
      · rw [List.length_take, Nat.mod_eq_of_lt inside]
        omega
    · obtain ⟨extra, rfl⟩ : ∃ extra, length = Page.size + extra := ⟨length - Page.size, by omega⟩
      rw [List.length_append, first] at within
      obtain ⟨tail, taken, size⟩ := ih later extra (by omega)
      refine ⟨tail, ?_, ?_⟩
      · rw [← first, List.take_length_add_append, taken, first, Nat.add_div_left extra pos,
          List.take_succ_cons, List.flatMap_cons, List.append_assoc]
      · rw [size, Nat.add_mod_left]

end Segment
end Shiplog
