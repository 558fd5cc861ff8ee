import Mathlib.Data.Vector.Basic

/-! Byte images of fixed-size records. A codec fixes the number of bytes, so
that fields of a packed struct follow each other without a length on the wire;
a buffer can be overwritten from its start by fewer bytes than it holds. -/
namespace Packed

/-- The `width` low-order bytes of `value`, lowest first. -/
def littleEndian : (width value : Nat) → List UInt8
  | 0, _ => []
  | width + 1, value => UInt8.ofNat value :: littleEndian width (value / 256)

def number (bytes : List UInt8) : Nat :=
  bytes.foldr (fun byte high => byte.toNat + 256 * high) 0

@[simp] theorem littleEndian_length (width value : Nat) :
    (littleEndian width value).length = width := by
  induction width generalizing value with
  | zero => rfl
  | succ width ih => simp only [littleEndian, List.length_cons, ih]

theorem number_littleEndian {width value : Nat} (fits : value < 256 ^ width) :
    number (littleEndian width value) = value := by
  induction width generalizing value with
  | zero =>
    have : value = 0 := by simpa using fits
    simp [number, littleEndian, this]
  | succ width ih =>
    have high : value / 256 < 256 ^ width := by
      rw [Nat.div_lt_iff_lt_mul (by decide)]
      simpa only [Nat.pow_succ] using fits
    have tail : number (littleEndian width (value / 256)) = value / 256 := ih high
    simp only [number] at tail
    simp only [number, littleEndian, List.foldr_cons, tail, UInt8.toNat_ofNat']
    omega

/-- A record with an image of exactly `size` bytes. The decoder reads the
image at the front of a buffer and ignores what follows. -/
structure Codec (α : Type) where
  size : Nat
  encode : α → List UInt8
  decode : List UInt8 → α
  encode_length : ∀ a, (encode a).length = size
  decode_append : ∀ a rest, decode (encode a ++ rest) = a

namespace Codec
variable {α β : Type}

attribute [simp] encode_length decode_append

@[simp] theorem decode_encode (c : Codec α) (a : α) : c.decode (c.encode a) = a := by
  simpa using c.decode_append a []

/-- An unsigned word in host order (the hosts here are little-endian). -/
def host (width : Nat) (toNat : α → Nat) (ofNat : Nat → α)
    (fits : ∀ a, toNat a < 256 ^ width) (ofNat_toNat : ∀ a, ofNat (toNat a) = a) : Codec α where
  size := width
  encode a := littleEndian width (toNat a)
  decode bytes := ofNat (number (bytes.take width))
  encode_length a := littleEndian_length _ _
  decode_append a rest := by
    rw [List.take_left' (littleEndian_length _ _), number_littleEndian (fits a), ofNat_toNat]

/-- The same word in network order: the image reversed. -/
def network (width : Nat) (toNat : α → Nat) (ofNat : Nat → α)
    (fits : ∀ a, toNat a < 256 ^ width) (ofNat_toNat : ∀ a, ofNat (toNat a) = a) : Codec α where
  size := width
  encode a := (littleEndian width (toNat a)).reverse
  decode bytes := ofNat (number (bytes.take width).reverse)
  encode_length a := by simp
  decode_append a rest := by
    rw [List.take_left' (by simp), List.reverse_reverse, number_littleEndian (fits a), ofNat_toNat]

def u8 : Codec UInt8 :=
  host 1 UInt8.toNat UInt8.ofNat (fun a => a.toNat_lt) (fun _ => UInt8.ofNat_toNat)

theorem decode_u8 (bytes : List UInt8) : u8.decode bytes = bytes[0]?.getD 0 := by
  cases bytes with
  | nil => rfl
  | cons byte rest =>
    have : number [byte] = byte.toNat := by simp [number]
    simp [u8, host, this]

def u32 : Codec UInt32 :=
  host 4 UInt32.toNat UInt32.ofNat (fun a => a.toNat_lt) (fun _ => UInt32.ofNat_toNat)

/-- An `int`, by its two's complement image. -/
def i32 : Codec Int32 :=
  host 4 (fun a => a.toUInt32.toNat) (fun n => (UInt32.ofNat n).toInt32)
    (fun a => a.toUInt32.toNat_lt) (fun a => by rw [UInt32.ofNat_toNat, Int32.toInt32_toUInt32])

def u64 : Codec UInt64 :=
  host 8 UInt64.toNat UInt64.ofNat (fun a => a.toNat_lt) (fun _ => UInt64.ofNat_toNat)

def be32 : Codec UInt32 :=
  network 4 UInt32.toNat UInt32.ofNat (fun a => a.toNat_lt) (fun _ => UInt32.ofNat_toNat)

def be64 : Codec UInt64 :=
  network 8 UInt64.toNat UInt64.ofNat (fun a => a.toNat_lt) (fun _ => UInt64.ofNat_toNat)

/-- A `char[n]` field. A buffer shorter than the field reads as zeros behind
its end, so that decoding is total; no image is that short. -/
def chars (n : Nat) : Codec (List.Vector UInt8 n) where
  size := n
  encode a := a.toList
  decode bytes := ⟨(bytes ++ List.replicate n 0).take n, by simp⟩
  encode_length a := a.toList_length
  decode_append a rest := by
    apply List.Vector.toList_injective
    simp only [List.Vector.toList_mk, List.append_assoc]
    exact List.take_left' a.toList_length

/-- Consecutive fields of a packed record. -/
def seq (first : Codec α) (second : Codec β) : Codec (α × β) where
  size := first.size + second.size
  encode a := first.encode a.1 ++ second.encode a.2
  decode bytes := (first.decode bytes, second.decode (bytes.drop first.size))
  encode_length a := by simp
  decode_append a rest := by
    rw [List.append_assoc, first.decode_append,
      List.drop_left' (first.encode_length a.1), second.decode_append]

@[simp] theorem take_seq (first : Codec α) (second : Codec β) (a : α × β) :
    ((first.seq second).encode a).take first.size = first.encode a.1 :=
  List.take_left' (first.encode_length a.1)

@[simp] theorem drop_seq (first : Codec α) (second : Codec β) (a : α × β) :
    ((first.seq second).encode a).drop first.size = second.encode a.2 :=
  List.drop_left' (first.encode_length a.1)

/-- A record given by its fields. -/
def record (c : Codec β) (fields : α → β) (make : β → α) (make_fields : ∀ a, make (fields a) = a) :
    Codec α where
  size := c.size
  encode a := c.encode (fields a)
  decode bytes := make (c.decode bytes)
  encode_length a := c.encode_length _
  decode_append a rest := by rw [c.decode_append, make_fields]

/-- What a record holds after `bytes` were written over the start of its
memory, as `recv` and `read` do; at most `size` bytes are written. -/
def patch (c : Codec α) (old : α) (bytes : List UInt8) : α :=
  c.decode (bytes.take c.size ++ (c.encode old).drop bytes.length)

/-- Bytes that complete the untouched rest of the old image to the image of a
record leave exactly that record. -/
theorem patch_eq (c : Codec α) {old new : α} {bytes : List UInt8}
    (image : bytes ++ (c.encode old).drop bytes.length = c.encode new) :
    c.patch old bytes = new := by
  have bound : bytes.length ≤ c.size := by
    have := congrArg List.length image
    simp only [List.length_append, encode_length] at this
    omega
  rw [patch, List.take_of_length_le bound, image, c.decode_encode]

theorem patch_encode (c : Codec α) (old new : α) : c.patch old (c.encode new) = new :=
  c.patch_eq (by rw [List.drop_of_length_le (by simp), List.append_nil])

/-- Enough bytes replace the whole record. -/
theorem patch_complete (c : Codec α) (old : α) {bytes : List UInt8}
    (whole : c.size ≤ bytes.length) : c.patch old bytes = c.decode (bytes.take c.size) := by
  rw [patch, List.drop_of_length_le (by rwa [c.encode_length]), List.append_nil]

/-- The image of the leading fields replaces these and leaves the others. -/
theorem patch_first (first : Codec α) (second : Codec β) (old : α × β) (a : α) :
    (first.seq second).patch old (first.encode a) = (a, old.2) := by
  apply patch_eq
  rw [first.encode_length, drop_seq]
  rfl

/-- Byte `i` of a record after `bytes` were written over its start. -/
theorem image_patch_getElem? (c : Codec α) (old : α) (bytes : List UInt8) {i : Nat}
    (inside : i < c.size) : (bytes.take c.size ++ (c.encode old).drop bytes.length)[i]? =
      bytes[i]?.or (c.encode old)[i]? := by
  by_cases written : i < bytes.length
  · rw [List.getElem?_append_left (by simp; omega), List.getElem?_take_of_lt inside,
      List.getElem?_eq_getElem written, Option.some_or]
  · rw [List.getElem?_append_right (by simp; omega), List.getElem?_drop,
      List.getElem?_eq_none (Nat.le_of_not_lt written), Option.none_or]
    congr 1
    simp
    omega

/-- The last field of a record is overwritten by the bytes behind the others. -/
theorem patch_second (first : Codec α) (second : Codec β) (old : α × β) (bytes : List UInt8) :
    ((first.seq second).patch old bytes).2 = second.patch old.2 (bytes.drop first.size) := by
  have written : (bytes.take (first.size + second.size)).drop first.size =
      (bytes.drop first.size).take second.size := by
    rw [List.drop_take, Nat.add_sub_cancel_left]
  have kept : ((first.encode old.1 ++ second.encode old.2).drop bytes.length).drop
      (first.size - (bytes.take (first.size + second.size)).length) =
        (second.encode old.2).drop (bytes.drop first.size).length := by
    rw [List.drop_drop, List.drop_append, first.encode_length, List.length_drop]
    have past : first.size ≤
        bytes.length + (first.size - (bytes.take (first.size + second.size)).length) := by
      rw [List.length_take]
      omega
    rw [List.drop_of_length_le (by rwa [first.encode_length]), List.nil_append]
    by_cases short : bytes.length ≤ first.size + second.size
    · rw [List.take_of_length_le short]
      congr 1
      omega
    · rw [List.drop_of_length_le, List.drop_of_length_le] <;>
        rw [second.encode_length] <;> omega
  simp only [patch, seq]
  rw [List.drop_append, written, kept]

/-- Byte `i` of a field after `bytes` were written over its start. -/
theorem chars_patch_getElem? (old : List.Vector UInt8 n) (bytes : List UInt8) (inside : i < n) :
    ((chars n).patch old bytes).toList[i]? = bytes[i]?.or old.toList[i]? := by
  have image := (chars n).image_patch_getElem? old bytes inside
  have room : i < (bytes.take n ++ old.toList.drop bytes.length).length := by
    simp only [List.length_append, List.length_take, List.length_drop, List.Vector.toList_length]
    omega
  simp only [chars] at image
  rw [← image]
  simp only [patch, chars, List.Vector.toList_mk]
  rw [List.getElem?_take_of_lt inside, List.getElem?_append_left room]

theorem patch_record (c : Codec β) (fields : α → β) (make : β → α)
    (make_fields : ∀ a, make (fields a) = a) (old : α) (bytes : List UInt8) :
    (c.record fields make make_fields).patch old bytes = make (c.patch (fields old) bytes) := rfl

end Codec
end Packed
