import DistributedDisk.Core.Chunks
import DistributedDisk.NbdProxy

/-! Requests cut into pieces anywhere: a payload is read to its end whatever the
pieces, a header is read once. -/
namespace DistributedDisk
open Packed Chunks

def Stream.bytes (stream : Stream) : List UInt8 :=
  stream.flatMap fun | .data bytes => bytes | .failed => []

@[simp] theorem Stream.bytes_data (pieces : List (List UInt8)) :
    Stream.bytes (pieces.map .data) = pieces.flatten := by
  rw [Stream.bytes, List.flatMap_map, List.flatMap_id']

def ClientRequest.image (r : ClientRequest) : List UInt8 :=
  NbdRequest.codec.encode r.header ++ r.payload

namespace NbdProxy

theorem read_bytes (found : read count stream = (some bytes, rest)) :
    stream.bytes = bytes ++ rest.bytes ∧ bytes.length ≤ count := by
  match stream with
  | [] =>
    cases found
    exact ⟨rfl, Nat.zero_le _⟩
  | .failed :: stream => cases found
  | .data arrived :: stream =>
    rw [read] at found
    cases found
    refine ⟨?_, List.length_take_le _ _⟩
    split
    · rw [List.take_of_length_le ‹_›]
      rfl
    · simp only [Stream.bytes, List.flatMap_cons, ← List.append_assoc, List.take_append_drop]

theorem readAll_bytes (found : readAll stream room count = .ok (bytes, rest)) :
    stream.bytes = bytes ++ rest.bytes ∧ bytes.length = count := by
  fun_induction readAll stream room count generalizing bytes rest with
  | case1 => cases found
  | case2 => cases found
  | case3 => cases found
  | case4 fd room count more taken behind first positive fits payload stream' below ih =>
    cases found
    obtain ⟨front, bound⟩ := read_bytes first
    obtain ⟨tail, size⟩ := ih below
    rw [front, tail, List.append_assoc, List.length_append]
    exact ⟨rfl, by omega⟩
  | case5 => cases found
  | case6 =>
    cases found
    exact ⟨rfl, by simp; omega⟩

theorem readAll_chunks (pieces : List (List UInt8)) (nonempty : ∀ p ∈ pieces, p ≠ [])
    (room count : Nat) (fits : count ≤ room) (enough : count ≤ pieces.flatten.length) :
    readAll (pieces.map .data) room count =
      .ok (pieces.flatten.take count, (advance count pieces).map .data) := by
  induction pieces generalizing room count with
  | nil =>
    have zero : count = 0 := by simpa using enough
    simp [readAll, zero, advance]
  | cons piece pieces ih =>
    have positive := List.length_pos_iff.mpr (nonempty piece (by simp))
    have tail : ∀ p ∈ pieces, p ≠ [] := fun p member => nonempty p (by simp [member])
    rw [readAll]
    by_cases none : count = 0
    · rw [if_neg (by omega), none, advance_zero _ nonempty]
      rfl
    · simp only [List.flatten_cons, List.length_append] at enough
      rw [if_pos (by omega), List.map_cons, read]
      by_cases whole : piece.length ≤ count
      · have more := ih tail (room - piece.length) (count - piece.length) (by omega) (by omega)
        simp only [List.take_of_length_le whole, if_pos whole, if_pos positive,
          if_neg (by omega : ¬ room < piece.length), more, advance_whole _ _ whole,
          List.flatten_cons, List.take_append]
      · have size : (piece.take count).length = count := by
          rw [List.length_take]
          omega
        have rest : readAll (.data (piece.drop count) :: pieces.map .data) (room - count) 0 =
            .ok ([], .data (piece.drop count) :: pieces.map .data) := by
          rw [readAll, if_neg (by omega)]
        simp only [size, if_neg whole, if_pos (by omega : 0 < count),
          if_neg (by omega : ¬ room < count), Nat.sub_self, rest, List.append_nil,
          advance_part _ _ (by omega : count < piece.length), List.flatten_cons,
          List.take_append_of_le_length (by omega : count ≤ piece.length), List.map_cons]

theorem read_chunks (count : Nat) (piece : List UInt8) (pieces : List (List UInt8))
    (nonempty : ∀ p ∈ pieces, p ≠ []) (whole : count ≤ piece.length) :
    read count ((piece :: pieces).map .data) =
      (some (piece.take count), (advance count (piece :: pieces)).map .data) := by
  rw [List.map_cons, read]
  by_cases same : piece.length ≤ count
  · rw [if_pos same, advance_whole _ _ same, Nat.sub_eq_zero_of_le whole, advance_zero _ nonempty]
  · rw [if_neg same, advance_part _ _ (by omega), List.map_cons]

end NbdProxy

namespace ClientRequest

theorem image_length (r : ClientRequest) :
    r.image.length = NbdRequest.codec.size + r.payload.length := by
  rw [image, List.length_append, Codec.encode_length]

theorem len_header (r : ClientRequest) (write : r.transfer.isRead = false) :
    r.header.type = nbdCmdWrite ∧ r.header.len.toNat = r.payload.length := by
  cases kind : r.transfer with
  | read len =>
    rw [kind] at write
    cases write
  | write payload fits =>
    simp only [header, ClientRequest.payload, kind, UInt32.toNat_ofNat', true_and]
    omega

/-- A header that is there in one piece, and a payload cut anywhere, give the
command of the request and leave what follows it. -/
theorem parseData_chunks (junk : NbdRequest) (junkArgs : CmdArgs) (fd : Int32) (r : ClientRequest)
    (piece : List UInt8) (pieces : List (List UInt8)) (nonempty : ∀ p ∈ piece :: pieces, p ≠ [])
    (whole : NbdRequest.codec.size ≤ piece.length)
    (image : (piece :: pieces).flatten = r.image ++ rest) :
    NbdProxy.parseData junk junkArgs fd ((piece :: pieces).map .data) =
      .ok (r.cmdData junkArgs fd, (advance r.image.length (piece :: pieces)).map .data) := by
  have front : piece.take NbdRequest.codec.size = NbdRequest.codec.encode r.header := by
    rw [← List.take_append_of_le_length whole, ← List.flatten_cons, image, ClientRequest.image,
      List.append_assoc, List.take_left' (Codec.encode_length ..)]
  have behind : (advance NbdRequest.codec.size (piece :: pieces)).flatten = r.payload ++ rest := by
    rw [flatten_advance, image, ClientRequest.image, List.append_assoc,
      List.drop_left' (Codec.encode_length ..)]
  have header := NbdProxy.read_chunks _ piece pieces (fun p h => nonempty p (by simp [h])) whole
  rw [front] at header
  simp only [NbdProxy.parseData, header, Codec.patch_encode, image_length]
  cases kind : r.transfer with
  | read len => simp [ClientRequest.header, cmdData, payload, kind]
  | write bytes fits =>
    obtain ⟨type, len⟩ := r.len_header (by rw [kind]; rfl)
    have other : nbdCmdRead ≠ nbdCmdWrite := by decide
    have size : r.payload = bytes := by simp only [payload, kind]
    have taken := NbdProxy.readAll_chunks (advance NbdRequest.codec.size (piece :: pieces))
      (nonempty_advance _ _ nonempty) 4096 r.payload.length (by rw [size]; exact fits)
      (by simp [behind])
    rw [behind, List.take_left, advance_advance, size] at taken
    simp only [type, if_neg other, len, taken, cmdData, kind, size]

end ClientRequest

/-! ### The commands of a stream -/

/-- Each call of `ParseData` gives the command of the next request and takes
exactly its bytes. The call behind the last request, whose uninitialized locals
are `last`, gives none. -/
def Parses (fd : Int32) (last : NbdRequest × CmdArgs) :
    List ClientRequest → (locals : List (NbdRequest × CmdArgs)) → Stream → Prop
  | [], _, stream => ∀ cmd rest, NbdProxy.parseData last.1 last.2 fd stream ≠ .ok (cmd, rest)
  | _ :: _, [], _ => False
  | r :: requests, (junk, junkArgs) :: locals, stream => ∃ rest,
    NbdProxy.parseData junk junkArgs fd stream = .ok (r.cmdData junkArgs fd, rest) ∧
      stream.bytes = r.image ++ rest.bytes ∧ Parses fd last requests locals rest

/-- No `read` ends inside the header of a request. -/
def HeadersWhole (requests : List ClientRequest) (pieces : List (List UInt8)) : Prop :=
  ∀ before r after, requests = before ++ r :: after → ∀ p, EndsAt pieces p →
    ¬ ((before.flatMap ClientRequest.image).length < p ∧
      p < (before.flatMap ClientRequest.image).length + NbdRequest.codec.size)

theorem headersWhole_cons {r : ClientRequest} {requests : List ClientRequest}
    {piece : List UInt8} {pieces : List (List UInt8)} (nonempty : piece ≠ []) :
    HeadersWhole (r :: requests) (piece :: pieces) ↔ NbdRequest.codec.size ≤ piece.length ∧
      HeadersWhole requests (advance r.image.length (piece :: pieces)) := by
  have positive := List.length_pos_iff.mpr nonempty
  constructor
  · intro whole
    constructor
    · have ends : EndsAt (piece :: pieces) piece.length := ⟨[piece], pieces, rfl, by simp⟩
      have inside := whole [] r requests rfl _ ends
      simp only [List.flatMap_nil, List.length_nil] at inside
      omega
    · rintro before r' after rfl p ends
      intro inside
      refine whole (r :: before) r' after rfl (r.image.length + p)
        ((endsAt_advance _ (by omega)).mp ends) ?_
      simp only [List.flatMap_cons, List.length_append]
      omega
  · rintro ⟨first, whole⟩ before r' after same p ends inside
    cases before with
    | nil =>
      obtain rfl | ⟨q, _, rfl⟩ := endsAt_cons.mp ends <;> simp at inside
      omega
    | cons _ before =>
      cases same
      simp only [List.flatMap_cons, List.length_append] at inside
      obtain ⟨q, rfl⟩ := Nat.exists_eq_add_of_le (by omega : r.image.length ≤ p)
      exact whole before r' after rfl q ((endsAt_advance _ (by omega)).mpr ends) (by omega)

/-- At the end of the stream `read` returns 0, which is no error to `ParseData`:
it goes on with what the memory of `request` holds. -/
theorem parseData_end (last : NbdRequest × CmdArgs) (fd : Int32) :
    (∀ cmd rest, NbdProxy.parseData last.1 last.2 fd [] ≠ .ok (cmd, rest)) ↔
      last.1.type ≠ nbdCmdRead ∧ last.1.len ≠ 0 := by
  have kept : NbdRequest.codec.patch last.1 [] = last.1 := NbdRequest.codec.patch_eq rfl
  simp only [NbdProxy.parseData, read, kept]
  by_cases isRead : nbdCmdRead = last.1.type
  · simp [isRead]
  · rw [if_neg isRead, NbdProxy.readAll]
    by_cases len : 0 < last.1.len.toNat
    · have positive : last.1.len ≠ 0 := by
        rintro zero
        simp [zero] at len
      simp [if_pos len, read, Ne.symm isRead, positive]
    · have zero : last.1.len = 0 := UInt32.toNat_inj.mp (by simpa using len)
      simp [zero]

/-- A header that is cut is not read to its end. The call takes too few bytes
even if the memory of `request` happens to hold the header already. -/
theorem parseData_cut (junkArgs : CmdArgs) (fd : Int32) (r : ClientRequest)
    (piece : List UInt8) (pieces : List (List UInt8)) (cut : piece.length < NbdRequest.codec.size)
    (image : (piece :: pieces).flatten = r.image ++ rest)
    (parsed : NbdProxy.parseData r.header junkArgs fd ((piece :: pieces).map .data) =
      .ok (cmd, behind)) : (piece :: pieces).flatten ≠ r.image ++ Stream.bytes behind := by
  have size := NbdRequest.codec.encode_length r.header
  have front : piece = (NbdRequest.codec.encode r.header).take piece.length := by
    have same := congrArg (List.take piece.length) image
    rwa [List.flatten_cons, List.take_left, ClientRequest.image, List.append_assoc,
      List.take_append_of_le_length (by omega)] at same
  have header : NbdRequest.codec.patch r.header piece = r.header := by
    apply Codec.patch_eq
    nth_rewrite 1 [front]
    exact List.take_append_drop _ _
  have first : read NbdRequest.codec.size ((piece :: pieces).map .data) =
      (some piece, pieces.map .data) := by
    rw [List.map_cons, read, List.take_of_length_le (by omega), if_pos (by omega)]
  simp only [NbdProxy.parseData, first, header] at parsed
  intro taken
  have total := congrArg List.length taken
  rw [List.flatten_cons, List.length_append, List.length_append, r.image_length] at total
  split at parsed
  · cases parsed
    rw [Stream.bytes_data] at total
    omega
  · rename_i isWrite
    have read : r.transfer.isRead = false := by
      cases kind : r.transfer with
      | read len => simp [ClientRequest.header, kind] at isWrite
      | write => rfl
    cases payload : NbdProxy.readAll (pieces.map .data) 4096 r.header.len.toNat with
    | error failure =>
      rw [payload] at parsed
      cases parsed
    | ok result =>
      obtain ⟨bytes, stream⟩ := result
      rw [payload] at parsed
      cases parsed
      obtain ⟨tail, count⟩ := NbdProxy.readAll_bytes payload
      rw [Stream.bytes_data] at tail
      rw [tail, List.length_append, count, (r.len_header read).2] at total
      omega

/-- However the stream is cut: the commands are those of the requests exactly if
every header arrives in one piece and the memory behind the last one does not
pass for a request. -/
theorem parses_iff (fd : Int32) (last : NbdRequest × CmdArgs) (requests : List ClientRequest)
    (pieces : List (List UInt8)) (nonempty : ∀ p ∈ pieces, p ≠ [])
    (stream : pieces.flatten = requests.flatMap ClientRequest.image) :
    (∀ locals, locals.length = requests.length →
        Parses fd last requests locals (pieces.map .data)) ↔
      HeadersWhole requests pieces ∧ last.1.type ≠ nbdCmdRead ∧ last.1.len ≠ 0 := by
  induction requests generalizing pieces with
  | nil =>
    have empty : pieces = [] := by
      cases pieces with
      | nil => rfl
      | cons piece pieces =>
        exact absurd (List.append_eq_nil_iff.mp stream).1 (nonempty piece (by simp))
    rw [empty, ← parseData_end last fd]
    constructor
    · exact fun parses => ⟨by simp [HeadersWhole], parses [] rfl⟩
    · exact fun ends locals _ => ends.2
  | cons r requests ih =>
    cases pieces with
    | nil =>
      have size := congrArg List.length stream
      have header : 0 < NbdRequest.codec.size := by decide
      simp only [List.flatten_nil, List.flatMap_cons, List.length_append, r.image_length,
        List.length_nil] at size
      omega
    | cons piece pieces =>
      rw [List.flatMap_cons] at stream
      have behind : (advance r.image.length (piece :: pieces)).flatten =
          requests.flatMap ClientRequest.image := by
        rw [flatten_advance, stream, List.drop_left]
      have tail := ih _ (nonempty_advance r.image.length _ nonempty) behind
      rw [headersWhole_cons (nonempty piece (by simp)), and_assoc, ← tail]
      constructor
      · intro parses
        have whole : NbdRequest.codec.size ≤ piece.length := by
          by_contra cut
          obtain ⟨rest, parsed, taken, _⟩ := parses
            ((r.header, default) :: List.replicate requests.length default) (by simp)
          rw [Stream.bytes_data] at taken
          exact parseData_cut default fd r piece pieces (by omega) stream parsed taken
        refine ⟨whole, fun locals size => ?_⟩
        obtain ⟨rest, parsed, _, more⟩ := parses (default :: locals) (by simp [size])
        rw [r.parseData_chunks _ _ _ piece pieces nonempty whole stream] at parsed
        cases parsed
        exact more
      · rintro ⟨whole, parses⟩ locals size
        cases locals with
        | nil => cases size
        | cons junk locals =>
          refine ⟨_, r.parseData_chunks junk.1 junk.2 fd piece pieces nonempty whole stream, ?_,
            parses locals (Nat.succ.inj size)⟩
          rw [Stream.bytes_data, Stream.bytes_data, behind, stream]

def readZero : ClientRequest := ⟨List.Vector.replicate 8 7, 0, .read 4096⟩

/-- What `request` may hold at the end of the stream: a WRITE of one byte. -/
def writeOne : NbdRequest × CmdArgs :=
  (⟨nbdRequestMagic, nbdCmdWrite, readZero.handle, 0, 1⟩, default)

def writeFour : ClientRequest := ⟨List.Vector.replicate 8 8, 4096, .write [1, 2, 3, 4] (by decide)⟩

/-- The payload of a WRITE arrives in two pieces of 2 bytes, the second of them together with
the READ that follows. -/
theorem parses_iff_whole :
    let pieces := [writeFour.image.take 30, writeFour.image.drop 30 ++ readZero.image]
    HeadersWhole [writeFour, readZero] pieces ∧ ∀ locals, locals.length = 2 →
      Parses 3 writeOne [writeFour, readZero] locals (pieces.map .data) := by
  intro pieces
  have size : writeFour.image.length = 32 := by
    rw [ClientRequest.image_length]
    rfl
  have size' : readZero.image.length = 28 := by
    rw [ClientRequest.image_length]
    rfl
  have header : NbdRequest.codec.size = 28 := rfl
  have nonempty : ∀ p ∈ pieces, p ≠ [] := by
    intro p member
    apply List.ne_nil_of_length_pos
    obtain rfl | rfl : p = _ ∨ p = _ := by simpa [pieces] using member
    · rw [List.length_take, size]
      decide
    · rw [List.length_append, size']
      omega
  have first : advance writeFour.image.length pieces = [readZero.image] := by
    have cut : (writeFour.image.take 30).length = 30 := by rw [List.length_take, size]; rfl
    have tail : (writeFour.image.drop 30).length = 2 := by rw [List.length_drop, size]
    rw [advance_whole _ _ (by omega), cut, size, advance_part _ _ (by rw [List.length_append]; omega),
      List.drop_left' tail]
  have whole : HeadersWhole [writeFour, readZero] pieces := by
    refine (headersWhole_cons (nonempty _ List.mem_cons_self)).mpr ⟨?_, ?_⟩
    · rw [List.length_take, size, header]
      decide
    · rw [first]
      refine (headersWhole_cons (List.ne_nil_of_length_pos (by omega))).mpr ⟨?_, ?_⟩
      · rw [size', header]
      · simp [HeadersWhole]
  have stream : pieces.flatten = [writeFour, readZero].flatMap ClientRequest.image := by
    simp [pieces, ← List.append_assoc]
  exact ⟨whole, (parses_iff 3 writeOne [writeFour, readZero] pieces nonempty stream).mpr
    ⟨whole, by decide, by decide⟩⟩

/-- The READ arrives in two pieces of 8 and 20 bytes. -/
theorem parses_cut :
    let pieces := [readZero.image.take 8, readZero.image.drop 8]
    pieces.flatten = readZero.image ∧
      ¬ ∀ locals, locals.length = 1 → Parses 3 writeOne [readZero] locals (pieces.map .data) := by
  intro pieces
  have whole : pieces.flatten = readZero.image := by simp [pieces]
  refine ⟨whole, fun parses => ?_⟩
  obtain ⟨rest, parsed, taken, _⟩ := parses [(readZero.header, default)] rfl
  rw [Stream.bytes_data] at taken
  refine parseData_cut default 3 readZero _ _ ?_ (by rw [whole, List.append_nil]) parsed taken
  rw [List.length_take, ClientRequest.image_length]
  exact lt_of_le_of_lt (Nat.min_le_left _ _) (by decide)

end DistributedDisk
