import BuildPipeline.Wire.Request

/-!
Messages on a stream of bytes. A message is the size of its body in four bytes, the most significant
one first, and the body. Bodies have an upper limit, which the writer keeps and the reader checks
before it waits for the body. What was written is read back whole, whatever follows it on the
stream.
-/

namespace BuildPipeline.Wire

/-- Why a message did not come through. -/
inductive FrameError where
  /-- The stream ended where a message would begin, or inside the size of one. -/
  | closed
  /-- The stream ended inside a body. -/
  | cutShort
  /-- The rest of a message did not come in time. -/
  | timedOut
  | tooLarge (size : Nat)
  /-- The body does not hold what was expected. -/
  | fault (f : Fault)
  deriving DecidableEq

/-- What becomes of a stream behind its last byte. -/
inductive Ending where
  /-- The other side closed it. -/
  | closed
  /-- It stays open, but nothing more comes in time. -/
  | silent
  deriving DecidableEq, Repr

namespace Frame

/-- The largest size of a body. -/
def limit : Nat := 16 * 1024 * 1024

/-- The four bytes of a size. -/
def header (size : Nat) : List UInt8 :=
  [(size / 16777216).toUInt8, (size / 65536).toUInt8, (size / 256).toUInt8, size.toUInt8]

/-- The size that four bytes write. -/
def size (a b c d : UInt8) : Nat :=
  ((a.toNat * 256 + b.toNat) * 256 + c.toNat) * 256 + d.toNat

/-- The bytes of a message. -/
def write (body : List UInt8) : Except FrameError (List UInt8) :=
  if limit < body.length then .error (.tooLarge body.length)
  else .ok (header body.length ++ body)

/-- What is reported where a stream ends before the rest of a message. -/
def missing (atClose : FrameError) : Ending → FrameError
  | .closed => atClose
  | .silent => .timedOut

/-- Reads the body of the message at the front of a stream; also gives what follows it. -/
def read (ending : Ending) (stream : List UInt8) : Except FrameError (List UInt8 × List UInt8) :=
  match stream with
  | a :: b :: c :: d :: rest =>
    let n := size a b c d
    if limit < n then .error (.tooLarge n)
    else if rest.length < n then .error (missing .cutShort ending)
    else .ok (rest.take n, rest.drop n)
  | _ => .error (missing .closed ending)

theorem size_header {n : Nat} (h : n < UInt32.size) :
    size (n / 16777216).toUInt8 (n / 65536).toUInt8 (n / 256).toUInt8 n.toUInt8 = n := by
  unfold UInt32.size at h
  simp only [size, Nat.toUInt8, UInt8.toNat_ofNat']
  omega

theorem read_header_append (ending : Ending) {body rest : List UInt8}
    (h : body.length ≤ limit) :
    read ending (header body.length ++ body ++ rest) = .ok (body, rest) := by
  have small : body.length < UInt32.size := by unfold limit at h; unfold UInt32.size; omega
  simp only [header, List.cons_append, List.nil_append, read, size_header small]
  rw [if_neg (by omega), if_neg (by simp)]
  simp

theorem length_of_read_eq_ok {ending : Ending} {stream body rest : List UInt8}
    (h : read ending stream = .ok (body, rest)) : rest.length < stream.length := by
  unfold read at h
  split at h
  · simp only at h
    split at h
    · cases h
    · split at h
      · cases h
      · cases h
        simp
        omega
  · cases h

/-- Reads message after message up to the first error. -/
def readAll (ending : Ending) (stream : List UInt8) : List (List UInt8) × FrameError :=
  match _h : read ending stream with
  | .error e => ([], e)
  | .ok (body, rest) =>
    let (bodies, e) := readAll ending rest
    (body :: bodies, e)
termination_by stream.length
decreasing_by exact length_of_read_eq_ok _h

/-- The message with a value as its body. -/
def send {α : Type} (codec : Codec α) (a : α) : Except FrameError (List UInt8) :=
  write (codec.encode a).toUTF8.data.toList

/-- Reads a value from the message at the front of a stream. -/
def receive {α : Type} (codec : Codec α) (ending : Ending) (stream : List UInt8) :
    Except FrameError α :=
  match read ending stream with
  | .error e => .error e
  | .ok (body, _) =>
    match codec.decode body with
    | .error f => .error (.fault f)
    | .ok a => .ok a

end Frame

/-- The sentence reported for an error. -/
def FrameError.message : FrameError → String
  | .closed => "connection closed"
  | .cutShort => "IO error: early eof"
  | .timedOut => "timed out"
  | .tooLarge size =>
    "message of " ++ toString size ++ " bytes exceeds limit of " ++ toString Frame.limit
  | .fault f => "JSON error: " ++ f.message?.getD "unexpected content"

end BuildPipeline.Wire
