import ArrayCalc.Text.Utf8
import ArrayCalc.Token.Source

/-!
# Open files

A file stays open while its lines are run, and a command on one of its lines may replace what it
holds.  The file is read in chunks, a chunk when a line needs it, so that such a change shows only
in what has not been read before: reading goes on at the same offset of whatever the file holds
then.

Between two changes all that is left of the file is known, and the account of how much of it has
been read is settled when the next change shows.
-/

namespace ArrayCalc

structure OpenFile where
  name : String
  /-- What the file holds. -/
  bytes : List UInt8
  /-- The bytes that have been read and that no line has taken. -/
  buffer : List UInt8
  /-- Where reading goes on. -/
  offset : Nat
  /-- The number of line feeds scanned before the buffer. -/
  feeds : Nat
deriving DecidableEq

namespace OpenFile

/-- The number of bytes that are read at a time. -/
def chunkSize : Nat := 8192

/-- A file of which nothing has been read. -/
def ofBytes (name : String) (bytes : List UInt8) : OpenFile where
  name := name
  bytes := bytes
  buffer := []
  offset := 0
  feeds := 0

/-- All that is left of a file. -/
def rest (f : OpenFile) : List UInt8 := f.buffer ++ f.bytes.drop f.offset

/-- The number of bytes that have to be read before `taken` of them can be taken as lines.  Whether
a carriage return ends a line on its own shows in the byte after it. -/
def needed (f : OpenFile) (taken : Nat) : Nat :=
  if (f.rest.take taken).getLast? = some 0x0d then taken + 1 else taken

/-- The number of bytes that are read from the file so that `taken` bytes can be taken as lines.
Only the last chunk of a file is short. -/
def fetched (f : OpenFile) (taken : Nat) : Nat :=
  let chunks := (f.needed taken - f.buffer.length + chunkSize - 1) / chunkSize
  min (chunks * chunkSize) (f.bytes.length - f.offset)

/-- The file when `taken` bytes have been taken as lines and it has come to hold `bytes`. -/
def goOn (f : OpenFile) (taken : Nat) (bytes : List UInt8) : OpenFile :=
  { f with
    bytes := bytes
    buffer := (f.rest.take (f.buffer.length + f.fetched taken)).drop taken
    offset := f.offset + f.fetched taken }

/-- The file and the source of its tokens when the lines that the source has begun are taken and the
file has come to hold `bytes`. -/
def follow (f : OpenFile) (s : Source) (bytes : List UInt8) : OpenFile × Source :=
  if f.bytes = bytes then (f, s)
  else
    let taken := Text.bytesOfLines (s.linesBegun - f.feeds) f.rest
    let f := { f.goOn taken bytes with feeds := s.scanner.feeds }
    (f, s.goOn (Text.ofFile f.rest))

/-- The tokens of a file. -/
def source (f : OpenFile) : Source := Source.ofText (Text.ofFile f.rest)

end OpenFile

end ArrayCalc
