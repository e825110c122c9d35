/-!
# Bytes of a text file

A text file is read as UTF-8.  What is not UTF-8 is never refused: the longest piece that could have
started a character, or else one byte, becomes a replacement character.

Lines of a file end with a line feed, a carriage return, or both in this order; in the text they all
end with a line feed.
-/

namespace ArrayCalc.Text

/-- Stands for what cannot be decoded. -/
def replacement : Char := '\ufffd'

namespace Utf8

/-- Whether a byte continues a character. -/
def isContinuation (b : UInt8) : Bool := 0x80 ≤ b && b ≤ 0xbf

/-- How a character goes on after its first byte: the number of further bytes, the bounds of the
first of those, and the bits in the first byte. -/
def leading? (b : UInt8) : Option (Nat × UInt8 × UInt8 × UInt8) :=
  if b < 0x80 then some (0, 0x80, 0xbf, b)
  else if 0xc2 ≤ b && b ≤ 0xdf then some (1, 0x80, 0xbf, b &&& 0x1f)
  else if b = 0xe0 then some (2, 0xa0, 0xbf, 0)
  else if b = 0xed then some (2, 0x80, 0x9f, 0x0d)
  else if 0xe1 ≤ b && b ≤ 0xef then some (2, 0x80, 0xbf, b &&& 0x0f)
  else if b = 0xf0 then some (3, 0x90, 0xbf, 0)
  else if 0xf1 ≤ b && b ≤ 0xf3 then some (3, 0x80, 0xbf, b &&& 0x07)
  else if b = 0xf4 then some (3, 0x80, 0x8f, 0x04)
  else none

/-- The bytes that belong to a character behind its first one, as far as they are there. -/
def continuation (count : Nat) (low high : UInt8) (bytes : List UInt8) : List UInt8 :=
  match count, bytes with
  | count + 1, b :: rest =>
    if low ≤ b && b ≤ high then b :: (rest.take count).takeWhile isContinuation else []
  | _, _ => []

/-- The character that starts with `b`, and the number of bytes behind `b` that it takes. -/
def character (b : UInt8) (rest : List UInt8) : Char × Nat :=
  match leading? b with
  | none => (replacement, 0)
  | some (count, low, high, bits) =>
    let others := continuation count low high rest
    if others.length = count then
      (Char.ofNat (others.foldl (fun code b => code * 64 + (b &&& 0x3f).toNat) bits.toNat), count)
    else (replacement, others.length)

/-- The text that some bytes stand for. -/
def decode : List UInt8 → List Char
  | [] => []
  | b :: rest =>
    let (c, count) := character b rest
    c :: decode (rest.drop count)
termination_by bytes => bytes.length
decreasing_by simp only [List.length_drop, List.length_cons]; omega

end Utf8

/-- The number of bytes in the first `count` lines. -/
def bytesOfLines : Nat → List UInt8 → Nat
  | 0, _ | _ + 1, [] => 0
  | count + 1, 0x0d :: 0x0a :: rest => bytesOfLines count rest + 2
  | count + 1, b :: rest =>
    if b = 0x0a ∨ b = 0x0d then bytesOfLines count rest + 1
    else bytesOfLines (count + 1) rest + 1

/-- The text with a line feed at the end of every line. -/
def withLineFeeds : List Char → List Char
  | [] => []
  | '\r' :: '\n' :: rest => '\n' :: withLineFeeds rest
  | '\r' :: rest => '\n' :: withLineFeeds rest
  | c :: rest => c :: withLineFeeds rest

/-- The text of a file. -/
def ofFile (bytes : List UInt8) : List Char := withLineFeeds (Utf8.decode bytes)

end ArrayCalc.Text
