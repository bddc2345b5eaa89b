/-
UTF-8 in both directions. Decoding stops at the first byte sequence that no character has, and tells
where it lies and what is wrong with it; `decodeLossy` puts the replacement character there and goes
on.
-/

namespace ScriptTidy.Text

-- sums of the core library, whatever other zeros are in sight
attribute [local instance (high)] Zero.ofOfNat0

namespace Utf8

/-- What is wrong with a byte sequence. -/
inductive Flaw where
  /-- No character starts with this byte. -/
  | start
  /-- A byte that should continue a character does not. -/
  | continuation
  /-- The text ends inside a character. -/
  | truncation
deriving DecidableEq, Repr

/-- A flawed sequence: its first byte, where it starts, and the offset after its end. -/
structure Fault where
  byte : UInt8
  start : Nat
  stop : Nat
  flaw : Flaw
deriving DecidableEq, Repr

/-- The words for a flaw. -/
def Flaw.message : Flaw → String
  | start => "invalid start byte"
  | continuation => "invalid continuation byte"
  | truncation => "unexpected end of data"

/-- A step of the decoder: a character, or a flawed sequence, with the number of its bytes. -/
inductive Step where
  | char (c : Char) (width : Nat)
  | flawed (flaw : Flaw) (width : Nat)

/-- A byte that continues a character. -/
def isContinuation (b : UInt8) : Bool := 0x80 ≤ b && b ≤ 0xbf

/-- The bytes that may follow the first one of a character. After some first bytes the range is
narrower, to rule out surrogates, numbers beyond the last code point, and overlong forms. -/
def mayFollow (first b : UInt8) : Bool :=
  isContinuation b &&
    (if first = 0xe0 then 0xa0 ≤ b
    else if first = 0xed then b < 0xa0
    else if first = 0xf0 then 0x90 ≤ b
    else if first = 0xf4 then b < 0x90
    else true)

/-- The number of bytes of a character that starts with the given byte, if there is one. -/
def widthOf? (first : UInt8) : Option Nat :=
  if first < 0x80 then some 1
  else if 0xc2 ≤ first && first ≤ 0xdf then some 2
  else if 0xe0 ≤ first && first ≤ 0xef then some 3
  else if 0xf0 ≤ first && first ≤ 0xf4 then some 4
  else none

/-- The payload of the first byte of a character. -/
def leadBits (first : UInt8) : Nat → Nat
  | 1 => first.toNat
  | 2 => first.toNat % 0x20
  | 3 => first.toNat % 0x10
  | _ => first.toNat % 0x08

/-- The continuation bytes after the second one, as long as they are in order. -/
def continuations (bs : List UInt8) : List UInt8 := bs.takeWhile isContinuation

/-- The character or the flawed sequence with which a non-empty text starts. -/
def step (first : UInt8) (rest : List UInt8) : Step :=
  match widthOf? first with
  | none => .flawed .start 1
  | some 1 => .char (Char.ofNat first.toNat) 1
  | some width =>
    match rest.take (width - 1) with
    | [] => .flawed .truncation 1
    | second :: others =>
      if !mayFollow first second then .flawed .continuation 1
      else
        let tail := second :: continuations others
        if tail.length = width - 1 then
          let code := tail.foldl (fun n b => n * 0x40 + b.toNat % 0x40) (leadBits first width)
          .char (Char.ofNat code) width
        else if tail.length = others.length + 1 then .flawed .truncation (tail.length + 1)
        else .flawed .continuation (tail.length + 1)

/-- Decodes a text that stands at the given offset, one step for each unit of the first number. -/
def decodeFrom : Nat → Nat → List UInt8 → Except Fault (List Char)
  | _, _, [] => .ok []
  | 0, _, _ => .ok []
  | fuel + 1, offset, first :: rest =>
    match step first rest with
    | .char c width => do
      return c :: (← decodeFrom fuel (offset + width) (rest.drop (width - 1)))
    | .flawed flaw width => .error ⟨first, offset, offset + width, flaw⟩

/-- Decodes a text, with the replacement character for every flawed sequence. -/
def decodeLossyFrom : Nat → List UInt8 → List Char
  | _, [] => []
  | 0, _ => []
  | fuel + 1, first :: rest =>
    match step first rest with
    | .char c width => c :: decodeLossyFrom fuel (rest.drop (width - 1))
    | .flawed _ width => Char.ofNat 0xfffd :: decodeLossyFrom fuel (rest.drop (width - 1))

end Utf8

/-- The characters of a text in UTF-8. -/
def decodeUtf8 (bytes : List UInt8) : Except Utf8.Fault (List Char) :=
  Utf8.decodeFrom bytes.length 0 bytes

/-- The characters of a text in UTF-8, with the replacement character where it is flawed. -/
def decodeLossy (bytes : List UInt8) : List Char := Utf8.decodeLossyFrom bytes.length bytes

/-- A text in UTF-8. -/
def encodeUtf8 (s : String) : List UInt8 := s.toUTF8.toList

end ScriptTidy.Text
