/-
Code points, surrogates included. The value of a string literal is a sequence of code points in
which a surrogate may stand alone; such a sequence is no `String`. An adjacent high and low
surrogate denote one character, and `joinSurrogates` writes it as one code point.
-/

namespace ScriptTidy.Text

/-- A number below 0x110000: a character or a surrogate. -/
abbrev CodePoint := Fin 0x110000

-- the zero of the core library, whatever other zeros are in sight
attribute [local instance (high)] Zero.ofOfNat0

instance codePoint_neZero : NeZero 0x110000 := ⟨by decide⟩

namespace CodePoint

/-- The code point of a character. -/
def ofChar (c : Char) : CodePoint :=
  ⟨c.toNat, by
    rcases c.valid with h | ⟨_, h⟩ <;> simp only [Char.toNat, UInt32.toNat] at * <;> omega⟩

/-- The character of a code point that is no surrogate. -/
def toChar? (p : CodePoint) : Option Char :=
  if h : p.val.isValidChar then some (Char.ofNatAux p.val h) else none

/-- The first half of a surrogate pair. -/
def isHigh (p : CodePoint) : Bool := 0xd800 ≤ p.val && p.val ≤ 0xdbff

/-- The second half of a surrogate pair. -/
def isLow (p : CodePoint) : Bool := 0xdc00 ≤ p.val && p.val ≤ 0xdfff

/-- The character that a surrogate pair denotes. -/
def joined (high low : CodePoint) : CodePoint :=
  Fin.ofNat 0x110000 (0x10000 + (high.val - 0xd800) * 0x400 + (low.val - 0xdc00))

/-- Writes every adjacent high and low surrogate as one code point. -/
def joinSurrogates : List CodePoint → List CodePoint
  | high :: low :: rest =>
    if high.isHigh && low.isLow then joined high low :: joinSurrogates rest
    else high :: joinSurrogates (low :: rest)
  | rest => rest

/-- The code points of a text. -/
def ofString (s : String) : List CodePoint := s.toList.map ofChar

/-- The text of a sequence of code points without surrogates. -/
def toString? (ps : List CodePoint) : Option String := (ps.mapM toChar?).map String.ofList

/-- The code points of characters that are all ASCII. -/
def ofChars (cs : List Char) : List CodePoint := cs.map ofChar

/-- The first sequence precedes the second, code point by code point. -/
def precedes : List CodePoint → List CodePoint → Bool
  | [], [] => false
  | [], _ :: _ => true
  | _ :: _, [] => false
  | a :: as, b :: bs => if a = b then precedes as bs else a < b

end CodePoint

end ScriptTidy.Text
