/-
Tokens of a script: names, numbers, strings and punctuation marks, and the pieces of templates and
regular expressions, whose extent only the grammar can tell. `Token.next` finds the token at a
cursor as it reads where an operator may stand; `regex` and `templatePiece` read on where an operand
may.
-/
import ScriptTidy.Grammar.Trivia
import ScriptTidy.Text.Category
import ScriptTidy.Text.Escape

namespace ScriptTidy.Grammar

/-- A part of a text, and what follows it. -/
abbrev Cut := List Char × List Char

/-- A hexadecimal digit. -/
def isHexDigit (c : Char) : Bool := c.isDigit || ('a' ≤ c && c ≤ 'f') || ('A' ≤ c && c ≤ 'F')

/-! ## Escapes -/

/-- The text goes on with as many hexadecimal digits. -/
def startsWithHex (count : Nat) (s : List Char) : Bool :=
  let digits := s.take count
  digits.length == count && digits.all isHexDigit

/-- The text goes on with the rest of a Unicode escape: four digits, or digits in braces. -/
def completesUnicode (s : List Char) : Bool :=
  match s with
  | '{' :: rest =>
    let digits := rest.takeWhile isHexDigit
    !digits.isEmpty && (rest.drop digits.length).head? == some '}'
  | _ => startsWithHex 4 s

/-- The character after a backslash, and the text after it, form a complete escape. -/
def isEscape (c : Char) (rest : List Char) : Bool :=
  if c == 'x' then startsWithHex 2 rest
  else if c == 'u' then completesUnicode rest
  else true

/-! ## Names -/

/-- The characters of a name from a point within it on. `inBraces` tells whether an escape in braces
is open. A name with a broken escape has no extent. -/
def nameFrom : Bool → List Char → Option Cut
  | inBraces, '\\' :: 'u' :: rest =>
    if !inBraces && completesUnicode rest then
      (nameFrom (rest.head? == some '{') rest).map fun cut => ('\\' :: 'u' :: cut.1, cut.2)
    else none
  | inBraces, c :: rest =>
    if inBraces then (nameFrom (c != '}') rest).map fun cut => (c :: cut.1, cut.2)
    else if c == '\\' then none
    else if Text.isIdentifierPart c.toNat then
      (nameFrom false rest).map fun cut => (c :: cut.1, cut.2)
    else some ([], c :: rest)
  | _, [] => some ([], [])

/-- A name can start with the character. -/
def startsName (c : Char) : Bool := Text.isIdentifierStart c.toNat || c == '\\'

/-- The characters that a name consists of, with its escapes replaced. -/
def nameValue? (text : List Char) : Option (List Char) :=
  match Text.decodeString (Text.CodePoint.ofChars text) with
  | .ok value => value.mapM Text.CodePoint.toChar?
  | .error _ => none

/-- The characters form a name. -/
def isName (value : List Char) : Bool :=
  match value with
  | c :: rest =>
    Text.isIdentifierStart c.toNat && rest.all fun d => Text.isIdentifierPart d.toNat
  | [] => false

/-- The name at the start of a text. -/
def name? (s : List Char) : Option Cut :=
  (nameFrom false s).bind fun cut =>
    if ((nameValue? cut.1).map isName).getD false then some cut else none

/-! ## Numbers -/

/-- The leading digits, with separators among them. -/
def digits (isDigit : Char → Bool) (s : List Char) : Cut :=
  let isPart (c : Char) : Bool := isDigit c || c == '_'
  (s.takeWhile isPart, s.dropWhile isPart)

/-- Every separator stands between two digits. -/
def separatesDigits : List Char → Bool
  | [] => true
  | ['_'] => false
  | '_' :: '_' :: _ => false
  | _ :: rest => separatesDigits rest

/-- The digits are fit to stand in a number: there are some, and separators stand between digits. -/
def isDigitRun (s : List Char) : Bool := s.head?.any (· != '_') && separatesDigits s

/-- The exponent of a number, if there is one, in front of what follows. -/
def exponent (s : List Char) : Option Cut :=
  match s with
  | c :: rest =>
    if c == 'e' || c == 'E' then
      let sign := rest.takeWhile fun d => d == '+' || d == '-'
      let (run, after) := digits Char.isDigit (rest.drop sign.length)
      if sign.length ≤ 1 && isDigitRun run then some (c :: sign ++ run, after) else none
    else some ([], s)
  | [] => some ([], [])

/-- The fraction and exponent of a number, if there are any. -/
def fraction (s : List Char) : Option Cut :=
  match s with
  | '.' :: rest =>
    let (run, after) := digits Char.isDigit rest
    if run.isEmpty || isDigitRun run then
      (exponent after).map fun cut => ('.' :: run ++ cut.1, cut.2)
    else none
  | _ => exponent s

/-- A number whose base the letter after its zero names. -/
def basedNumber (isDigit : Char → Bool) (lead : List Char) (s : List Char) : Option Cut :=
  let (run, after) := digits isDigit s
  if isDigitRun run then
    match after with
    | 'n' :: rest => some (lead ++ run ++ ['n'], rest)
    | _ => some (lead ++ run, after)
  else none

/-- A number that starts with a needless zero: octal, unless a digit rules that out. -/
def legacyNumber (s : List Char) : Option Cut :=
  let run := s.takeWhile Char.isDigit
  let after := s.drop run.length
  if run.all fun c => c != '8' && c != '9' then some (run, after)
  else (fraction after).map fun cut => (run ++ cut.1, cut.2)

/-- A decimal number. -/
def decimalNumber (s : List Char) : Option Cut :=
  let (run, after) := digits Char.isDigit s
  if run.isEmpty || isDigitRun run then
    match after with
    | 'n' :: rest => if run.isEmpty then none else some (run ++ ['n'], rest)
    | _ => (fraction after).map fun cut => (run ++ cut.1, cut.2)
  else none

/-- The number at the start of a text, which no name or digit may follow. -/
def number? (s : List Char) : Option Cut :=
  let found :=
    match s with
    | '0' :: c :: rest =>
      if c == 'x' || c == 'X' then basedNumber isHexDigit ['0', c] rest
      else if c == 'o' || c == 'O' then basedNumber (fun d => '0' ≤ d && d ≤ '7') ['0', c] rest
      else if c == 'b' || c == 'B' then basedNumber (fun d => d == '0' || d == '1') ['0', c] rest
      else if c.isDigit then legacyNumber s
      else if c == '_' then none
      else decimalNumber s
    | _ => decimalNumber s
  found.bind fun cut =>
    if cut.2.head?.any fun c => startsName c || c.isDigit then none else some cut

/-! ## Strings, regular expressions and templates -/

/-- The rest of a string after its first quote, the last quote included. -/
def stringFrom (quote : Char) : List Char → Option Cut
  | '\\' :: '\r' :: '\n' :: rest =>
    (stringFrom quote rest).map fun cut => ('\\' :: '\r' :: '\n' :: cut.1, cut.2)
  | '\\' :: c :: rest =>
    if isEscape c rest then (stringFrom quote rest).map fun cut => ('\\' :: c :: cut.1, cut.2)
    else none
  | c :: rest =>
    if c == quote then some ([c], rest)
    else if c == '\n' || c == '\r' || c == '\\' then none
    else (stringFrom quote rest).map fun cut => (c :: cut.1, cut.2)
  | [] => none

/-- The body of a regular expression after its first slash, the last slash included. A slash in
brackets does not end it. -/
def regexFrom : Bool → List Char → Option Cut
  | inBrackets, '\\' :: c :: rest =>
    if isLineEnd c then none
    else (regexFrom inBrackets rest).map fun cut => ('\\' :: c :: cut.1, cut.2)
  | inBrackets, c :: rest =>
    if isLineEnd c || c == '\\' then none
    else if c == '/' && !inBrackets then some ([c], rest)
    else
      (regexFrom (c == '[' || (inBrackets && c != ']')) rest).map fun cut => (c :: cut.1, cut.2)
  | _, [] => none

/-- The regular expression at the start of a text, with its flags. -/
def regex? (s : List Char) : Option Cut :=
  match s with
  | '/' :: rest =>
    (regexFrom false rest).map fun cut =>
      let flags := cut.2.takeWhile fun c => Text.isIdentifierPart c.toNat
      ('/' :: cut.1 ++ flags, cut.2.drop flags.length)
  | _ => none

/-- The raw text of a template up to its end or its next substitution. -/
structure TemplatePiece where
  text : List Char
  /-- All escapes are complete, and none is octal. -/
  isValid : Bool
  /-- The piece ends the template. -/
  isLast : Bool
  rest : List Char

/-- The character after a backslash starts an escape that a template may hold. -/
def isTemplateEscape (c : Char) (rest : List Char) : Bool :=
  if c == '0' then !(rest.head?.any Char.isDigit)
  else if c.isDigit then false
  else isEscape c rest

/-- One more character in front of a template piece. -/
def TemplatePiece.cons (c : Char) (p : TemplatePiece) : TemplatePiece :=
  { p with text := c :: p.text }

/-- The template piece at the start of a text, without the mark at its end. -/
def templatePiece? : List Char → Option TemplatePiece
  | '\\' :: c :: rest =>
    (templatePiece? rest).map fun p =>
      { p with text := '\\' :: c :: p.text, isValid := isTemplateEscape c rest && p.isValid }
  | '$' :: '{' :: rest => some ⟨[], true, false, rest⟩
  | c :: rest =>
    if c == '\x60' then some ⟨[], true, true, rest⟩
    else if c == '\\' then none
    else (templatePiece? rest).map (.cons c)
  | [] => none

/-! ## Tokens -/

/-- What a token is. -/
inductive TokenKind where
  | name
  | privateName
  | number
  | string
  | mark
  | finish
  /-- No token starts here. -/
  | invalid
deriving DecidableEq, Repr

/-- A token with its place. -/
structure Token where
  kind : TokenKind
  text : String
  start : Nat
  stop : Nat
  /-- A line ends between the token before and this one. -/
  afterLineEnd : Bool
deriving DecidableEq, Repr

/-- The punctuation marks; of several that fit, the first is taken. -/
def marks : List (List Char) :=
  [">>>=", "...", "===", "!==", "**=", "<<=", ">>=", ">>>", "&&=", "||=", "??=",
    "=>", "==", "!=", "<=", ">=", "&&", "||", "??", "?.", "++", "--", "+=", "-=", "*=", "/=", "%=",
    "&=", "|=", "^=", "<<", ">>", "**",
    "\x7b", "\x7d", "(", ")", "[", "]", ";", ",", "<", ">", "+", "-", "*", "/", "%", "&", "|", "^",
    "!", "~", "?", ":", "=", ".", "@", "\x60"].map String.toList

/-- The punctuation mark fits at the start of a text. A question mark before a decimal fraction is
no optional chain. -/
def markFits (s mark : List Char) : Bool :=
  mark.isPrefixOf s &&
    !(mark == ['?', '.'] && (s.drop 2).head?.any Char.isDigit)

/-- The punctuation mark at the start of a text. -/
def mark? (s : List Char) : Option Cut :=
  (marks.find? (markFits s)).map fun mark => (mark, s.drop mark.length)

/-- The token at the start of a non-empty text. -/
def tokenAt (c : Char) (rest : List Char) : Option (TokenKind × Cut) :=
  let s := c :: rest
  if c == '#' then (name? rest).map fun cut => (.privateName, '#' :: cut.1, cut.2)
  else if startsName c then (name? s).map (.name, ·)
  else if c.isDigit || (c == '.' && rest.head?.any Char.isDigit) then (number? s).map (.number, ·)
  else if c == '\'' || c == '"' then
    (stringFrom c rest).map fun cut => (.string, c :: cut.1, cut.2)
  else (mark? s).map (.mark, ·)

/-- The bytes of a text. -/
def byteLength (s : List Char) : Nat := s.foldl (fun n c => n + c.utf8Size) 0

/-- The token at a cursor, and the cursor after it. -/
def Token.at (c : Cursor) (afterLineEnd : Bool) : Token × Cursor :=
  let unreadable : Token × Cursor :=
    (⟨.invalid, String.ofList (c.chars.take 1), c.offset, c.offset, afterLineEnd⟩, c)
  match c.chars with
  | [] => (⟨.finish, "", c.offset, c.offset, afterLineEnd⟩, c)
  | first :: rest =>
    match tokenAt first rest with
    | some (kind, text, after) =>
      let stop := c.offset + byteLength text
      (⟨kind, String.ofList text, c.offset, stop, afterLineEnd⟩, ⟨after, stop⟩)
    | none => unreadable

end ScriptTidy.Grammar
