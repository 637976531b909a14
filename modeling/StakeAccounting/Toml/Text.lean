import StakeAccounting.Account

/-!
# Characters, texts and keys of TOML

A document is read character by character. Every reader of this module takes the
characters that are left and answers with what it read and with the characters
after it, or with nothing if the document is not well-formed there.

Texts come in four kinds: in one line or in several, with escapes or without. A
text of several lines loses a line break right behind its opening quotes, keeps
its other line breaks as line feeds, and, in the kind with escapes, a backslash at
the end of a line takes away all blanks up to the next character. Up to two quotes
may stand inside it, also right before the closing ones.
-/

namespace StakeAccounting

namespace Toml

/-- What a reader answers with. -/
abbrev Parsed (α : Type) : Type := Option (α × List Char)

/-- The quotation mark. -/
def quote : Char := '\x22'

/-- The apostrophe. -/
def apostrophe : Char := '\x27'

/-! ## Blanks, comments and line ends -/

/-- Whether a character is a blank inside a line. -/
def isSpace (c : Char) : Bool := c == ' ' || c == '\t'

/-- Whether a character may stand in a comment: no control character but the
tab. -/
def isPlain (c : Char) : Bool := c == '\t' || (' ' ≤ c && c != '\x7f')

/-- Pass over blanks inside a line. -/
def skipSpace (cs : List Char) : List Char := cs.dropWhile isSpace

/-- **A line break**, as a line feed with or without a carriage return. -/
def lineBreak? : List Char → Option (List Char)
  | '\n' :: rest => some rest
  | '\r' :: '\n' :: rest => some rest
  | _ => none

/-- **The rest of a line**: blanks, perhaps a comment, and the end of the line
or of the document. -/
def lineEnd? (cs : List Char) : Option (List Char) :=
  let rest := match skipSpace cs with
    | '#' :: comment => comment.dropWhile isPlain
    | other => other
  if rest.isEmpty then some [] else lineBreak? rest

/-- **Pass over blanks, line breaks and comments** between the items of a list.
`comment` says whether a comment is being passed over. -/
def skipFiller (comment : Bool) : List Char → Option (List Char)
  | [] => if comment then none else some []
  | '\r' :: '\n' :: rest => skipFiller false rest
  | c :: rest =>
    if c = '\n' then skipFiller false rest
    else if comment then if isPlain c then skipFiller true rest else none
    else if isSpace c then skipFiller false rest
    else if c = '#' then skipFiller true rest
    else some (c :: rest)

/-! ## Escapes -/

/-- The value of a hexadecimal digit. -/
def hexDigit? (c : Char) : Option Nat :=
  if c.toNat < 128 then (hexValue? (UInt8.ofNat c.toNat)).map (·.toNat) else none

/-- The character of a code point given in hexadecimal, if it is one. -/
def scalar? (digits : List Char) : Option Char :=
  let value := digits.foldl
    (fun acc c => acc.bind fun n => (hexDigit? c).map (16 * n + ·)) (some 0)
  value.bind fun n => if n.isValidChar then some (Char.ofNat n) else none

/-- The character a letter stands for behind a backslash. -/
def escape? (c : Char) : Option Char :=
  if c = 'b' then some '\x08'
  else if c = 't' then some '\t'
  else if c = 'n' then some '\n'
  else if c = 'f' then some '\x0c'
  else if c = 'r' then some '\r'
  else if c = quote then some quote
  else if c = '\\' then some '\\'
  else none

/-- Put a character in front of the text that was read. -/
def prepend (c : Char) (parsed : Parsed (List Char)) : Parsed (List Char) :=
  parsed.map fun (text, rest) => (c :: text, rest)

/-- Put a character, if there is one, in front of the text that was read. -/
def prepend? (c : Option Char) (parsed : Parsed (List Char)) : Parsed (List Char) :=
  c.bind fun c => prepend c parsed

/-! ## Texts -/

/-- **A text of one line with escapes**, behind its opening quote. -/
def basicText : List Char → Parsed (List Char)
  | [] => none
  | '\\' :: 'u' :: a :: b :: c :: d :: rest => prepend? (scalar? [a, b, c, d]) (basicText rest)
  | '\\' :: 'U' :: a :: b :: c :: d :: e :: f :: g :: h :: rest =>
    prepend? (scalar? [a, b, c, d, e, f, g, h]) (basicText rest)
  | '\\' :: c :: rest => prepend? (escape? c) (basicText rest)
  | c :: rest =>
    if c = quote then some ([], rest)
    else if isPlain c && c != '\\' then prepend c (basicText rest)
    else none

/-- **A text of one line without escapes**, behind its opening apostrophe. -/
def literalText : List Char → Parsed (List Char)
  | [] => none
  | c :: rest =>
    if c = apostrophe then some ([], rest)
    else if isPlain c then prepend c (literalText rest)
    else none

/-- Whether the line ends here, blanks aside. -/
def atLineBreak (cs : List Char) : Bool := (lineBreak? (skipSpace cs)).isSome

/-- **What a run of closing quotes leaves**: with three to five of them the text
ends, up to two of them belonging to it. -/
def closing? (q : Char) : List Char → Parsed (List Char)
  | a :: b :: c :: rest =>
    if a = q ∧ b = q ∧ c = q then
      match rest with
      | d :: e :: rest' =>
        if d = q ∧ e = q then some ([q, q], rest')
        else if d = q then some ([q], e :: rest')
        else some ([], rest)
      | [d] => if d = q then some ([q], []) else some ([], rest)
      | [] => some ([], [])
    else none
  | _ => none

/-- **A text of several lines with escapes**, behind its opening quotes and the
line break there. `joining` says whether blanks behind a backslash are being
passed over. -/
def basicLines (joining : Bool) : List Char → Parsed (List Char)
  | [] => none
  | '\\' :: 'u' :: a :: b :: c :: d :: rest =>
    prepend? (scalar? [a, b, c, d]) (basicLines false rest)
  | '\\' :: 'U' :: a :: b :: c :: d :: e :: f :: g :: h :: rest =>
    prepend? (scalar? [a, b, c, d, e, f, g, h]) (basicLines false rest)
  | '\\' :: c :: rest =>
    if atLineBreak (c :: rest) then basicLines true (c :: rest)
    else prepend? (escape? c) (basicLines false rest)
  | '\r' :: '\n' :: rest =>
    if joining then basicLines true rest else prepend '\n' (basicLines false rest)
  | c :: rest =>
    if joining && (isSpace c || c == '\n') then basicLines true rest
    else if c = '\n' then prepend '\n' (basicLines false rest)
    else
      match closing? quote (c :: rest) with
      | some found => some found
      | none => if isPlain c && c != '\\' then prepend c (basicLines false rest) else none

/-- **A text of several lines without escapes**, behind its opening apostrophes
and the line break there. -/
def literalLines : List Char → Parsed (List Char)
  | [] => none
  | '\r' :: '\n' :: rest => prepend '\n' (literalLines rest)
  | c :: rest =>
    if c = '\n' then prepend '\n' (literalLines rest)
    else
      match closing? apostrophe (c :: rest) with
      | some found => some found
      | none => if isPlain c then prepend c (literalLines rest) else none

/-- The characters behind a line break, if one stands in front. -/
def afterBreak (cs : List Char) : List Char := (lineBreak? cs).getD cs

/-- **A text of any kind**, with its quotes. -/
def text? : List Char → Parsed String
  | a :: b :: c :: rest =>
    let parsed :=
      if a = quote ∧ b = quote ∧ c = quote then basicLines false (afterBreak rest)
      else if a = apostrophe ∧ b = apostrophe ∧ c = apostrophe then literalLines (afterBreak rest)
      else if a = quote then basicText (b :: c :: rest)
      else if a = apostrophe then literalText (b :: c :: rest)
      else none
    parsed.map fun (text, rest) => (String.ofList text, rest)
  | [a, b] =>
    if (a = quote ∨ a = apostrophe) ∧ b = a then some ("", []) else none
  | _ => none

/-! ## Keys -/

/-- Whether a character may stand in a key without quotes. -/
def isBare (c : Char) : Bool := c.isAlphanum || c == '_' || c == '-'

/-- **A key**, with quotes of one line or without. -/
def key? : List Char → Parsed String
  | [] => none
  | c :: rest =>
    if c = quote then (basicText rest).map fun (text, rest) => (String.ofList text, rest)
    else if c = apostrophe then
      (literalText rest).map fun (text, rest) => (String.ofList text, rest)
    else
      let bare := (c :: rest).takeWhile isBare
      if bare.isEmpty then none else some (String.ofList bare, (c :: rest).dropWhile isBare)

/-- The most parts a dotted key has. -/
def maxParts : Nat := 79

/-- **A dotted key**: one or more keys with points between them, blanks around
each. At most `n` parts are read. -/
def dottedKey? : Nat → List Char → Parsed (List String)
  | 0, _ => none
  | n + 1, cs =>
    (key? (skipSpace cs)).bind fun (part, rest) =>
      match skipSpace rest with
      | '.' :: more => (dottedKey? n more).map fun (parts, rest) => (part :: parts, rest)
      | other => some ([part], other)

end Toml

end StakeAccounting
