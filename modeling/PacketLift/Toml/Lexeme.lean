import PacketLift.Text.Digits

/-!
# Characters, blanks and strings of TOML

The smallest parts of a TOML file. A reader takes something off the front of the text and gives it
back with the rest; it fails where the text does not go on as it has to.

## Main definitions

* `skipBlank`, `skipFiller`, `lineEnd?`: blanks, comments and line breaks
* `basicBody?`, `multiBasicBody?`, `literalBody?`, `multiLiteralBody?`: the four kinds of strings
-/

namespace PacketLift.Toml

/-! ## Blanks and comments -/

/-- Whether a character is a blank inside of a line. -/
def isBlankChar (c : Char) : Bool := c = ' ' || c = '\t'

/-- Whether a character may stand in a comment: no control other than the tab. -/
def isCommentChar (c : Char) : Bool := c = '\t' || (' ' ≤ c && c ≠ '\x7f')

/-- Skip blanks inside of a line. -/
def skipBlank (cs : List Char) : List Char := cs.dropWhile isBlankChar

/-- Skip a comment, if there is one. -/
def skipComment : List Char → List Char
  | '#' :: cs => cs.dropWhile isCommentChar
  | cs => cs

/-- Take off a line break. -/
def lineBreak? : List Char → Option (List Char)
  | '\n' :: cs => some cs
  | '\r' :: '\n' :: cs => some cs
  | _ => none

/-- **The end of a line**: blanks and a comment, and then a line break or the end of the text. -/
def lineEnd? (cs : List Char) : Option (List Char) :=
  match skipComment (skipBlank cs) with
  | [] => some []
  | rest => lineBreak? rest

/-- Skip blanks, comments and line breaks. The flag says whether a comment is open. -/
def skipFillerFrom : Bool → List Char → List Char
  | _, [] => []
  | inComment, c :: cs =>
    if inComment && isCommentChar c then skipFillerFrom true cs
    else if isBlankChar c || c = '\n' then skipFillerFrom false cs
    else if c = '\r' && cs.head? = some '\n' then skipFillerFrom false cs
    else if c = '#' then skipFillerFrom true cs
    else c :: cs

/-- **Skip blanks, comments and line breaks.** -/
def skipFiller (cs : List Char) : List Char := skipFillerFrom false cs

/-! ## Strings -/

/-- Whether a character may stand by itself in a string with escapes. -/
def isBasicChar (c : Char) : Bool := isCommentChar c && c ≠ '"' && c ≠ '\\'

/-- Whether a character may stand in a string without escapes. -/
def isLiteralChar (c : Char) : Bool := isCommentChar c && c ≠ '\''

/-- The character meant by a letter behind a backslash. -/
def escaped? : Char → Option Char
  | 'b' => some '\x08'
  | 't' => some '\t'
  | 'n' => some '\n'
  | 'f' => some '\x0c'
  | 'r' => some '\r'
  | '"' => some '"'
  | '\\' => some '\\'
  | _ => none

/-- The character of a code point in hexadecimal digits. Surrogates and numbers that are too large
are refused. -/
def codePoint? (digits : List Char) : Option Char := do
  let n ← Text.digitsValue? 16 digits
  if n.isValidChar then some (Char.ofNat n) else none

/-- The rest of a string in double quotes, up to its closing quote. -/
def basicBody? : List Char → Option (List Char × List Char)
  | [] => none
  | '"' :: cs => some ([], cs)
  | '\\' :: 'u' :: a :: b :: c :: d :: cs => do
    let char ← codePoint? [a, b, c, d]
    let (text, rest) ← basicBody? cs
    return (char :: text, rest)
  | '\\' :: 'U' :: a :: b :: c :: d :: e :: f :: g :: h :: cs => do
    let char ← codePoint? [a, b, c, d, e, f, g, h]
    let (text, rest) ← basicBody? cs
    return (char :: text, rest)
  | '\\' :: e :: cs => do
    let char ← escaped? e
    let (text, rest) ← basicBody? cs
    return (char :: text, rest)
  | c :: cs => do
    guard (isBasicChar c)
    let (text, rest) ← basicBody? cs
    return (c :: text, rest)

/-- Whether a line ends here, so that a backslash in front joins it with what follows. -/
def endsLine (cs : List Char) : Bool := (lineBreak? (skipBlank cs)).isSome

/-- The rest of a string in three double quotes, up to its closing quotes. Up to two more quotes
may stand in front of those. The flag says whether blanks and line breaks are being skipped behind
a backslash at the end of a line. -/
def multiBasicBody? : Bool → List Char → Option (List Char × List Char)
  | _, [] => none
  | _, '"' :: '"' :: '"' :: '"' :: '"' :: cs => some (['"', '"'], cs)
  | _, '"' :: '"' :: '"' :: '"' :: cs => some (['"'], cs)
  | _, '"' :: '"' :: '"' :: cs => some ([], cs)
  | skipping, '\r' :: '\n' :: cs => do
    let (text, rest) ← multiBasicBody? skipping cs
    return (if skipping then text else '\n' :: text, rest)
  | _, '\\' :: 'u' :: a :: b :: c :: d :: cs => do
    let char ← codePoint? [a, b, c, d]
    let (text, rest) ← multiBasicBody? false cs
    return (char :: text, rest)
  | _, '\\' :: 'U' :: a :: b :: c :: d :: e :: f :: g :: h :: cs => do
    let char ← codePoint? [a, b, c, d, e, f, g, h]
    let (text, rest) ← multiBasicBody? false cs
    return (char :: text, rest)
  | skipping, c :: cs =>
    if skipping && (isBlankChar c || c = '\n') then multiBasicBody? true cs
    else if c = '\\' && endsLine cs then multiBasicBody? true cs
    else if c = '\\' then
      match cs with
      | [] => none
      | e :: cs => do
        let char ← escaped? e
        let (text, rest) ← multiBasicBody? false cs
        return (char :: text, rest)
    else do
      guard (isBasicChar c || c = '"' || c = '\n')
      let (text, rest) ← multiBasicBody? false cs
      return (c :: text, rest)

/-- The rest of a string in single quotes, up to its closing quote. -/
def literalBody? (cs : List Char) : Option (List Char × List Char) :=
  match cs.dropWhile isLiteralChar with
  | '\'' :: rest => some (cs.takeWhile isLiteralChar, rest)
  | _ => none

/-- The rest of a string in three single quotes, up to its closing quotes. Up to two more quotes
may stand in front of those. -/
def multiLiteralBody? : List Char → Option (List Char × List Char)
  | [] => none
  | '\'' :: '\'' :: '\'' :: '\'' :: '\'' :: cs => some (['\'', '\''], cs)
  | '\'' :: '\'' :: '\'' :: '\'' :: cs => some (['\''], cs)
  | '\'' :: '\'' :: '\'' :: cs => some ([], cs)
  | '\r' :: '\n' :: cs => do
    let (text, rest) ← multiLiteralBody? cs
    return ('\n' :: text, rest)
  | c :: cs => do
    guard (isLiteralChar c || c = '\'' || c = '\n')
    let (text, rest) ← multiLiteralBody? cs
    return (c :: text, rest)

/-- Take off a line break that follows the opening quotes of a string of several lines. -/
def skipFirstBreak (cs : List Char) : List Char := (lineBreak? cs).getD cs

/-- **A string of any kind.** -/
def string? : List Char → Option (List Char × List Char)
  | '"' :: '"' :: '"' :: cs => multiBasicBody? false (skipFirstBreak cs)
  | '"' :: cs => basicBody? cs
  | '\'' :: '\'' :: '\'' :: cs => multiLiteralBody? (skipFirstBreak cs)
  | '\'' :: cs => literalBody? cs
  | _ => none

end PacketLift.Toml
