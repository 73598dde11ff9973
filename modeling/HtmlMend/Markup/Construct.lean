import HtmlMend.Markup.Token
import HtmlMend.Text.Lowercase

/-! # Markup: constructs

A construct is a tag, a comment, a declaration or a section that leaves no token. It begins with
`<` and is read character by character: an unfinished construct goes on with a character, is
completed by it, or cannot go on with it. Only a complete construct is markup; the text of one that
cannot go on is ordinary text. -/

namespace HtmlMend.Markup

/-! ## Classes of characters

The characters of names, the spaces between the parts of a tag, the ends of unquoted values, and
the declarations that are accepted. -/

/-- Whether a character is a space within markup. -/
def isSpace (c : Char) : Bool :=
  c = ' ' || c = '\t' || c = '\n' || c = '\r' || c = '\x0c' || c = '\x0b'

/-- Whether a name can begin with a character. -/
def isNameStart (c : Char) : Bool := Text.isLetter c

/-- Whether a name can go on with a character. -/
def isNameChar (c : Char) : Bool := Text.isAlphanumeric c || c = '_' || c = '-'

theorem isNameChar_of_isNameStart {c : Char} (h : isNameStart c = true) : isNameChar c = true := by
  simp [isNameChar, Text.isAlphanumeric_of_isLetter h]

/-- Whether a character ends a value without quotes. A vertical tab does not. -/
def endsUnquoted (c : Char) : Bool :=
  c = '\t' || c = '\n' || c = '\x0c' || c = '\r' || c = ' ' || c = '"' || c = '\'' ||
    c = '\x60' || c = '=' || c = '<' || c = '>'

/-- Whether an attribute name goes on with a character. A colon belongs to names in XML, and to
names that begin with `xml` anywhere. -/
def continuesAttributeName (xml : Bool) (name : String) (c : Char) : Bool :=
  isNameChar c || (c = ':' && (xml || name.toList.take 3 = ['x', 'm', 'l']))

/-- The characters after `word` at the beginning of a list, in which case does not count. -/
def dropWord : List Char → List Char → Option (List Char)
  | [], cs => some cs
  | _ :: _, [] => none
  | w :: ws, c :: cs => if c.toLower = w then dropWord ws cs else none

/-- Whether the text of a declaration is the document type of HTML: the word `doctype`, blanks, and
the word `html` with anything after it. -/
def isDoctype (text : String) : Bool :=
  match dropWord ['d', 'o', 'c', 't', 'y', 'p', 'e'] text.toList with
  | some (c :: cs) =>
    Text.isBlank c && (dropWord ['h', 't', 'm', 'l'] (cs.dropWhile Text.isBlank)).isSome
  | _ => false

/-! ## Character references

Three references are read in attribute values: those of the angle brackets and of the ampersand.
They are replaced one kind after the other, the ampersand last. -/

/-- The references to `<` replaced. -/
def readLess : List Char → List Char
  | '&' :: 'l' :: 't' :: ';' :: rest => '<' :: readLess rest
  | c :: rest => c :: readLess rest
  | [] => []

/-- The references to `>` replaced. -/
def readGreater : List Char → List Char
  | '&' :: 'g' :: 't' :: ';' :: rest => '>' :: readGreater rest
  | c :: rest => c :: readGreater rest
  | [] => []

/-- The references to `&` replaced. -/
def readAmpersand : List Char → List Char
  | '&' :: 'a' :: 'm' :: 'p' :: ';' :: rest => '&' :: readAmpersand rest
  | c :: rest => c :: readAmpersand rest
  | [] => []

/-- An attribute value with its references replaced. -/
def decode (value : String) : String :=
  String.ofList (readAmpersand (readGreater (readLess value.toList)))

/-! ## Constructs -/

/-- A complete construct. -/
inductive Construct
  | startTag (name : String) (attrs : Attributes) (selfClosing : Bool) (spans : NameMap Span)
  | endTag (name : String)
  | comment (data : String)
  | doctype (data : String)
  | cdata
  | xmlDeclaration
deriving DecidableEq

/-- What attributes are read for. -/
inductive Owner
  | startTag (name : String)
  | xmlDeclaration
deriving DecidableEq, Repr

/-- The attributes read so far, and what they are read for. -/
structure OpenTag where
  owner : Owner
  attrs : Attributes := .empty
  spans : NameMap Span := .empty
deriving DecidableEq

namespace OpenTag

/-- The tag with an attribute that has no value. -/
def addBare (tag : OpenTag) (name : String) : OpenTag :=
  { tag with attrs := tag.attrs.insert name none, spans := tag.spans.erase name }

/-- The tag with an attribute whose value is written at a span. -/
def addValue (tag : OpenTag) (name value : String) (span : Span) : OpenTag :=
  { tag with attrs := tag.attrs.insert name (some value), spans := tag.spans.insert name span }

/-- The construct that the tag completes. -/
def toConstruct (tag : OpenTag) (selfClosing : Bool) : Construct :=
  match tag.owner with
  | .startTag name => .startTag name tag.attrs selfClosing tag.spans
  | .xmlDeclaration => .xmlDeclaration

end OpenTag

/-- A construct that is not complete. -/
inductive Unfinished
  /-- The `<` is read. -/
  | begun
  /-- In the name of a start tag, as far as it is read. -/
  | tagName (name : String)
  /-- Before an attribute or the end of the tag. -/
  | attributes (tag : OpenTag)
  /-- In the name of an attribute. -/
  | attributeName (tag : OpenTag) (name : String)
  /-- After the name of an attribute. -/
  | afterAttributeName (tag : OpenTag) (name : String)
  /-- After the `=` of an attribute. -/
  | beforeValue (tag : OpenTag) (name : String)
  /-- In a value in quotes that begins at an offset. -/
  | quotedValue (tag : OpenTag) (name : String) (quote : Char) (start : Nat) (value : String)
  /-- In a value without quotes that begins at an offset. -/
  | unquotedValue (tag : OpenTag) (name : String) (start : Nat) (value : String)
  /-- After the `/` at the end of a start tag. -/
  | selfClosing (tag : OpenTag)
  /-- After `</`. -/
  | endTagBegun
  /-- In the name of an end tag. -/
  | endTagName (name : String)
  /-- After the name of an end tag. -/
  | afterEndTagName (name : String)
  /-- After `<!`. -/
  | declarationBegun
  /-- After `<!-`. -/
  | commentBegun
  /-- In a comment: what is read of it, and the number of dashes at its end. -/
  | comment (data : String) (dashes : Nat)
  /-- After `<![`, before the rest of the word that must follow. -/
  | cdataBegun (word : List Char)
  /-- In a CDATA section, with the number of brackets at its end. -/
  | cdata (brackets : Nat)
  /-- In a document type. -/
  | doctype (text : String)
  /-- After `<?`, before the rest of the word that must follow. -/
  | xmlBegun (word : List Char)
  /-- After the `?` at the end of an XML declaration. -/
  | xmlEnd
deriving DecidableEq

/-- What becomes of an unfinished construct with the next character. -/
inductive Progress
  /-- The character is read. -/
  | more (u : Unfinished)
  /-- The character is read and completes the construct. -/
  | done (k : Construct)
  /-- The construct breaks off before the character. -/
  | broken
deriving DecidableEq

/-! ### Attributes -/

namespace OpenTag

/-- A character before an attribute or the end of the tag. -/
def next (tag : OpenTag) (c : Char) : Progress :=
  if isSpace c then .more (.attributes tag)
  else if isNameStart c then .more (.attributeName tag (String.singleton c))
  else match tag.owner with
    | .startTag _ =>
      if c = '/' then .more (.selfClosing tag)
      else if c = '>' then .done (tag.toConstruct false)
      else .broken
    | .xmlDeclaration => if c = '?' then .more .xmlEnd else .broken

/-- A character after the name of an attribute. -/
def nextAfterName (tag : OpenTag) (name : String) (c : Char) : Progress :=
  if isSpace c then .more (.afterAttributeName tag name)
  else if c = '=' then .more (.beforeValue tag name)
  else (tag.addBare name).next c

/-- A character in the name of an attribute, or after it. -/
def nextInName (xml : Bool) (tag : OpenTag) (name : String) (c : Char) : Progress :=
  if continuesAttributeName xml name c then .more (.attributeName tag (name.push c))
  else tag.nextAfterName (Text.lower name) c

/-- A character in a value in quotes, or the quote after it. -/
def nextInQuoted (tag : OpenTag) (name : String) (quote : Char) (start : Nat) (value : String)
    (c : Char) : Progress :=
  if c = quote then
    .more (.attributes (tag.addValue name (decode value) ⟨start, start + value.length⟩))
  else .more (.quotedValue tag name quote start (value.push c))

/-- A character in a value without quotes, or after it. -/
def nextInUnquoted (tag : OpenTag) (name : String) (start : Nat) (value : String) (c : Char) :
    Progress :=
  if endsUnquoted c then (tag.addValue name value ⟨start, start + value.length⟩).next c
  else .more (.unquotedValue tag name start (value.push c))

/-- A character before a value, at an offset. -/
def nextBeforeValue (tag : OpenTag) (name : String) (offset : Nat) (c : Char) : Progress :=
  if isSpace c then .more (.beforeValue tag name)
  else if c = '"' ∨ c = '\'' then .more (.quotedValue tag name c (offset + 1) "")
  else tag.nextInUnquoted name offset "" c

end OpenTag

/-! ### One character more -/

/-- The character after the `<`. In a script only an end tag can follow. -/
def nextBegun (inScript : Bool) (c : Char) : Progress :=
  if c = '/' then .more .endTagBegun
  else if inScript then .broken
  else if isNameStart c then .more (.tagName (String.singleton c))
  else if c = '!' then .more .declarationBegun
  else if c = '?' then .more (.xmlBegun ['x', 'm', 'l'])
  else .broken

/-- A character after the name of an end tag. -/
def nextAfterEndTagName (name : String) (c : Char) : Progress :=
  if isSpace c then .more (.afterEndTagName name)
  else if c = '>' then .done (.endTag name)
  else .broken

/-- A character in the name of an end tag, or after it. In a script only its own name will do. -/
def nextInEndTagName (inScript : Bool) (name : String) (c : Char) : Progress :=
  if isNameChar c then .more (.endTagName (name.push c))
  else if inScript && Text.lower name ≠ "script" then .broken
  else nextAfterEndTagName (Text.lower name) c

/-- A character in a comment. The first `>` after two dashes ends it. -/
def nextInComment (data : String) (dashes : Nat) (c : Char) : Progress :=
  if c = '-' then .more (.comment (data.push c) (dashes + 1))
  else if c = '>' ∧ 2 ≤ dashes then
    .done (.comment (String.ofList (data.toList.take (data.length - 2))))
  else .more (.comment (data.push c) 0)

/-- A character in a CDATA section. The first `>` after two brackets ends it. -/
def nextInCdata (brackets : Nat) (c : Char) : Progress :=
  if c = ']' then .more (.cdata (brackets + 1))
  else if c = '>' ∧ 2 ≤ brackets then .done .cdata
  else .more (.cdata 0)

/-- A character in a document type. -/
def nextInDoctype (text : String) (c : Char) : Progress :=
  if c = '>' then (if isDoctype text then .done (.doctype text) else .broken)
  else .more (.doctype (text.push c))

/-- The word that opens a CDATA section. -/
def cdataWord : List Char := ['C', 'D', 'A', 'T', 'A', '[']

/-- What becomes of an unfinished construct with the next character. The text read of the construct
so far is `read`. -/
def Unfinished.next (xml inScript : Bool) (read : String) (u : Unfinished) (c : Char) : Progress :=
  match u with
  | .begun => nextBegun inScript c
  | .tagName name =>
    if isNameChar c then .more (.tagName (name.push c))
    else OpenTag.next ⟨.startTag (Text.lower name), .empty, .empty⟩ c
  | .attributes tag => tag.next c
  | .attributeName tag name => tag.nextInName xml name c
  | .afterAttributeName tag name => tag.nextAfterName name c
  | .beforeValue tag name => tag.nextBeforeValue name read.length c
  | .quotedValue tag name quote start value => tag.nextInQuoted name quote start value c
  | .unquotedValue tag name start value => tag.nextInUnquoted name start value c
  | .selfClosing tag => if c = '>' then .done (tag.toConstruct true) else .broken
  | .endTagBegun => if isNameStart c then .more (.endTagName (String.singleton c)) else .broken
  | .endTagName name => nextInEndTagName inScript name c
  | .afterEndTagName name => nextAfterEndTagName name c
  | .declarationBegun =>
    if c = '-' then .more .commentBegun
    else if c = '[' then .more (.cdataBegun cdataWord)
    else nextInDoctype "" c
  | .commentBegun => if c = '-' then .more (.comment "" 0) else .broken
  | .comment data dashes => nextInComment data dashes c
  | .cdataBegun [] => nextInCdata 0 c
  | .cdataBegun (w :: word) => if c = w then .more (.cdataBegun word) else .broken
  | .cdata brackets => nextInCdata brackets c
  | .doctype text => nextInDoctype text c
  | .xmlBegun [] => OpenTag.next ⟨.xmlDeclaration, .empty, .empty⟩ c
  | .xmlBegun (w :: word) => if c = w then .more (.xmlBegun word) else .broken
  | .xmlEnd => if c = '>' then .done .xmlDeclaration else .broken

end HtmlMend.Markup
