import ParametricLP.Log.Characters
import ParametricLP.Log.Record

/-! # Line formats

A format is a text in which fields such as `%(message)s` or `%(levelname)-8s` stand for the
attributes of a record. A field is a name in parentheses after a percent sign, then flags, a width,
a precision after a point, and the letter of a conversion; all but the name and the letter may be
left out. A text without any field is refused as a format (`Format.parse?`).

`Format.line` writes a record under a format. It reads fields once more and more strictly, so that
a format may be accepted under which nothing can be written. -/

namespace ParametricLP.Log

namespace Format

/-! ### Fields -/

/-- Whether a character is a flag. -/
def isFlag (c : Char) : Bool :=
  ['#', '0', '+', '-', ' '].contains c

/-- The letters of conversions. Small and capital ones count alike, and so do the other forms that
    the letters i and s have. -/
def conversions : List Char :=
  ['d', 'i', 'o', 'u', 'x', 'e', 'f', 'g', 'c', 'r', 's', 'a', 'D', 'I', 'O', 'U', 'X', 'E', 'F', 'G',
    'C', 'R', 'S', 'A', 'İ', 'ı', 'ſ', '%']

/-- Whether a character is the letter of a conversion. -/
def isConversion (c : Char) : Bool :=
  conversions.contains c

/-- What follows a size, if a text begins with one: a star, or some digits. -/
def afterSize? : List Char → Option (List Char)
  | [] => none
  | c :: cs =>
    if c = '*' then some cs
    else if isDigit c then some (cs.dropWhile isDigit)
    else none

/-- What follows a width, which may be left out. -/
def afterWidth (cs : List Char) : List Char :=
  (afterSize? cs).getD cs

/-- What follows a precision, which may be left out. -/
def afterPrecision : List Char → List Char
  | '.' :: cs => (afterSize? cs).getD ('.' :: cs)
  | cs => cs

/-- Whether flags, a width, a precision and a conversion follow. -/
def endsField (cs : List Char) : Bool :=
  (afterPrecision (afterWidth (cs.dropWhile isFlag))).head?.any isConversion

/-- Whether a text begins with a field. -/
def startsWithField : List Char → Bool
  | '%' :: '(' :: c :: cs =>
    isWord c && match cs.dropWhile isWord with
      | ')' :: cs => endsField cs
      | _ => false
  | _ => false

/-- Whether there is a field in a text. -/
def hasField : List Char → Bool
  | [] => false
  | c :: cs => startsWithField (c :: cs) || hasField cs

end Format

/-- A line format: a text with a field in it. -/
structure Format where
  text : String
  valid : Format.hasField text.toList = true
  deriving DecidableEq, Repr

/-- A field as it is read when a line is written. -/
structure Directive where
  name : String
  flags : List Char
  width : Nat
  precision : Option Nat
  conversion : Char
  deriving DecidableEq, Repr

/-- A part of a line format. -/
inductive Piece where
  | literal (c : Char)
  | directive (d : Directive)
  deriving DecidableEq, Repr

namespace Directive

/-- The number that digits write; no digits write zero. -/
def size (digits : List Char) : Nat :=
  (String.ofList digits).toNat?.getD 0

/-- Reads a precision, which may be left out, and what follows it. -/
def readPrecision : List Char → Option Nat × List Char
  | '.' :: cs => (some (size (cs.takeWhile Char.isDigit)), cs.dropWhile Char.isDigit)
  | cs => (none, cs)

/-- What follows a letter for the length of a number, which is passed over. -/
def afterLength : List Char → List Char
  | 'h' :: cs | 'l' :: cs | 'L' :: cs => cs
  | cs => cs

/-- Reads a field after its percent sign, and what follows it. Sizes are written with ASCII digits
    here. -/
def read? : List Char → Option (Directive × List Char)
  | '(' :: cs => do
    let afterName ← (cs.dropWhile (· != ')')).tail?
    let sizes := afterName.dropWhile Format.isFlag
    let (precision, rest) := readPrecision (sizes.dropWhile Char.isDigit)
    match afterLength rest with
    | [] => none
    | conversion :: left =>
      let name := String.ofList (cs.takeWhile (· != ')'))
      let flags := afterName.takeWhile Format.isFlag
      let width := size (sizes.takeWhile Char.isDigit)
      return (⟨name, flags, width, precision, conversion⟩, left)
  | _ => none

/-- A text filled up with blanks to the width, on the left unless the flag says otherwise. -/
def pad (d : Directive) (cs : List Char) : List Char :=
  let blanks := List.replicate (d.width - cs.length) ' '
  if d.flags.contains '-' then cs ++ blanks else blanks ++ cs

/-- A text cut to the precision and filled up. -/
def textOf (d : Directive) (cs : List Char) : List Char :=
  d.pad (match d.precision with
    | none => cs
    | some k => cs.take k)

/-- A whole number with its sign, with as many digits as the precision says and, where zeros fill it
    up, as the width leaves room for. -/
def numberOf (d : Directive) (n : Int) : List Char :=
  let sign :=
    if n < 0 then ['-']
    else if d.flags.contains '+' then ['+']
    else if d.flags.contains ' ' then [' ']
    else []
  let zeroFilled := d.flags.contains '0' && !d.flags.contains '-'
  let places := max (d.precision.getD 0) (if zeroFilled then d.width - sign.length else 0)
  let digits := (toString n.natAbs).toList
  d.pad (sign ++ List.replicate (places - digits.length) '0' ++ digits)

/-- An attribute as a field writes it, if the conversion is one for texts or whole numbers. -/
def write? (d : Directive) : Attribute → Option (List Char)
  | .text cs => if d.conversion = 's' then some (d.textOf cs) else none
  | .number n =>
    if d.conversion = 's' then some (d.textOf (toString n).toList)
    else if ['d', 'i', 'u'].contains d.conversion then some (d.numberOf n)
    else none

end Directive

namespace Format

/-- The format that a text is, if there is a field in it. -/
def parse? (text : String) : Option Format :=
  if h : hasField text.toList = true then some ⟨text, h⟩ else none

/-- Pieces of a text after `skip` characters that have been read. A doubled percent sign stands for
    one; every other percent sign has to begin a field. -/
def pieces? : (skip : Nat) → List Char → Option (List Piece)
  | _, [] => some []
  | skip + 1, _ :: cs => pieces? skip cs
  | 0, '%' :: '%' :: cs => return .literal '%' :: (← pieces? 0 cs)
  | 0, '%' :: cs => do
    let (d, rest) ← Directive.read? cs
    return .directive d :: (← pieces? (cs.length - rest.length) cs)
  | 0, c :: cs => return .literal c :: (← pieces? 0 cs)

/-- Text of a record at one piece of a format. -/
def pieceText? (r : Record) : Piece → Option (List Char)
  | .literal c => some [c]
  | .directive d => (r.attribute? d.name).bind d.write?

/-- A record as a line without its end, if all fields of the format can be written. -/
def line? (format : Format) (r : Record) : Option String := do
  let pieces ← pieces? 0 format.text.toList
  let texts ← pieces.mapM (pieceText? r)
  return String.ofList texts.flatten

/-- The usual format: level in brackets, name, message. -/
def usual : Format :=
  ⟨"[%(levelname)s] %(name)s: %(message)s", rfl⟩

end Format

end ParametricLP.Log
