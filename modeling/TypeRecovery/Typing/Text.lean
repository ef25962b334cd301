import TypeRecovery.Transcription
import TypeRecovery.Typing
/-!
The text of types and typings. Types are written as lists in parentheses. A class is referred to by
its number, except that an unnamed scalar or `void` is written in place. A class that has a
typedef's name is written as that name.
-/
namespace TypeRecovery

def Primitive.text (primitive : Primitive) : String :=
  match primitive.signedness with
  | some .signed => "int" ++ Numeral.bits primitive.size
  | some .unsigned => "uint" ++ Numeral.bits primitive.size
  | none => if primitive.size = 1 then "byte" else "word" ++ Numeral.bits primitive.size

namespace CField

def offsetText (offset : Int64) : String :=
  let magnitude := Numeral.hex offset.toInt.natAbs
  if offset < 0 then "-" ++ magnitude else magnitude

def nameText (offset : Int64) : String :=
  let magnitude := Numeral.hexPadded 4 offset.toInt.natAbs
  if offset < 0 then "tm" ++ magnitude else "t" ++ magnitude

end CField

namespace Typing

def referenceText (typing : Typing) (id : ClassId) : String :=
  let isNamed := match typing.class? id with
    | some cls => cls.name.isSome
    | none => false
  if isNamed then id.text
  else match typing.expand? id with
    | some (.primitive primitive) => primitive.text
    | some .void => "void"
    | some _ => id.text
    | none => "<unknown>"

/-- The number of the class that an aggregate belongs to stands in the aggregate's heading. -/
def headingText : Option ClassId → String
  | some id => " \"" ++ id.text ++ "\""
  | none => ""

mutual
def typeText (typing : Typing) (owner : Option ClassId) : CType → String
  | .unknown => "<unknown>"
  | .void => "void"
  | .primitive primitive => primitive.text
  | .pointer target =>
    "(ptr" ++ Numeral.decimal typing.pointerBits ++ " " ++ typing.referenceText target ++ ")"
  | .sameAs cls => typing.referenceText cls
  | .struct size fields =>
    "(struct" ++ headingText owner ++ " " ++ Numeral.hexPadded 4 size.toNat
      ++ typing.fieldTexts fields ++ ")"
  | .union alternatives =>
    "(union" ++ headingText owner ++ typing.alternativeTexts 0 alternatives ++ ")"
  | .function params ret =>
    "(fn " ++ typing.referenceText ret ++ " ("
      ++ String.intercalate ", " (params.map typing.referenceText) ++ "))"

def fieldTexts (typing : Typing) : List (CField CType) → String
  | [] => ""
  | ⟨offset, _, type⟩ :: rest =>
    " (" ++ CField.offsetText offset ++ " " ++ typing.typeText none type ++ " "
      ++ CField.nameText offset ++ ")" ++ typing.fieldTexts rest

def alternativeTexts (typing : Typing) (place : Nat) : List CType → String
  | [] => ""
  | type :: rest =>
    " (" ++ typing.typeText none type ++ " u" ++ Numeral.decimal place ++ ")"
      ++ typing.alternativeTexts (place + 1) rest
end

def classText (typing : Typing) (id : ClassId) : String :=
  id.text ++ ": " ++ match typing.class? id with
    | some cls => cls.name.getD (typing.typeText (some id) cls.type)
    | none => "<unknown>"

/-- One line for a member of a class. A location that the table does not hold goes by its handle. -/
def memberText (table : LocationTable) (loc : LocId) : String :=
  match table.get? loc with
  | some location => "\t" ++ location.text ++ " (" ++ loc.text ++ ")\n"
  | none => "\t" ++ loc.text ++ "\n"

def dump (typing : Typing) (table : LocationTable) : String :=
  String.join (typing.classes.toList.map fun cls =>
    typing.classText cls.id ++ "\n" ++ String.join (cls.members.map (memberText table)))

end Typing
end TypeRecovery
