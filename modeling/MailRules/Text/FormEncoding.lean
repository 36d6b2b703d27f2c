import MailRules.Text.Lines

/-!
# Form encoding

A text in a query of a web address: letters, digits and `_.-~` stand for themselves, a blank is
a plus sign, and every other byte of the UTF-8 form is a percent sign with two digits.
-/

namespace MailRules

/-- Whether a byte stands for itself. -/
def isUnreserved (b : UInt8) : Bool :=
  let c := Char.ofNat b.toNat
  c.isAlphanum || c = '_' || c = '.' || c = '-' || c = '~'

/-- One byte of a text. -/
def formByte (b : UInt8) : List Char :=
  if isUnreserved b then [Char.ofNat b.toNat]
  else if b = 0x20 then ['+']
  else '%' :: hexDigits true 2 b.toNat

/-- A text in form encoding. -/
def formEncoded (s : String) : String :=
  String.ofList (s.toUTF8.toList.flatMap formByte)

end MailRules
