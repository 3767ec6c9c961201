import PinUart.Text.Hex
import PinUart.Text.Printable

/-! Text in double quotes, for messages: what does not show up by itself is written
as an escape. -/
namespace PinUart.Text.Quoted

/-- A number in lower-case hexadecimal, without leading zeros. -/
def hexNumber (value : Nat) : List Char :=
  if value < 16 then [Hex.digit value] else hexNumber (value / 16) ++ [Hex.digit (value % 16)]

def escape (c : Char) : List Char :=
  if c = '\x00' then ['\\', '0']
  else if c = '\t' then ['\\', 't']
  else if c = '\r' then ['\\', 'r']
  else if c = '\n' then ['\\', 'n']
  else if c = '"' ∨ c = '\\' then ['\\', c]
  else if isPrintable c then [c]
  else ['\\', 'u', '\x7b'] ++ hexNumber c.toNat ++ ['\x7d']

def encode (text : List Char) : List Char := '"' :: (text.flatMap escape ++ ['"'])

end PinUart.Text.Quoted
