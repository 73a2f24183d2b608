/-
Bytes as text: hexadecimal, and base64 in its URL alphabet without padding.
-/
import ScrewLogger.Lib.Json.Text

namespace Lib

/-- `hex.EncodeToString`. -/
def hexEncode (s : Bytes) : Bytes :=
  s.flatMap fun (b : UInt8) => [Json.hexDigit (b >>> 4), Json.hexDigit (b &&& 0x0F)]

/-- The character of six bits, `A`–`Z`, `a`–`z`, `0`–`9`, `-`, `_`. -/
def base64Digit (n : Nat) : UInt8 :=
  if n < 26 then .ofNat (0x41 + n)
  else if n < 52 then .ofNat (0x61 + (n - 26))
  else if n < 62 then .ofNat (0x30 + (n - 52))
  else if n = 62 then 0x2D
  else 0x5F

/-- `base64.RawURLEncoding.EncodeToString`. -/
def base64Encode : Bytes → Bytes
  | a :: b :: c :: s =>
    base64Digit (a.toNat / 4) :: base64Digit (a.toNat % 4 * 16 + b.toNat / 16) ::
      base64Digit (b.toNat % 16 * 4 + c.toNat / 64) :: base64Digit (c.toNat % 64) :: base64Encode s
  | [a, b] =>
    [base64Digit (a.toNat / 4), base64Digit (a.toNat % 4 * 16 + b.toNat / 16), base64Digit (b.toNat % 16 * 4)]
  | [a] => [base64Digit (a.toNat / 4), base64Digit (a.toNat % 4 * 16)]
  | [] => []

end Lib
