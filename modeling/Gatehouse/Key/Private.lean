import Gatehouse.Key.OpenSsh
import Gatehouse.Key.Pem
import Gatehouse.Key.Pkcs8
import Gatehouse.Key.Putty
import Gatehouse.Text.Blank

/-!
# Key files

A private key from the text of its file, in any of the forms that are known.
-/

namespace Gatehouse.Key.PrivateKey

/-- Reads a key file. Only the name of the PuTTY form tells its files apart before they are read. -/
def parse (text : String) : Except KeyFault PrivateKey := do
  if Putty.opening.isPrefixOf (Text.trimChars text.toList) then
    (Putty.read text.toList).elim (.error .unreadable) .ok
  else
    let file ← Pem.read text.toList
    match file.format with
    | .openSsh => (Wire.whole? OpenSsh.read file.content).elim (.error .unreadable) .ok
    | .pkcs8 => Pkcs8.read file.content
    | .encrypted => throw .unreadable

end Gatehouse.Key.PrivateKey
