import Gatehouse.Bastion.Error
import Gatehouse.SecretBox

/-!
# The server's identity

The key with which the bastion identifies itself to its users: the stored private key of a fixed
name.
-/

namespace Gatehouse.Bastion

/-- The name of the key in the store. -/
def serverKeyName : String := "host"

/-- Loads the server's key. -/
def loadServerKey (s : Store) (box : SecretBox) : Except BastionError Key.PrivateKey :=
  match s.sshKeyNamed serverKeyName with
  | .error e => .error (.store e)
  | .ok none => .error (.missingServerKey serverKeyName)
  | .ok (some key) => (Key.PrivateKey.parse (box.decryptOrRaw key.privateKey)).mapError .key

end Gatehouse.Bastion
