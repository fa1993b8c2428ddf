/-!
# Powers modulo a number

Powers of residues by repeated squaring, with which the curves invert residues: modulo a prime `p`,
the power with exponent `p - 2` is the inverse.
-/

namespace Gatehouse.Crypto

/-- The power of a number modulo `modulus`, by the binary digits of the exponent. -/
def powerMod (modulus base exponent : Nat) : Nat :=
  if exponent = 0 then 1 % modulus
  else
    let half := powerMod modulus (base * base % modulus) (exponent / 2)
    if exponent % 2 = 1 then half * base % modulus else half
termination_by exponent
decreasing_by omega

end Gatehouse.Crypto
