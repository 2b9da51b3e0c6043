import Luchta.Framework.PercentEncoding

/-!
# Cache nonces

The nonces of the four scopes, joined into one text. The values are percent-encoded so that they cannot
produce the delimiters.
-/

namespace Luchta.Impl

open Luchta.Framework

/-- Controls, `%`, `&` and `=`. -/
def CACHE_NONCE_ENCODE_SET : AsciiSet := ((AsciiSet.controls.add 0x25).add 0x26).add 0x3d

/-- What is joined for the scopes that have a nonce. -/
def nonceParts (scopes : List (String × Option String)) : List String :=
  scopes.filterMap fun scope =>
    scope.2.map fun value => scope.1 ++ "=" ++ percentEncode CACHE_NONCE_ENCODE_SET value

def resolveCacheNonce (envNonce globalNonce workerNonce taskNonce : Option String) : Option String :=
  let parts := nonceParts
    [("env", envNonce), ("global", globalNonce), ("worker", workerNonce), ("task", taskNonce)]
  if parts.isEmpty then none else some ("&".intercalate parts)

end Luchta.Impl
