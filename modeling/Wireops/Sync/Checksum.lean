import Mathlib.Data.Char
import Mathlib.Data.List.Lex
import Mathlib.Data.List.Sort
import Wireops.Lib.Strings

namespace Wireops.Sync.Checksum

open List Lib.Strings

/-- SHA-256 and HMAC under the server's key, in hexadecimal. -/
structure Digests where
  sha256 : Text → Text
  hmac : Text → Text
  length_hmac : ∀ data, (hmac data).length = 64

/-- What `hashEnvVars` feeds to the HMAC. -/
def sortedEntries (envVars : List Text) : Text := (envVars.insertionSort (· ≤ ·)).flatMap (· ++ ['\x00'])

def hashEnvVars (d : Digests) (envVars : List Text) : Text := d.hmac (sortedEntries envVars)

/-- A config without its time-varying metadata, and the resolved environment. -/
structure Render (Config : Type) where
  config : Config
  envVars : List Text

variable {Config : Type} {d : Digests} {yaml : Config → Text} {r r' : Render Config}

def Render.hashed (d : Digests) (yaml : Config → Text) (r : Render Config) : Text :=
  yaml r.config ++ hashEnvVars d r.envVars

def Render.checksum (d : Digests) (yaml : Config → Text) (r : Render Config) : Text := d.sha256 (r.hashed d yaml)

variable {xs ys : List Text}

end Wireops.Sync.Checksum
