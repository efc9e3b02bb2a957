import Indexterity.PgConnString

/-!
# What a connection string of PostgreSQL asks of the transport

The mode a string names, how far it goes, the mode that overrides ask for, and the query of a
string with one option replaced.
-/

namespace Indexterity

open Library

inductive PgSslMode where
  | disable | allow | prefer | require | verifyCa | verifyFull
  deriving DecidableEq

def PgSslMode.text : PgSslMode → List Char
  | .disable => "disable".toList
  | .allow => "allow".toList
  | .prefer => "prefer".toList
  | .require => "require".toList
  | .verifyCa => "verify-ca".toList
  | .verifyFull => "verify-full".toList

structure TlsOverrides where
  allowInvalidCertificates : Bool
  allowInvalidHostnames : Bool
  insecure : Bool

section Transport
variable (lc : LowerCase)

end Transport

section Rewriting
variable (lc : LowerCase)

/-- The pairs of a query with those of one key, in any case, replaced or removed. -/
def rewriteQuery (key : List Char) (replacement : Option (List Char))
    (pairs : List (List Char × List Char)) : List (List Char × List Char) :=
  -- no pair of that name is left, so that setting it adds it at the end
  (pairs.filter fun pair => lc.lower pair.1 ≠ key) ++
    (replacement.map fun entry => (key, entry)).toList

end Rewriting

/-!
## The pool of PostgreSQL, and the host it dials

Building a pool checks the transport, parses the string and hands the string itself to
the driver. The driver is not part of the program, and is a parameter: what is assumed of it
is that it dials the host a query parameter spelt exactly `host` names, and without one the
authority of the URI; a fragment belongs to neither.
-/

section Client
variable (lc : LowerCase) (allowInsecureTls : Bool)

end Client

end Indexterity
