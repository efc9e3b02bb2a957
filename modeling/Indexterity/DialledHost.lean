import Indexterity.PgTransport

/-!
# The host that is dialled and the hosts that are vetted

The network guard is given the hosts of the authority, as the parser reads it. The driver
reads the same string again. It prefers a query parameter, and a fragment ends the authority
of a URI. Only when both readings name the same hosts is what is dialled what was vetted.
-/

namespace Indexterity

open Library

section Cutting
variable {c : Char} {t rest : List Char}

end Cutting

section Dialling
variable {lc : LowerCase} {value scheme rest : List Char} {parsed : ParsedPgConnString}

def Vetted (hosts : Except String (List (List Char) × Bool)) (host : List Char) : Prop :=
  ∃ targets isSrv port, hosts = .ok (targets, isSrv) ∧ hostPort host port ∈ targets

end Dialling

end Indexterity
