import FluffyCore.Auth.ClaimsPrincipal

/-!
# Claims of a verified client certificate

The interceptor reads the leaf of the first chain the TLS stack verified on the
connection and adds claims of reserved types for it. Without a verified chain it
adds nothing. It never rejects a request.
-/

namespace FluffyCore.Auth

/-- What the interceptor reads of a certificate. -/
structure Certificate where
  commonName : String
  raw : ByteArray
  uris : List String

/-- The chains verified on a connection; none for a peer without TLS. -/
abbrev Connection : Type := Option (List (List Certificate))

/-- The leaf of the first verified chain. -/
def verifiedClientCert : Connection → Option Certificate
  | some ((leaf :: _) :: _) => some leaf
  | _ => none

/-- The claims added for a certificate, in the order they are added. -/
def certClaims (sha256Hex : ByteArray → String) (cert : Certificate) : List Claim :=
  [⟨"mtls_verified", "true"⟩] ++
    (if cert.commonName ≠ "" then [⟨"mtls_cn", cert.commonName⟩] else []) ++
    [⟨"mtls_fingerprint", sha256Hex cert.raw⟩] ++
    cert.uris.map fun uri => ⟨"mtls_san_uri", uri⟩

/-- The claims the interceptor derives from a connection. -/
def connectionClaims (sha256Hex : ByteArray → String) (connection : Connection) : List Claim :=
  match verifiedClientCert connection with
  | some cert => certClaims sha256Hex cert
  | none => []

def addPeerCertClaims (sha256Hex : ByteArray → String) (connection : Connection)
    (claimsPrincipal : ClaimsPrincipal) : ClaimsPrincipal :=
  claimsPrincipal.addClaims (connectionClaims sha256Hex connection)

/-- The types the interceptor uses are reserved. -/
theorem mtlsTypes_reserved : reservedType "mtls_verified" = true ∧ reservedType "mtls_cn" = true ∧
    reservedType "mtls_fingerprint" = true ∧ reservedType "mtls_san_uri" = true := by
  decide

/-- Every claim the interceptor adds is of a reserved type. -/
theorem connectionClaims_reserved (sha256Hex : ByteArray → String) (connection : Connection)
    (c : Claim) (added : c ∈ connectionClaims sha256Hex connection) : c.reserved = true := by
  obtain ⟨verified, name, fingerprint, uris⟩ := mtlsTypes_reserved
  unfold connectionClaims at added
  split at added
  · next cert _ =>
    simp only [certClaims, List.mem_append, List.mem_singleton, List.mem_map] at added
    rcases added with ((rfl | named) | rfl) | ⟨uri, _, rfl⟩
    · exact verified
    · split at named
      · obtain rfl := List.mem_singleton.1 named
        exact name
      · cases named
    · exact fingerprint
    · exact uris
  · cases added

/-- A reserved claim has a type. -/
theorem reserved_typed (c : Claim) (reserved : c.reserved = true) : c.type ≠ "" := by
  intro untyped
  rw [Claim.reserved, untyped] at reserved
  exact absurd reserved (by decide)

/-- What the interceptor leaves on a principal. -/
theorem holds_addPeerCertClaims (sha256Hex : ByteArray → String) (connection : Connection)
    (p : ClaimsPrincipal) (c : Claim) :
    (addPeerCertClaims sha256Hex connection p).Holds c ↔
      p.Holds c ∨ c ∈ connectionClaims sha256Hex connection := by
  rw [addPeerCertClaims, ClaimsPrincipal.holds_addClaims]
  refine or_congr_right ⟨fun ⟨added, _⟩ => added, fun added => ⟨added, ?_⟩⟩
  exact reserved_typed c (connectionClaims_reserved sha256Hex connection c added)

end FluffyCore.Auth
