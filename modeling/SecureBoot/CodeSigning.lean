import SecureBoot.X509.Certificate

/-!
# Certificates for signing code

A certificate may limit itself to certain uses. As soon as one certificate on the way from the
signing certificate to its issuers does, the signing certificate must name the signing of code among
its own uses.
-/

namespace SecureBoot.X509

/-- Whether a certificate on the chain of issuers limits its uses. The bundle is walked once: a
certificate belongs to the chain if its subject is the one wanted, and from there on its issuer is
wanted. -/
def chainIsLimited (wanted : Name) : List Certificate → Bool
  | [] => false
  | c :: rest =>
    if c.subject = wanted then c.usages?.isSome || chainIsLimited c.issuer rest
    else chainIsLimited wanted rest

/-- Whether a certificate may sign code, given the bundle it comes with. -/
def Certificate.maySignCode (c : Certificate) (bundle : List Certificate) : Bool :=
  !chainIsLimited c.subject bundle || c.hasUsage .codeSigning

end SecureBoot.X509
