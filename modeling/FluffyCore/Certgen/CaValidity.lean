import FluffyCore.Certgen.Bundle
import FluffyCore.Library.Results
import FluffyCore.Library.SignedWords
import Mathlib.Data.Nat.Digits.Lemmas
import Mathlib.Tactic.Linarith

/-!
# How long an authority is valid

The authority is meant to outlive what it signs. As long as five times the validity of a leaf
fits into a duration, it does so by a margin that no run of the generator uses up. Where the
product does not fit, the authority is valid for as long as a leaf, counted from an earlier
reading of the clock: it expires first as soon as the readings are in different seconds.
-/

namespace FluffyCore.Certgen

open Library.ByteStrings Library.Results Library.SignedWords

/-- The overflow check is exact on positive durations. -/
theorem toInt_caValidForFrom (validFor : Duration) (positive : 0 < validFor.toInt) :
    (caValidForFrom validFor).toInt =
      if 5 * validFor.toInt < 2 ^ 63 then 5 * validFor.toInt else validFor.toInt := by
  have five : (5 : Int64).toInt = 5 := by decide
  have exact := mul_div_eq_iff validFor 5 (by decide)
  rw [five] at exact
  unfold caValidForFrom
  by_cases fits : 5 * validFor.toInt < 2 ^ 63
  · have unchanged := exact.2 (by omega)
    rw [if_pos fits, if_neg (not_not_intro unchanged), Int64.toInt_mul, five,
      (bmod_eq_iff _).2 (by omega)]
    omega
  · have changed : validFor * 5 / 5 ≠ validFor := fun unchanged => fits (by
      have := exact.1 unchanged
      omega)
    rw [if_neg fits, if_pos changed]

section Expiry

variable {Entropy Key IP URL : Type} {library : CertLibrary Entropy Key IP URL}

/-- Encoded certificates hold the whole seconds of the time at which they expire. -/
def CertLibrary.RoundsDown (library : CertLibrary Entropy Key IP URL) : Prop :=
  ∀ entropy template parent key signingKey der cert,
    library.createCertificate entropy template parent key signingKey = .ok der →
    library.parseCertificate der = .ok cert → cert.notAfter = roundDown template.notAfter

/-- A certificate expires when its template does, up to the second. -/
theorem notAfter_issue (rounds : library.RoundsDown) {role : Role} {entropy : Entropy}
    {template : Nat → Certificate IP URL} {signer : Option (Issued Key IP URL)}
    {issued : Issued Key IP URL}
    (created : issue library role entropy template signer = .ok issued) :
    ∃ serial, issued.cert.notAfter = roundDown (template serial).notAfter := by
  unfold issue at created
  simp only [bind_eq_ok_iff, mapError_eq_ok_iff] at created
  obtain ⟨key, _, serial, _, der, isDer, cert, isCert, keyPEM, _, returned⟩ := created
  cases returned
  exact ⟨serial, rounds _ _ _ _ _ _ _ isDer isCert⟩

/-- A duration that is positive is not replaced by a default. -/
theorem ite_default {validFor : Duration} (positive : 0 < validFor.toInt) (default : Duration) :
    (if validFor ≤ 0 then default else validFor) = validFor := by
  refine if_neg fun notPositive => ?_
  rw [Int64.le_iff_toInt_le] at notPositive
  exact absurd notPositive (Int.not_le.2 positive)

/-- An authority with a positive validity expires that long after its moment. -/
theorem notAfter_newCA (rounds : library.RoundsDown) {moment : Moment Entropy} {opts : CAOptions}
    {ca : Issued Key IP URL} (created : newCA library moment opts = .ok ca)
    (positive : 0 < opts.validFor.toInt) :
    ca.cert.notAfter = roundDown (moment.now + opts.validFor.toInt) := by
  unfold newCA at created
  rw [ite_default positive] at created
  obtain ⟨_, expires⟩ := notAfter_issue rounds created
  exact expires

/-- So does a certificate it signs. -/
theorem notAfter_newLeafCert (rounds : library.RoundsDown) {moment : Moment Entropy}
    {ca leaf : Issued Key IP URL} {opts : CertOptions IP URL}
    (created : newLeafCert library moment ca opts = .ok leaf)
    (positive : 0 < opts.validFor.toInt) :
    leaf.cert.notAfter = roundDown (moment.now + opts.validFor.toInt) := by
  unfold newLeafCert at created
  rw [ite_default positive] at created
  obtain ⟨_, expires⟩ := notAfter_issue rounds created
  exact expires

/-- When the members of a bundle expire. -/
theorem notAfter_newBundle (rounds : library.RoundsDown)
    {caMoment serverMoment clientMoment : Moment Entropy} {opts : BundleOptions}
    {bundle : Bundle Key IP URL} (positive : 0 < opts.validFor.toInt)
    (created : newBundle library caMoment serverMoment clientMoment opts = .ok bundle) :
    bundle.ca.cert.notAfter =
        roundDown (caMoment.now + (caValidForFrom opts.validFor).toInt) ∧
      bundle.server.cert.notAfter = roundDown (serverMoment.now + opts.validFor.toInt) ∧
      bundle.client.cert.notAfter = roundDown (clientMoment.now + opts.validFor.toInt) := by
  have caPositive : 0 < (caValidForFrom opts.validFor).toInt := by
    rw [toInt_caValidForFrom _ positive]
    split <;> omega
  unfold newBundle at created
  simp only [ite_default positive, bind_eq_ok_iff, mapError_eq_ok_iff] at created
  obtain ⟨ca, isCA, server, isServer, _, _, client, isClient, returned⟩ := created
  have caExpires := notAfter_newCA rounds isCA caPositive
  have serverExpires := notAfter_newLeafCert rounds isServer positive
  have clientExpires := notAfter_newLeafCert rounds isClient positive
  cases returned
  exact ⟨caExpires, serverExpires, clientExpires⟩

/-- Rounding keeps the order of times. -/
theorem roundDown_le {earlier afterwards : Int} (ordered : earlier ≤ afterwards) :
    roundDown earlier ≤ roundDown afterwards := by
  have wholeSeconds := Int.ediv_le_ediv (by decide : (0 : Int) < 1000000000) ordered
  exact Int.mul_le_mul_of_nonneg_right wholeSeconds (by decide)

/-- The overflow check does not misjudge the range of a duration. The authority of a bundle
that is made within the validity of a leaf outlives the server and the client certificate
exactly if its own validity could be five times as long, or it expires in the same second as
the client certificate, which is made last. -/
theorem outlives_leaves_iff (rounds : library.RoundsDown)
    (caMoment serverMoment clientMoment : Moment Entropy) (opts : BundleOptions)
    (bundle : Bundle Key IP URL) (positive : 0 < opts.validFor.toInt)
    (serverAfter : caMoment.now ≤ serverMoment.now)
    (clientAfter : serverMoment.now ≤ clientMoment.now)
    (elapsed : clientMoment.now - caMoment.now ≤ opts.validFor.toInt)
    (created : newBundle library caMoment serverMoment clientMoment opts = .ok bundle) :
    (caValidForFrom opts.validFor).toInt =
        (if 5 * opts.validFor.toInt < 2 ^ 63 then 5 * opts.validFor.toInt
          else opts.validFor.toInt) ∧
      ((bundle.server.cert.notAfter ≤ bundle.ca.cert.notAfter ∧
          bundle.client.cert.notAfter ≤ bundle.ca.cert.notAfter) ↔
        5 * opts.validFor.toInt < 2 ^ 63 ∨
          roundDown (clientMoment.now + opts.validFor.toInt) =
            roundDown (caMoment.now + opts.validFor.toInt)) := by
  have validity := toInt_caValidForFrom opts.validFor positive
  obtain ⟨caExpires, serverExpires, clientExpires⟩ := notAfter_newBundle rounds positive created
  refine ⟨validity, ?_⟩
  rw [caExpires, serverExpires, clientExpires, validity]
  have serverFirst :
      roundDown (serverMoment.now + opts.validFor.toInt) ≤
        roundDown (clientMoment.now + opts.validFor.toInt) := roundDown_le (by linarith)
  by_cases fits : 5 * opts.validFor.toInt < 2 ^ 63
  · rw [if_pos fits]
    have outlived :
        roundDown (clientMoment.now + opts.validFor.toInt) ≤
          roundDown (caMoment.now + 5 * opts.validFor.toInt) := roundDown_le (by linarith)
    exact ⟨fun _ => .inl fits, fun _ => ⟨serverFirst.trans outlived, outlived⟩⟩
  · rw [if_neg fits]
    have authorityFirst :
        roundDown (caMoment.now + opts.validFor.toInt) ≤
          roundDown (clientMoment.now + opts.validFor.toInt) := roundDown_le (by linarith)
    constructor
    · exact fun outlived => .inr (Int.le_antisymm outlived.2 authorityFirst)
    · rintro (fits' | sameSecond)
      · exact absurd fits' fits
      · exact ⟨serverFirst.trans sameSecond.le, sameSecond.le⟩

end Expiry

section Samples

/-- A library whose certificates hold the second in which they expire and nothing else. Times
before the first second are refused. -/
def secondsLibrary : CertLibrary Unit Unit Unit Unit where
  generateKey := fun _ => .ok ()
  randInt := fun _ _ => .ok 1
  createCertificate := fun _ template _ _ _ =>
    if template.notAfter < 0 then .error (.plain "cannot represent time")
    else .ok ((Nat.digits 256 (template.notAfter / 1000000000).toNat).map UInt8.ofNat)
  parseCertificate := fun der =>
    .ok
      { serialNumber := 1
        commonName := []
        organization := []
        notBefore := 0
        notAfter := (Nat.ofDigits 256 (der.map UInt8.toNat) : Nat) * 1000000000
        keyUsage := [] }
  marshalECPrivateKey := fun _ => .ok []
  encodeToMemory := fun _ der => der
  parseIP := fun _ => none
  parseURL := fun _ => .ok ()

/-- The digits of a number in base 256 are bytes. -/
theorem toNat_bytes_of_digits (seconds : Nat) :
    ((Nat.digits 256 seconds).map UInt8.ofNat).map UInt8.toNat = Nat.digits 256 seconds := by
  rw [List.map_map]
  refine (List.map_congr_left fun digit isDigit => ?_).trans (List.map_id _)
  exact UInt8.toNat_ofNat_of_lt (Nat.digits_lt_base (by decide) isDigit)

/-- The certificates of this library expire at the whole second before the requested time. -/
theorem roundsDown_secondsLibrary : secondsLibrary.RoundsDown := by
  intro _ template _ _ _ der cert created parsed
  simp only [secondsLibrary] at created parsed
  split at created
  · cases created
  · next representable =>
    cases created
    cases parsed
    have seconds : 0 ≤ template.notAfter / 1000000000 :=
      Int.ediv_nonneg (Int.not_lt.1 representable) (by decide)
    rw [toNat_bytes_of_digits, Nat.ofDigits_digits, roundDown, Int.toNat_of_nonneg seconds]

def optionsValidFor (validFor : Duration) : BundleOptions :=
  { serverCommonName := ascii "server"
    serverHosts := [ascii "localhost"]
    clientCommonName := ascii "client"
    clientURIs := []
    org := []
    validFor }

/-- An authority for certificates of one day outlives them, although they are made in later
seconds than it is. -/
theorem outlives_leaves_day :
    ∃ bundle,
      newBundle secondsLibrary ⟨999999999, ()⟩ ⟨1000000000, ()⟩ ⟨2500000000, ()⟩
          (optionsValidFor (24 * hour)) = .ok bundle ∧
        bundle.server.cert.notAfter ≤ bundle.ca.cert.notAfter ∧
        bundle.client.cert.notAfter ≤ bundle.ca.cert.notAfter := by
  refine ⟨_, rfl, ?_⟩
  have outlives := outlives_leaves_iff roundsDown_secondsLibrary ⟨999999999, ()⟩
    ⟨1000000000, ()⟩ ⟨2500000000, ()⟩ (optionsValidFor (24 * hour)) _ (by decide) (by decide)
    (by decide) (by decide) rfl
  exact outlives.2.2 (.inl (by decide))

/-- With certificates that are not meant to expire, an authority that is made in the last
nanosecond of a second expires a second before the certificates it signs. -/
theorem authority_expires_first :
    ∃ bundle,
      newBundle secondsLibrary ⟨999999999, ()⟩ ⟨1000000000, ()⟩ ⟨1000000000, ()⟩
          (optionsValidFor forever) = .ok bundle ∧
        bundle.ca.cert.notAfter < bundle.server.cert.notAfter ∧
        bundle.ca.cert.notAfter < bundle.client.cert.notAfter :=
  ⟨_, rfl, by decide, by decide⟩

end Samples

end FluffyCore.Certgen
