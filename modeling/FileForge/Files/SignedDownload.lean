import FileForge.Files.Download

/-!
# What a signed link authorises

`links_authorise` puts the signing functions and the download route together, for a service with a
secret: what a link has to be to be accepted, that a signature is good for one key and one expiry,
how long a minted link lasts, and that the route asks storage for the key of an accepted link only.
-/

set_option autoImplicit false
set_option relaxedAutoImplicit false

namespace FileForge.Files.SignedDownload

open Foundation.EcmaNumber Foundation.Interaction Foundation.FileTree Foundation.QueryString
open Storage.LocalStorage Signing Download

/-- A request that gets past the gate of a service with a secret carries an accepted link for its
key. -/
theorem accepted_of_admitted {hmac : Hmac} {deps : Deps} {now : ClockReading} {request : Request}
    (hsecret : deps.downloadSecret ≠ "") (h : answeredEarly hmac deps now request = none) :
    verifySignedLink hmac request.splat.key (request.query.text "expires")
      (request.query.text "signature") deps.downloadSecret now = .ok := by
  unfold answeredEarly signatureGate at h
  split_ifs at h
  split at h
  · assumption
  · cases h

/-- The calls of a request that is answered early: none. -/
theorem getFile_calls_of_answered {hmac : Hmac} {deps : Deps} {now : ClockReading}
    {request : Request} {response : Response}
    (h : answeredEarly hmac deps now request = some response) :
    (getFile hmac deps now request).AllCalls fun _ ↦ False := by
  rw [getFile, h]
  exact .finish _

/-- The route makes no call, or it has accepted the link for its key and its calls are on the path
of that key. -/
theorem getFile_calls (hmac : Hmac) {deps : Deps} (hsecret : deps.downloadSecret ≠ "")
    (now : ClockReading) (request : Request) :
    (getFile hmac deps now request).AllCalls (fun _ ↦ False) ∨
      verifySignedLink hmac request.splat.key (request.query.text "expires")
          (request.query.text "signature") deps.downloadSecret now = .ok ∧
        (getFile hmac deps now request).AllCalls fun call ↦
          ∃ path, pathFor deps.root request.splat.key = .ok path ∧ call.paths = [path] := by
  cases hearly : answeredEarly hmac deps now request with
  | some response => exact Or.inl (getFile_calls_of_answered hearly)
  | none =>
    refine Or.inr ⟨accepted_of_admitted hsecret hearly, ?_⟩
    rw [getFile, hearly]
    exact serve_calls deps.root request.splat.key

/-- Signed links authorise what was issued. A link is accepted when its expiry text denotes a finite
number that the clock has not passed and its signature is the one for its key and that number. A
signature is accepted for the key and the number it was issued for only, as the signed text
determines both. A minted link with a safe integer for its lifetime, taken through its query, is
accepted until its last second and has expired from then on. And the download route of a service
with this secret asks storage only for the key of a link that it has accepted. -/
theorem links_authorise (hmac : Hmac) {secret : String} (hsecret : secret ≠ "") :
    (∀ key expires signature now,
      verifySignedLink hmac key (some expires) (some signature) secret now = .ok ↔
        expires ≠ "" ∧ ∃ double, ofText expires = .finite double ∧
          (now.ms / 1000 : ℤ) ≤ double.value ∧
          signature = sign hmac key (.finite double) secret) ∧
    (∀ key other expires issued now,
      verifySignedLink hmac other (some expires) (some (sign hmac key issued secret)) secret now =
        .ok → other = key ∧ ofText expires = issued) ∧
    (∀ key other expires number, signedText key expires = signedText other number →
      key = other ∧ expires = number) ∧
    (∀ key (ttl : ℕ) now later, ttl < 2 ^ 53 →
      let query := parse (signedQuery (createSignedLink hmac key secret (ofRat ttl) now))
      verifySignedLink hmac key (query.text "expires") (query.text "signature") secret later =
        if later.ms / 1000 ≤ now.ms / 1000 + ttl then .ok else .refused .expired) ∧
    ∀ (deps : Deps) now request, deps.downloadSecret = secret →
      (getFile hmac deps now request).AllCalls (fun _ ↦ False) ∨
        verifySignedLink hmac request.splat.key (request.query.text "expires")
            (request.query.text "signature") secret now = .ok ∧
          (getFile hmac deps now request).AllCalls fun call ↦
            ∃ path, pathFor deps.root request.splat.key = .ok path ∧ call.paths = [path] := by
  refine ⟨fun key expires signature now ↦ ?_, fun _ _ _ _ _ h ↦ ?_, fun _ _ _ _ h ↦ ?_,
    fun key ttl now later httl ↦ ?_, fun deps now request hdeps ↦ ?_⟩
  · exact verifySignedLink_eq_ok_iff hmac key expires signature secret now
  · exact eq_of_accepted h
  · exact signedText_injective h
  · exact verifySignedLink_createSignedLink hmac key secret httl now later
  · subst hdeps
    exact getFile_calls hmac hsecret now request

/-- The link to `outputs/a.png` for fifteen minutes from the second 1700000000 on, in its last
millisecond and after it. -/
theorem links_authorise_recorded :
    let now : ClockReading := ⟨1700000000000, by decide⟩
    let link := createSignedLink .recorded "outputs/a.png" "a-test-secret" (ofRat (900 : ℕ)) now
    let query := parse (signedQuery link)
    sign .recorded "outputs/a.png" (ofRat 1700000900) "a-test-secret" = recordedSignature ∧
      verifySignedLink .recorded "outputs/a.png" (query.text "expires") (query.text "signature")
        "a-test-secret" ⟨1700000900999, by decide⟩ = .ok ∧
      verifySignedLink .recorded "outputs/a.png" (query.text "expires") (query.text "signature")
        "a-test-secret" ⟨1700000901000, by decide⟩ = .refused .expired := by
  have hlinks := links_authorise .recorded (show "a-test-secret" ≠ "" by decide)
  have hminted := hlinks.2.2.2.1 "outputs/a.png" 900 ⟨1700000000000, by decide⟩
  have hrecorded : recordedDigests.lookup (signedText "outputs/a.png" (ofRat 1700000900)) =
      some recordedSignature := List.lookup_cons_self
  exact ⟨recordedDigest_of_lookup hrecorded, hminted _ (by norm_num), hminted _ (by norm_num)⟩

end FileForge.Files.SignedDownload
