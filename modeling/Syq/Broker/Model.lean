import Syq.Lib.SshWire

/-!
# The constrained SSH agent

A client on the other side of a connection sends agent frames.  It may bind the sessions of the
approved path, list the keys and ask for signatures.  The broker passes a sign request to the
real agent only for the approved login.  Keys, certificates and signatures come from a crate of
their own, whose functions are fields here.
-/

namespace Syq.Broker

open Syq.Lib Syq.Lib.SshWire

abbrev Bytes := List UInt8

def ascii (text : String) : Bytes :=
  text.toUTF8.data.toList

/-! ## Keys and credentials -/

inductive Curve where
  | nistP256
  | nistP384
  | nistP521
  deriving DecidableEq

def Curve.suffix : Curve → String
  | .nistP256 => "nistp256"
  | .nistP384 => "nistp384"
  | .nistP521 => "nistp521"

inductive KeyKind where
  | dsa
  | ecdsa (curve : Curve)
  | ed25519
  | rsa
  | skEcdsaSha2NistP256
  | skEd25519
  | other (name : String)
  deriving DecidableEq

namespace KeyKind

/-- The name that the encoding of a key starts with. -/
def name : KeyKind → String
  | .dsa => "ssh-dss"
  | .ecdsa curve => "ecdsa-sha2-" ++ curve.suffix
  | .ed25519 => "ssh-ed25519"
  | .rsa => "ssh-rsa"
  | .skEcdsaSha2NistP256 => "sk-ecdsa-sha2-nistp256@openssh.com"
  | .skEd25519 => "sk-ssh-ed25519@openssh.com"
  | .other name => name

/-- The name that the encoding of a certificate of such a key starts with; other kinds build it
from their own name. -/
def certificateName : KeyKind → Option String
  | .dsa => some "ssh-dss-cert-v01@openssh.com"
  | .ecdsa curve => some ("ecdsa-sha2-" ++ curve.suffix ++ "-cert-v01@openssh.com")
  | .ed25519 => some "ssh-ed25519-cert-v01@openssh.com"
  | .rsa => some "ssh-rsa-cert-v01@openssh.com"
  | .skEcdsaSha2NistP256 => some "sk-ecdsa-sha2-nistp256-cert-v01@openssh.com"
  | .skEd25519 => some "sk-ssh-ed25519-cert-v01@openssh.com"
  | .other _ => none

end KeyKind

inductive HashAlg where
  | sha256
  | sha512
  deriving DecidableEq

/-- The algorithm of a signature. -/
inductive Algorithm where
  | dsa
  | ecdsa (curve : Curve)
  | ed25519
  | rsa (hash : Option HashAlg)
  | skEcdsaSha2NistP256
  | skEd25519
  | other (name : String)
  deriving DecidableEq

def Algorithm.asStr : Algorithm → String
  | .dsa => "ssh-dss"
  | .ecdsa curve => "ecdsa-sha2-" ++ curve.suffix
  | .ed25519 => "ssh-ed25519"
  | .rsa none => "ssh-rsa"
  | .rsa (some .sha256) => "rsa-sha2-256"
  | .rsa (some .sha512) => "rsa-sha2-512"
  | .skEcdsaSha2NistP256 => "sk-ecdsa-sha2-nistp256@openssh.com"
  | .skEd25519 => "sk-ssh-ed25519@openssh.com"
  | .other name => name

inductive PublicCredential (κ γ : Type) where
  | key (key : κ)
  | certificate (certificate : γ)
  deriving DecidableEq

/-- What the agent answers, as far as the broker tells the answers apart. -/
inductive Response (σ : Type) where
  | failure
  | success
  | extensionFailure
  | signResponse (signature : σ)
  | other

/-- What the broker uses of the SSH crates: keys `κ`, certificates `γ` and signatures `σ`.  An
encoding starts with the name of its kind. -/
structure Crate (κ γ σ : Type) where
  kind : κ → KeyKind
  rsaModulus : κ → Option (Option Bytes)
  encodeKey : κ → Option Bytes
  decodeKey : Bytes → Option (κ × Bytes)
  certificateKey : γ → κ
  isUserCertificate : γ → Bool
  certificateVerifies : γ → Bool
  encodeCertificate : γ → Option Bytes
  decodeCredential : Bytes → Option (PublicCredential κ γ × Bytes)
  algorithm : σ → Algorithm
  decodeSignature : Bytes → Option (σ × Bytes)
  verify : κ → Bytes → σ → Bool
  encodeIdentities : List (PublicCredential κ γ) → Option Bytes
  decodeResponse : Bytes → Option (Response σ × Bytes)
  encodeKey_name : ∀ {key bytes}, encodeKey key = some bytes →
    ∃ rest, string bytes = .ok (ascii (kind key).name, rest)
  encodeCertificate_name : ∀ {certificate bytes name}, encodeCertificate certificate = some bytes →
    (kind (certificateKey certificate)).certificateName = some name →
      ∃ rest, string bytes = .ok (ascii name, rest)
  decodeCredential_name : ∀ {bytes certificate left name},
    decodeCredential bytes = some (.certificate certificate, left) →
      (kind (certificateKey certificate)).certificateName = some name →
        ∃ rest, string bytes = .ok (ascii name, rest)

section Crates

variable {κ γ σ : Type} (crate : Crate κ γ σ)

namespace Crate

def keyData : PublicCredential κ γ → κ
  | .key key => key
  | .certificate certificate => crate.certificateKey certificate

def encode : PublicCredential κ γ → Option Bytes
  | .key key => crate.encodeKey key
  | .certificate certificate => crate.encodeCertificate certificate

def keyIsCryptographicallyVerifiable (key : κ) : Bool :=
  match crate.kind key with
  | .ecdsa _ | .ed25519 | .rsa | .skEcdsaSha2NistP256 | .skEd25519 => true
  | .dsa | .other _ => false

def credentialIsCryptographicallyVerifiable (credential : PublicCredential κ γ) : Bool :=
  crate.keyIsCryptographicallyVerifiable (crate.keyData credential) &&
    match credential with
    | .key _ => true
    | .certificate certificate => crate.certificateVerifies certificate

def credentialsEqualOnWire (left right : PublicCredential κ γ) : Bool :=
  match crate.encode left, crate.encode right with
  | some left, some right => left == right
  | _, _ => false

end Crate

def signatureAlgorithmIsCryptographicallyVerifiable : Algorithm → Bool
  | .ecdsa _ | .ed25519 | .rsa (some _) | .skEcdsaSha2NistP256 | .skEd25519 => true
  | .dsa | .rsa none | .other _ => false

/-! ## Policies and bindings -/

structure SessionBind (κ σ : Type) where
  hostKey : κ
  sessionId : Bytes
  signature : σ
  isForwarding : Bool
  deriving DecidableEq

structure HostPolicy (κ : Type) where
  loginUser : Bytes
  knownHostsName : String
  hostKeys : List κ
  hostKeyAlgorithms : List String
  requiredRsaSize : Nat

structure BrokerPolicy (κ : Type) where
  coordinator : Option (HostPolicy κ)
  peer : HostPolicy κ

def leadingZeros (byte : UInt8) : Nat :=
  if byte = 0 then 8 else 7 - Nat.log2 byte.toNat

/-- The bits of a modulus without its leading zeros. -/
def modulusBits (modulus : Bytes) : Nat :=
  match modulus with
  | [] => 0
  | first :: _ => modulus.length * 8 - leadingZeros first

variable [DecidableEq κ]

def HostPolicy.authorizesBinding (policy : HostPolicy κ) (binding : SessionBind κ σ) : Bool :=
  crate.keyIsCryptographicallyVerifiable binding.hostKey &&
    (signatureAlgorithmIsCryptographicallyVerifiable (crate.algorithm binding.signature) &&
      (policy.hostKeys.contains binding.hostKey && ((policy.hostKeyAlgorithms.any fun allowed =>
            allowed == (crate.algorithm binding.signature).asStr) &&
          match crate.rsaModulus binding.hostKey with
          | none => true
          | some none => false
          | some (some modulus) => decide (policy.requiredRsaSize ≤ modulusBits modulus))))

/-- Whether the next binding is the next hop of the path: the coordinator forwards, the peer does
not. -/
def nextHop (policy : BrokerPolicy κ) (bound : Nat) (binding : SessionBind κ σ) :
    Except String Unit :=
  match bound, policy.coordinator with
  | 0, some coordinator =>
    if binding.isForwarding && coordinator.authorizesBinding crate binding then .ok ()
    else .error ("first session-bind did not identify trusted coordinator " ++
      coordinator.knownHostsName)
  | 1, some _ | 0, none =>
    if !binding.isForwarding && policy.peer.authorizesBinding crate binding then .ok ()
    else .error ("final session-bind did not identify trusted peer " ++ policy.peer.knownHostsName)
  | _, _ => .error "unexpected extra SSH forwarding hop"

def BindState.add (policy : BrokerPolicy κ) (bindings : List (SessionBind κ σ))
    (binding : SessionBind κ σ) : Except String (List (SessionBind κ σ)) := do
  if binding.sessionId = [] ∨ 64 < binding.sessionId.length then
    .error "invalid SSH session identifier length"
  else if crate.keyIsCryptographicallyVerifiable binding.hostKey = false ∨
      signatureAlgorithmIsCryptographicallyVerifiable (crate.algorithm binding.signature) = false
  then .error "session-bind used an unsupported host-key or signature algorithm"
  else if crate.verify binding.hostKey binding.sessionId binding.signature = false then
    .error "invalid session-bind host-key signature"
  else
    nextHop crate policy bindings.length binding
    if bindings.any fun previous => previous.sessionId == binding.sessionId then
      .error "reused SSH session identifier"
    else pure (bindings ++ [binding])

/-! ## Wire checks before decoding -/

inductive WireKeyKind where
  | dsa
  | ecdsa
  | ed25519
  | rsa
  | skEcdsa
  | skEd25519

def plainWireKeyKind (algorithm : Bytes) : Except String WireKeyKind :=
  if algorithm = ascii "ssh-dss" then .ok .dsa
  else if algorithm = ascii "ecdsa-sha2-nistp256" ∨ algorithm = ascii "ecdsa-sha2-nistp384" ∨
      algorithm = ascii "ecdsa-sha2-nistp521" then .ok .ecdsa
  else if algorithm = ascii "ssh-ed25519" then .ok .ed25519
  else if algorithm = ascii "ssh-rsa" ∨ algorithm = ascii "rsa-sha2-256" ∨
      algorithm = ascii "rsa-sha2-512" then .ok .rsa
  else if algorithm = ascii "sk-ecdsa-sha2-nistp256@openssh.com" then .ok .skEcdsa
  else if algorithm = ascii "sk-ssh-ed25519@openssh.com" then .ok .skEd25519
  else .error "unsupported SSH key algorithm"

def certificateWireKeyKind (algorithm : Bytes) : Except String WireKeyKind :=
  if algorithm = ascii "ssh-dss-cert-v01@openssh.com" then .ok .dsa
  else if algorithm = ascii "ecdsa-sha2-nistp256-cert-v01@openssh.com" ∨
      algorithm = ascii "ecdsa-sha2-nistp384-cert-v01@openssh.com" ∨
      algorithm = ascii "ecdsa-sha2-nistp521-cert-v01@openssh.com" then .ok .ecdsa
  else if algorithm = ascii "ssh-ed25519-cert-v01@openssh.com" then .ok .ed25519
  else if algorithm = ascii "ssh-rsa-cert-v01@openssh.com" then .ok .rsa
  else if algorithm = ascii "sk-ecdsa-sha2-nistp256-cert-v01@openssh.com" then .ok .skEcdsa
  else if algorithm = ascii "sk-ssh-ed25519-cert-v01@openssh.com" then .ok .skEd25519
  else .error "unsupported SSH certificate algorithm"

/-- Step over so many strings. -/
def skipStrings : Nat → Bytes → Except String Bytes
  | 0, input => .ok input
  | count + 1, input => do
      let (_, input) ← string input
      skipStrings count input

def validateKeyFields (kind : WireKeyKind) (input : Bytes) : Except String Bytes :=
  match kind with
  | .dsa => skipStrings 4 input
  | .ecdsa | .rsa | .skEd25519 => skipStrings 2 input
  | .ed25519 => skipStrings 1 input
  | .skEcdsa => skipStrings 3 input

def validateKeyWire (encoded : Bytes) : Except String Unit := do
  let (algorithm, input) ← string encoded
  let kind ← plainWireKeyKind algorithm
  let input ← validateKeyFields kind input
  if input ≠ [] then .error "trailing bytes in SSH key" else pure ()

/-- Step over strings to the end; every step takes at least four bytes. -/
def validateStringSequence (encoded : Bytes) : Except String Unit :=
  go encoded.length encoded
where
  go : Nat → Bytes → Except String Unit
    | _, [] => .ok ()
    | 0, _ :: _ => .error "truncated SSH string"
    | fuel + 1, input => do
        let (_, input) ← string input
        go fuel input

def validateCertificateOptions (encoded : Bytes) : Except String Unit :=
  go encoded.length encoded
where
  go : Nat → Bytes → Except String Unit
    | _, [] => .ok ()
    | 0, _ :: _ => .error "truncated SSH string"
    | fuel + 1, input => do
        let (_, input) ← string input
        let (data, input) ← string input
        if data ≠ [] then
          let (_, nested) ← string data
          if nested ≠ [] then .error "trailing bytes in SSH certificate option"
          else go fuel input
        else go fuel input

def validateSignatureWire (encoded : Bytes) : Except String Unit := do
  let (algorithm, input) ← string encoded
  let (signature, input) ← string input
  if algorithm = ascii "ecdsa-sha2-nistp256" ∨ algorithm = ascii "ecdsa-sha2-nistp384" ∨
      algorithm = ascii "ecdsa-sha2-nistp521" ∨
      algorithm = ascii "sk-ecdsa-sha2-nistp256@openssh.com" then
    let components ← skipStrings 2 signature
    if components ≠ [] then .error "trailing bytes in ECDSA signature"
  let input ←
    if algorithm = ascii "sk-ecdsa-sha2-nistp256@openssh.com" ∨
        algorithm = ascii "sk-ssh-ed25519@openssh.com" then
      (fixed 5 input).map Prod.snd
    else pure input
  if input ≠ [] then .error "trailing bytes in SSH signature" else pure ()

def certificateSuffix : Bytes := ascii "-cert-v01@openssh.com"

def validatePublicCredentialWire (encoded : Bytes) : Except String Unit := do
  let (algorithm, input) ← string encoded
  let input ←
    if certificateSuffix.isSuffixOf algorithm then do
      let kind ← certificateWireKeyKind algorithm
      let input ← skipStrings 1 input
      let input ← validateKeyFields kind input
      let (_, input) ← fixed 8 input
      let (_, input) ← fixed 4 input
      let input ← skipStrings 1 input
      let (principals, input) ← string input
      validateStringSequence principals
      let (_, input) ← fixed 8 input
      let (_, input) ← fixed 8 input
      let (critical, input) ← string input
      validateCertificateOptions critical
      let (extensions, input) ← string input
      validateCertificateOptions extensions
      let input ← skipStrings 1 input
      let (signingKey, input) ← string input
      validateKeyWire signingKey
      let (signature, input) ← string input
      validateSignatureWire signature
      pure input
    else do
      let kind ← plainWireKeyKind algorithm
      validateKeyFields kind input
  if input ≠ [] then .error "trailing bytes in SSH credential" else pure ()

/-! ## The requests -/

structure SignRequest (κ γ : Type) where
  credential : PublicCredential κ γ
  data : Bytes
  flags : Nat
  deriving DecidableEq

/-- Decode bytes completely. -/
def decodeWhole {α : Type} (decode : Bytes → Option (α × Bytes)) (encoded : Bytes)
    (undecodable trailing : String) : Except String α :=
  match decode encoded with
  | none => .error undecodable
  | some (value, left) => if left ≠ [] then .error trailing else .ok value

def parseSignRequest (frame : Bytes) : Except String (SignRequest κ γ) := do
  let (message, input) ← byte frame
  if message ≠ 13 then .error "not a sign request"
  else
    let (encodedCredential, input) ← string input
    validatePublicCredentialWire encodedCredential
    let credential ← decodeWhole crate.decodeCredential encodedCredential
      "decode bounded sign-request credential" "trailing bytes in sign-request credential"
    let (data, input) ← string input
    let (flags, input) ← fixed 4 input
    if input ≠ [] then .error "trailing bytes in sign request"
    else pure ⟨credential, data, fromBigEndian flags⟩

def parseSessionBind (frame : Bytes) : Except String (SessionBind κ σ) := do
  let (message, input) ← byte frame
  if message ≠ 27 then .error "not an agent extension"
  else
    let (name, input) ← string input
    if name ≠ ascii "session-bind@openssh.com" then .error "unsupported agent extension"
    else
      let (encodedHostKey, input) ← string input
      validateKeyWire encodedHostKey
      let hostKey ← decodeWhole crate.decodeKey encodedHostKey
        "decode bounded session host key" "trailing bytes in session host key"
      let (sessionId, input) ← string input
      let (encodedSignature, input) ← string input
      validateSignatureWire encodedSignature
      let signature ← decodeWhole crate.decodeSignature encodedSignature
        "decode bounded session signature" "trailing bytes in session signature"
      let (isForwarding, input) ← byte input
      if input ≠ [] then .error "trailing bytes in session-bind"
      else pure ⟨hostKey, sessionId, signature, isForwarding != 0⟩

structure HostboundUserauth where
  sessionId : Bytes
  user : Bytes
  service : Bytes
  method : Bytes
  algorithm : Bytes
  credential : Bytes
  hostKey : Bytes

def HostboundUserauth.parse (data : Bytes) : Except String HostboundUserauth := do
  let (sessionId, input) ← string data
  let (message, input) ← byte input
  if message ≠ 50 then .error "signing data was not SSH2_MSG_USERAUTH_REQUEST"
  else
    let (user, input) ← string input
    let (service, input) ← string input
    let (method, input) ← string input
    let (signs, input) ← byte input
    if signs ≠ 1 then .error "public-key request did not contain a signature"
    else
      let (algorithm, input) ← string input
      let (credential, input) ← string input
      let (hostKey, input) ← string input
      if input ≠ [] then .error "trailing bytes in host-bound userauth request"
      else pure ⟨sessionId, user, service, method, algorithm, credential, hostKey⟩

/-- The flags that an algorithm of a key type asks for. -/
def expectedFlags (keyType algorithm : Bytes) : Except String Nat :=
  if (keyType = ascii "ssh-rsa" ∧ algorithm = ascii "ssh-rsa") ∨
      (keyType = ascii "ssh-rsa-cert-v01@openssh.com" ∧
        algorithm = ascii "ssh-rsa-cert-v01@openssh.com") then
    .error "RSA/SHA-1 userauth signatures cannot be verified safely"
  else if (keyType = ascii "ssh-rsa" ∧ algorithm = ascii "rsa-sha2-256") ∨
      (keyType = ascii "ssh-rsa-cert-v01@openssh.com" ∧
        algorithm = ascii "rsa-sha2-256-cert-v01@openssh.com") then .ok 2
  else if (keyType = ascii "ssh-rsa" ∧ algorithm = ascii "rsa-sha2-512") ∨
      (keyType = ascii "ssh-rsa-cert-v01@openssh.com" ∧
        algorithm = ascii "rsa-sha2-512-cert-v01@openssh.com") then .ok 4
  else if keyType = algorithm then .ok 0
  else .error "userauth signature algorithm did not match credential"

def validateSignatureAlgorithm (algorithm credential : Bytes) (flags : Nat) :
    Except String Unit := do
  let (keyType, _) ← string credential
  let expected ← expectedFlags keyType algorithm
  if flags ≠ expected then .error "agent signature flags did not match userauth algorithm"
  else pure ()

/-- A user certificate of the signing key. -/
def certificateMatchesSigningKey (encoded : Bytes) (signingKey : κ) : Except String Bool := do
  validatePublicCredentialWire encoded
  let credential ← decodeWhole crate.decodeCredential encoded
    "undecodable embedded credential" "trailing embedded credential data"
  match credential with
  | .key _ => pure false
  | .certificate certificate =>
    pure (crate.isUserCertificate certificate && (crate.certificateKey certificate == signingKey &&
        crate.credentialIsCryptographicallyVerifiable credential))

/-- The peer's binding, once the path is complete. -/
def boundPeer (policy : BrokerPolicy κ) (bindings : List (SessionBind κ σ)) :
    Except String (SessionBind κ σ) :=
  match policy.coordinator, bindings with
  | some _, [_, peer] => .ok peer
  | none, [peer] => .ok peer
  | _, _ => .error "signature requested before the exact authorized path was bound"

/-- The credential in the signed bytes is the requested one, or a certificate of it. -/
def checkCredential (ambientCertificate : Bool) (request : SignRequest κ γ)
    (embedded : Bytes) : Except String Unit :=
  match crate.encode request.credential with
  | none => .error "encode requested credential"
  | some credential =>
    if embedded = credential then .ok ()
    else
      match ambientCertificate, request.credential with
      | true, .key key => do
          let same ← certificateMatchesSigningKey crate embedded key
          if same = false then
            .error "embedded userauth credential did not match sign request"
          else pure ()
      | _, _ => .error "embedded userauth credential did not match sign request"

def BindState.authorize (policy : BrokerPolicy κ) (bindings : List (SessionBind κ σ))
    (request : SignRequest κ γ) (ambientCertificate : Bool) : Except String Unit := do
  let peer ← boundPeer policy bindings
  let parsed ← HostboundUserauth.parse request.data
  if parsed.sessionId ≠ peer.sessionId then
    .error "userauth session did not match session-bind"
  else if parsed.user ≠ policy.peer.loginUser then
    .error "userauth login user was not authorized"
  else if parsed.service ≠ ascii "ssh-connection" then
    .error "userauth service was not ssh-connection"
  else if parsed.method ≠ ascii "publickey-hostbound-v00@openssh.com" then
    .error "unsupported or non-host-bound userauth request"
  else
    checkCredential crate ambientCertificate request parsed.credential
    match crate.encodeKey peer.hostKey with
    | none => .error "encode bound host key"
    | some hostKey =>
      if parsed.hostKey ≠ hostKey then
        .error "embedded userauth host key did not match session-bind"
      else validateSignatureAlgorithm parsed.algorithm parsed.credential request.flags

/-! ## The frame loop -/

/-- What the real agent answers to each kind of request, in turn. -/
structure Backend (κ γ : Type) where
  ambient : Bool
  identities : List (Except String (List (PublicCredential κ γ)))
  signatures : List (Except String Bytes)
  replays : List (Except String Unit)

structure State (κ γ σ : Type) where
  bindings : List (SessionBind κ σ)
  connected : Bool
  advertised : Option (List (PublicCredential κ γ))

/-- What the broker does: take a binding, advertise credentials, pass a sign request on with its
frame, or answer the client. -/
inductive Event (κ γ σ : Type) where
  | bound (binding : SessionBind κ σ)
  | advertised (identities : List (PublicCredential κ γ))
  | signed (request : SignRequest κ γ) (frame : Bytes)
  | replied (frame : Bytes)
  deriving DecidableEq

def sshAgentFailure : Bytes := [5]

def sshAgentSuccess : Bytes := [6]

def sshAgentExtensionFailure : Bytes := [28]

/-- The next state, unless the connection ends. -/
abbrev Served (κ γ σ : Type) := List (Event κ γ σ) × Option (State κ γ σ × Backend κ γ)

def serveIdentities (state : State κ γ σ) (backend : Backend κ γ) : Served κ γ σ :=
  match backend.identities with
  | [] | .error _ :: _ => ([], none)
  | .ok identities :: answers =>
    let kept := identities.filter crate.credentialIsCryptographicallyVerifiable
    match crate.encodeIdentities kept with
    | none => ([], none)
    | some response =>
      ([.advertised kept, .replied response],
        some ({ state with connected := true, advertised := some kept },
          { backend with identities := answers }))

/-- The agent's answer to a sign request: a signature that verifies, or a refusal. -/
def verifyAgentSignResponse (frame : Bytes) (key : κ) (data : Bytes) : Except String Unit := do
  let response ← decodeWhole crate.decodeResponse frame "decode ambient signature response"
    "trailing bytes in ambient signature response"
  match response with
  | .signResponse signature =>
    if crate.verify key data signature = false then
      .error "ambient agent returned an invalid signature"
    else pure ()
  | .failure => pure ()
  | _ => .error "ambient agent returned an unexpected signature response"

def serveSign (policy : BrokerPolicy κ) (state : State κ γ σ) (backend : Backend κ γ)
    (frame : Bytes) : Served κ γ σ :=
  match parseSignRequest crate frame with
  | .error _ => ([.replied sshAgentFailure], none)
  | .ok request =>
    match state.advertised with
    | none => ([.replied sshAgentFailure], none)
    | some identities =>
      if (identities.any fun identity =>
          crate.credentialsEqualOnWire identity request.credential) = false then
        ([.replied sshAgentFailure], none)
      else
        match BindState.authorize crate policy state.bindings request backend.ambient with
        | .error _ => ([.replied sshAgentFailure], none)
        | .ok () =>
          match backend.signatures with
          | [] | .error _ :: _ => ([.signed request frame], none)
          | .ok response :: answers =>
            match verifyAgentSignResponse crate response (crate.keyData request.credential)
                request.data with
            | .error _ => ([.signed request frame, .replied sshAgentFailure], none)
            | .ok () =>
              ([.signed request frame, .replied response], some ({ state with connected := true },
                  { backend with signatures := answers }))

def serveBind (policy : BrokerPolicy κ) (state : State κ γ σ) (backend : Backend κ γ)
    (frame : Bytes) : Served κ γ σ :=
  match parseSessionBind crate frame with
  | .error _ => ([.replied sshAgentExtensionFailure], none)
  | .ok binding =>
    match BindState.add crate policy state.bindings binding with
    | .error _ => ([.replied sshAgentExtensionFailure], none)
    | .ok bindings =>
      if backend.ambient && state.connected then
        match backend.replays with
        | [] => ([.bound binding], none)
        | .error _ :: _ => ([.bound binding, .replied sshAgentExtensionFailure], none)
        | .ok () :: answers =>
          ([.bound binding, .replied sshAgentSuccess],
            some ({ state with bindings := bindings }, { backend with replays := answers }))
      else
        ([.bound binding, .replied sshAgentSuccess],
          some ({ state with bindings := bindings }, backend))

def serveFrame (policy : BrokerPolicy κ) (state : State κ γ σ) (backend : Backend κ γ)
    (frame : Bytes) : Served κ γ σ :=
  match frame with
  | [] => ([], none)
  | message :: rest =>
    if message = 11 ∧ rest = [] ∧ state.bindings ≠ [] then serveIdentities crate state backend
    else if message = 13 then serveSign crate policy state backend frame
    else if message = 27 then serveBind crate policy state backend frame
    else ([.replied sshAgentFailure], none)

/-- Everything that the broker does for the frames of a client. -/
def serveClient (policy : BrokerPolicy κ) : State κ γ σ → Backend κ γ → List Bytes →
    List (Event κ γ σ)
  | _, _, [] => []
  | state, backend, frame :: rest =>
    match serveFrame crate policy state backend frame with
    | (events, none) => events
    | (events, some (state, backend)) => events ++ serveClient policy state backend rest

end Crates

/-- A new connection. -/
def State.start {κ γ σ : Type} : State κ γ σ :=
  ⟨[], false, none⟩

end Syq.Broker
