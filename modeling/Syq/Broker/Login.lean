import Syq.Broker.Model

/-!
# Only the approved login is signed

A sign request reaches the agent only after the approved path was bound hop by hop, and only if
the bytes to be signed are the user-authentication request of that path's peer and user.
-/

namespace Syq.Broker

open Syq.Lib Syq.Lib.SshWire

section Login

variable {κ γ σ : Type} [DecidableEq κ]

/-! ## What is approved -/

/-- A binding that a host of the path made: signed by one of its pinned keys with an algorithm
that it may use. -/
structure Binds (crate : Crate κ γ σ) (host : HostPolicy κ) (forwarding : Bool)
    (binding : SessionBind κ σ) : Prop where
  isForwarding_eq : binding.isForwarding = forwarding
  sessionId_ne_nil : binding.sessionId ≠ []
  sessionId_short : binding.sessionId.length ≤ 64
  verifies : crate.verify binding.hostKey binding.sessionId binding.signature = true
  keyVerifiable : crate.keyIsCryptographicallyVerifiable binding.hostKey = true
  algorithmVerifiable :
    signatureAlgorithmIsCryptographicallyVerifiable (crate.algorithm binding.signature) = true
  pinned : binding.hostKey ∈ host.hostKeys
  allowed : (crate.algorithm binding.signature).asStr ∈ host.hostKeyAlgorithms
  large : ∀ modulus, crate.rsaModulus binding.hostKey = some modulus →
    ∃ bytes, modulus = some bytes ∧ host.requiredRsaSize ≤ modulusBits bytes

/-- The whole path: the coordinator as a forwarding hop, if there is one, and then the peer. -/
inductive Path (crate : Crate κ γ σ) (policy : BrokerPolicy κ) :
    List (SessionBind κ σ) → SessionBind κ σ → Prop where
  | direct {peer : SessionBind κ σ} (alone : policy.coordinator = none)
      (last : Binds crate policy.peer false peer) : Path crate policy [peer] peer
  | through {coordinator : HostPolicy κ} {hop peer : SessionBind κ σ}
      (behind : policy.coordinator = some coordinator) (first : Binds crate coordinator true hop)
      (last : Binds crate policy.peer false peer) (fresh : hop.sessionId ≠ peer.sessionId) :
      Path crate policy [hop, peer] peer

/-- The bytes of a host-bound user-authentication request for the connection service. -/
def userauth (sessionId user algorithm credential hostKey : Bytes) : Bytes :=
  writeString sessionId ++ 50 :: (writeString user ++ (writeString (ascii "ssh-connection") ++
    (writeString (ascii "publickey-hostbound-v00@openssh.com") ++ 1 :: (writeString algorithm ++
      (writeString credential ++ writeString hostKey)))))

/-- Algorithms that sign a SHA-1 digest. -/
def sha1Algorithms : List Bytes :=
  [ascii "ssh-rsa", ascii "ssh-rsa-cert-v01@openssh.com", ascii "ssh-dss",
    ascii "ssh-dss-cert-v01@openssh.com"]

/-- The credential in the signed bytes is the one that is asked for. -/
def Embeds (crate : Crate κ γ σ) (request : SignRequest κ γ) (embedded : Bytes) : Prop :=
  crate.encode request.credential = some embedded

/-- The credential in the signed bytes is a user certificate of the plain key that is asked
for. -/
def EmbedsCertificate (crate : Crate κ γ σ) (request : SignRequest κ γ) (embedded : Bytes) :
    Prop :=
  ∃ certificate, crate.decodeCredential embedded = some (.certificate certificate, []) ∧
    request.credential = .key (crate.certificateKey certificate) ∧
    crate.isUserCertificate certificate = true ∧ crate.certificateVerifies certificate = true

/-- A sign request for the approved login. -/
structure Approved (crate : Crate κ γ σ) (policy : BrokerPolicy κ) (ambient : Bool)
    (bindings : List (SessionBind κ σ)) (advertised : Option (List (PublicCredential κ γ)))
    (request : SignRequest κ γ) (peer : SessionBind κ σ) (algorithm embedded hostKey : Bytes) :
    Prop where
  path : Path crate policy bindings peer
  data_eq : request.data = userauth peer.sessionId policy.peer.loginUser algorithm embedded hostKey
  hostKey_eq : crate.encodeKey peer.hostKey = some hostKey
  offered : ∃ identities, advertised = some identities ∧
    ∃ identity ∈ identities, ∃ encoded, crate.encode identity = some encoded ∧
      crate.encode request.credential = some encoded
  embeds : Embeds crate request embedded ∨
    ambient = true ∧ EmbedsCertificate crate request embedded
  flags_eq : ∃ keyType rest, string embedded = .ok (keyType, rest) ∧
    expectedFlags keyType algorithm = .ok request.flags
  notSha1 : algorithm ∉ sha1Algorithms

/-! ## The checks -/

theorem parse_eq_ok {data : Bytes} {parsed : HostboundUserauth}
    (read : HostboundUserauth.parse data = .ok parsed)
    (service : parsed.service = ascii "ssh-connection")
    (method : parsed.method = ascii "publickey-hostbound-v00@openssh.com") :
    data = userauth parsed.sessionId parsed.user parsed.algorithm parsed.credential
      parsed.hostKey := by
  simp only [HostboundUserauth.parse, bind_eq_ok_iff, Prod.exists, string_eq_ok_iff,
    byte_eq_ok_iff, guard_eq_ok_iff, not_not, pure_eq_ok_iff] at read
  rcases read with ⟨sessionId, _, ⟨-, rfl⟩, _, _, rfl, rfl, user, _, ⟨-, rfl⟩, _, _, ⟨-, rfl⟩,
    _, _, ⟨-, rfl⟩, _, _, rfl, rfl, algorithm, _, ⟨-, rfl⟩, credential, _, ⟨-, rfl⟩, hostKey, _,
    ⟨-, rfl⟩, rfl, rfl⟩
  subst service method
  rw [List.append_nil]
  rfl

variable {crate : Crate κ γ σ} {policy : BrokerPolicy κ} {ambient : Bool}

/-- A binding that its host authorizes. -/
theorem binds_of_authorizes {host : HostPolicy κ}
    {binding : SessionBind κ σ} (ne : binding.sessionId ≠ [])
    (short : binding.sessionId.length ≤ 64)
    (verifies : crate.verify binding.hostKey binding.sessionId binding.signature = true)
    (authorized : host.authorizesBinding crate binding = true) :
    Binds crate host binding.isForwarding binding := by
  unfold HostPolicy.authorizesBinding at authorized
  rw [Bool.and_eq_true, Bool.and_eq_true, Bool.and_eq_true, Bool.and_eq_true] at authorized
  rcases authorized with ⟨keyVerifiable, algorithmVerifiable, pinned, allowed, large⟩
  refine ⟨rfl, ne, short, verifies, keyVerifiable, algorithmVerifiable, ?_, ?_, ?_⟩
  · simpa using pinned
  · rcases List.any_eq_true.mp allowed with ⟨name, mem, same⟩
    rwa [← beq_iff_eq.mp same]
  · intro modulus isRsa
    rw [isRsa] at large
    cases modulus with
    | none => cases large
    | some bytes => exact ⟨bytes, rfl, of_decide_eq_true large⟩

/-- The bindings so far are a beginning of the approved path. -/
inductive Bound (crate : Crate κ γ σ) (policy : BrokerPolicy κ) :
    List (SessionBind κ σ) → Prop where
  | nothing : Bound crate policy []
  | hop {coordinator : HostPolicy κ} {hop : SessionBind κ σ}
      (behind : policy.coordinator = some coordinator) (first : Binds crate coordinator true hop) :
      Bound crate policy [hop]
  | path {bindings : List (SessionBind κ σ)} {peer : SessionBind κ σ}
      (path : Path crate policy bindings peer) : Bound crate policy bindings

variable {bindings : List (SessionBind κ σ)}

/-- An accepted binding is the next hop of the path. -/
theorem bound_of_add {extended : List (SessionBind κ σ)} {binding : SessionBind κ σ}
    (bound : Bound crate policy bindings)
    (added : BindState.add crate policy bindings binding = .ok extended) :
    extended = bindings ++ [binding] ∧ Bound crate policy extended := by
  unfold BindState.add at added
  rw [guard_eq_ok_iff, guard_eq_ok_iff, guard_eq_ok_iff, bind_eq_ok_iff] at added
  rcases added with ⟨identifier, -, verifies, ⟨⟩, hop, added⟩
  rw [guard_eq_ok_iff, pure_eq_ok_iff] at added
  rcases added with ⟨unused, rfl⟩
  rw [not_or, not_lt] at identifier
  rw [Bool.not_eq_false] at verifies
  refine ⟨rfl, ?_⟩
  have binds : ∀ {host : HostPolicy κ}, host.authorizesBinding crate binding = true →
      Binds crate host binding.isForwarding binding :=
    fun authorized => binds_of_authorizes identifier.1 identifier.2 verifies authorized
  unfold nextHop at hop
  rcases behind : policy.coordinator with _ | coordinator
  · cases bound with
    | nothing =>
      simp only [behind, List.length_nil] at hop
      split_ifs at hop with accepted
      rw [Bool.and_eq_true, Bool.not_eq_true'] at accepted
      have last := binds accepted.2
      rw [accepted.1] at last
      exact .path (.direct behind last)
    | hop other => rw [behind] at other; cases other
    | path path =>
      cases path with
      | direct => rw [behind] at hop; cases hop
      | through other => rw [behind] at other; cases other
  · cases bound with
    | nothing =>
      simp only [behind, List.length_nil] at hop
      split_ifs at hop with accepted
      rw [Bool.and_eq_true] at accepted
      have first := binds accepted.2
      rw [accepted.1] at first
      exact .hop behind first
    | @hop _ hopBinding other first =>
      simp only [behind, List.length_singleton] at hop
      split_ifs at hop with accepted
      rw [Bool.and_eq_true, Bool.not_eq_true'] at accepted
      have last := binds accepted.2
      rw [accepted.1] at last
      have fresh : hopBinding.sessionId ≠ binding.sessionId := by simpa using unused
      exact .path (.through other first last fresh)
    | path path =>
      cases path with
      | direct other => rw [behind] at other; cases other
      | through => rw [behind] at hop; cases hop

omit [DecidableEq κ] in
/-- No verifiable kind of key has the name of a SHA-1 algorithm of DSA. -/
theorem name_ne_dss {key : κ}
    (verifiable : crate.keyIsCryptographicallyVerifiable key = true) :
    ascii (crate.kind key).name ∉ [ascii "ssh-dss", ascii "ssh-dss-cert-v01@openssh.com"] ∧
      ∃ name, (crate.kind key).certificateName = some name ∧
        ascii name ∉ [ascii "ssh-dss", ascii "ssh-dss-cert-v01@openssh.com"] := by
  unfold Crate.keyIsCryptographicallyVerifiable at verifiable
  cases kind : crate.kind key with
  | dsa => rw [kind] at verifiable; cases verifiable
  | other name => rw [kind] at verifiable; cases verifiable
  | ecdsa curve => cases curve <;> exact ⟨by decide +kernel, _, rfl, by decide +kernel⟩
  | ed25519 => exact ⟨by decide +kernel, _, rfl, by decide +kernel⟩
  | rsa => exact ⟨by decide +kernel, _, rfl, by decide +kernel⟩
  | skEcdsaSha2NistP256 => exact ⟨by decide +kernel, _, rfl, by decide +kernel⟩
  | skEd25519 => exact ⟨by decide +kernel, _, rfl, by decide +kernel⟩

/-- The flags of an algorithm are accepted only if it is not RSA with SHA-1, and DSA is known by
its key type. -/
theorem notSha1_of_flags {keyType algorithm : Bytes} {flags : Nat}
    (accepted : expectedFlags keyType algorithm = .ok flags)
    (notDss : keyType ∉ [ascii "ssh-dss", ascii "ssh-dss-cert-v01@openssh.com"]) :
    algorithm ∉ sha1Algorithms := by
  unfold expectedFlags at accepted
  rw [guard_eq_ok_iff] at accepted
  rcases accepted with ⟨notRsaSha1, accepted⟩
  split_ifs at accepted with sha256 sha512 same
  · rcases sha256 with ⟨-, rfl⟩ | ⟨-, rfl⟩ <;> decide +kernel
  · rcases sha512 with ⟨-, rfl⟩ | ⟨-, rfl⟩ <;> decide +kernel
  · subst same
    simp only [sha1Algorithms, List.mem_cons, List.not_mem_nil] at notDss ⊢
    tauto

omit [DecidableEq κ] in
theorem decodeWhole_eq_ok {α : Type} {decode : Bytes → Option (α × Bytes)} {encoded : Bytes}
    {undecodable trailing : String} {value : α}
    (decoded : decodeWhole decode encoded undecodable trailing = .ok value) :
    decode encoded = some (value, []) := by
  unfold decodeWhole at decoded
  split at decoded
  · cases decoded
  case h_2 found left wasFound =>
    rw [guard_eq_ok_iff, not_not] at decoded
    rcases decoded with ⟨rfl, same⟩
    cases same
    exact wasFound

omit [DecidableEq κ] in
/-- The frame of a sign request is exactly the request's fields. -/
theorem parseSignRequest_eq_ok {frame : Bytes} {request : SignRequest κ γ}
    (parsed : parseSignRequest crate frame = .ok request) :
    ∃ encoded flags, frame = 13 :: (writeString encoded ++ (writeString request.data ++ flags)) ∧
      crate.decodeCredential encoded = some (request.credential, []) ∧ flags.length = 4 ∧
      request.flags = fromBigEndian flags := by
  simp only [parseSignRequest, bind_eq_ok_iff, Prod.exists, string_eq_ok_iff, byte_eq_ok_iff,
    fixed_eq_ok_iff, guard_eq_ok_iff, not_not, pure_eq_ok_iff] at parsed
  rcases parsed with ⟨_, _, rfl, rfl, encoded, _, ⟨-, rfl⟩, _, -, credential, decoded, data, _,
    ⟨-, rfl⟩, flags, _, ⟨width, rfl⟩, rfl, rfl⟩
  exact ⟨encoded, flags, by rw [List.append_nil], decodeWhole_eq_ok decoded, width, rfl⟩

/-- The embedded credential of an accepted request; a certificate is not one of DSA. -/
theorem checkCredential_eq_ok {req : SignRequest κ γ}
    {embedded : Bytes} (checked : checkCredential crate ambient req embedded = .ok ()) :
    Embeds crate req embedded ∨
      ambient = true ∧ EmbedsCertificate crate req embedded ∧
        ∃ keyType rest, string embedded = .ok (keyType, rest) ∧
          keyType ∉ [ascii "ssh-dss", ascii "ssh-dss-cert-v01@openssh.com"] := by
  unfold checkCredential at checked
  split at checked
  · cases checked
  case h_2 credential encoded =>
    split_ifs at checked with same
    · subst same
      exact .inl encoded
    · split at checked
      case h_1 _ _ key isKey =>
        rcases bind_eq_ok_iff.mp checked with ⟨matches', certified, checked⟩
        rw [guard_eq_ok_iff, Bool.not_eq_false] at checked
        rcases checked with ⟨rfl, -⟩
        rcases bind_eq_ok_iff.mp certified with ⟨⟨⟩, -, certified⟩
        rcases bind_eq_ok_iff.mp certified with ⟨found, decoded, certified⟩
        cases found with
        | key other => cases certified
        | certificate cert =>
          rw [pure_eq_ok_iff, Bool.and_eq_true, Bool.and_eq_true, beq_iff_eq] at certified
          rcases certified with ⟨isUser, sameKey, verifiable⟩
          unfold Crate.credentialIsCryptographicallyVerifiable at verifiable
          rw [Bool.and_eq_true] at verifiable
          have whole := decodeWhole_eq_ok decoded
          rcases (name_ne_dss verifiable.1).2 with ⟨name, named, notDss⟩
          rcases crate.decodeCredential_name whole named with ⟨rest, starts⟩
          refine .inr ⟨rfl, ⟨cert, whole, ?_, isUser, verifiable.2⟩, _, rest, starts, notDss⟩
          rw [isKey, sameKey]
      case h_2 => cases checked

omit [DecidableEq κ] in
/-- A complete path ends at the bound peer. -/
theorem path_of_boundPeer {peer : SessionBind κ σ}
    (bound : Bound crate policy bindings) (complete : boundPeer policy bindings = .ok peer) :
    Path crate policy bindings peer := by
  unfold boundPeer at complete
  cases bound with
  | nothing => split at complete <;> simp_all
  | hop behind first =>
    rw [behind] at complete
    cases complete
  | path path =>
    cases path with
    | direct alone last =>
      rw [alone] at complete
      cases complete
      exact .direct alone last
    | through behind first last fresh =>
      rw [behind] at complete
      cases complete
      exact .through behind first last fresh

omit [DecidableEq κ] in
/-- The name of an advertised credential is not one of DSA. -/
theorem encode_name {credential : PublicCredential κ γ} {encoded : Bytes}
    (verifiable : crate.credentialIsCryptographicallyVerifiable credential = true)
    (wire : crate.encode credential = some encoded) :
    ∃ keyType rest, string encoded = .ok (keyType, rest) ∧
      keyType ∉ [ascii "ssh-dss", ascii "ssh-dss-cert-v01@openssh.com"] := by
  unfold Crate.credentialIsCryptographicallyVerifiable at verifiable
  rw [Bool.and_eq_true] at verifiable
  have names := name_ne_dss verifiable.1
  cases credential with
  | key key =>
    rcases crate.encodeKey_name wire with ⟨rest, name⟩
    exact ⟨_, rest, name, names.1⟩
  | certificate cert =>
    rcases names.2 with ⟨name, named, notDss⟩
    rcases crate.encodeCertificate_name wire named with ⟨rest, starts⟩
    exact ⟨_, rest, starts, notDss⟩

/-- What the broker advertises is verifiable. -/
def Verifiable (crate : Crate κ γ σ) (advertised : Option (List (PublicCredential κ γ))) : Prop :=
  ∀ identities, advertised = some identities → ∀ identity ∈ identities,
    crate.credentialIsCryptographicallyVerifiable identity = true

/-- An authorized request is approved. -/
theorem approved_of_authorize {identities : List (PublicCredential κ γ)}
    {req : SignRequest κ γ} (bound : Bound crate policy bindings)
    (verifiable : Verifiable crate (some identities)) (offered : (identities.any fun identity =>
      crate.credentialsEqualOnWire identity req.credential) = true)
    (authorized : BindState.authorize crate policy bindings req ambient = .ok ()) :
    ∃ peer algorithm embedded hostKey, Approved crate policy ambient bindings (some identities)
      req peer algorithm embedded hostKey := by
  rcases bind_eq_ok_iff.mp authorized with ⟨peer, complete, authorized⟩
  rcases bind_eq_ok_iff.mp authorized with ⟨parsed, read, authorized⟩
  rw [guard_eq_ok_iff, guard_eq_ok_iff, guard_eq_ok_iff,
    guard_eq_ok_iff, not_not, not_not, not_not, not_not] at authorized
  rcases authorized with ⟨session, user, service, method, authorized⟩
  rcases bind_eq_ok_iff.mp authorized with ⟨⟨⟩, credentialChecked, authorized⟩
  have data_eq := parse_eq_ok read service method
  rcases parsed with ⟨sessionId, user', service', method', algorithm, embedded, hostKey⟩
  subst session user
  split at authorized
  · cases authorized
  case h_2 encodedKey hostKey_eq =>
    rw [guard_eq_ok_iff, not_not] at authorized
    rcases authorized with ⟨rfl, authorized⟩
    rcases bind_eq_ok_iff.mp authorized with ⟨⟨keyType, rest⟩, typeRead, authorized⟩
    rcases bind_eq_ok_iff.mp authorized with ⟨expected, flagsFound, authorized⟩
    rw [guard_eq_ok_iff, not_not] at authorized
    rcases authorized with ⟨rfl, -⟩
    rcases List.any_eq_true.mp offered with ⟨identity, mem, same⟩
    unfold Crate.credentialsEqualOnWire at same
    split at same
    case h_2 => cases same
    case h_1 _ _ left right leftEq rightEq =>
      obtain rfl := beq_iff_eq.mp same
      have credential := checkCredential_eq_ok credentialChecked
      have notDss : keyType ∉ [ascii "ssh-dss", ascii "ssh-dss-cert-v01@openssh.com"] := by
        rcases credential with embeds | ⟨-, -, other, left, starts, notDss⟩
        · obtain rfl := Option.some.inj (rightEq.symm.trans embeds)
          rcases encode_name (verifiable identities rfl identity mem) leftEq with
            ⟨other, otherRest, otherRead, notDss⟩
          rw [typeRead] at otherRead
          cases otherRead
          exact notDss
        · rw [typeRead] at starts
          cases starts
          exact notDss
      refine ⟨peer, algorithm, embedded, hostKey, path_of_boundPeer bound complete, data_eq,
        hostKey_eq, ⟨identities, rfl, identity, mem, left, leftEq, rightEq⟩, ?_,
        ⟨keyType, rest, typeRead, flagsFound⟩, notSha1_of_flags flagsFound notDss⟩
      rcases credential with embeds | ⟨isAmbient, embeds, -⟩
      · exact .inl embeds
      · exact .inr ⟨isAmbient, embeds⟩

/-! ## The whole connection -/

/-- What a client has bound and been offered so far. -/
structure Seen (κ γ σ : Type) where
  bindings : List (SessionBind κ σ)
  advertised : Option (List (PublicCredential κ γ))

def Seen.after (seen : Seen κ γ σ) : Event κ γ σ → Seen κ γ σ
  | .bound binding => { seen with bindings := seen.bindings ++ [binding] }
  | .advertised identities => { seen with advertised := some identities }
  | .signed _ _ | .replied _ => seen

/-- What was bound and offered by some events. -/
def seenIn (events : List (Event κ γ σ)) : Seen κ γ σ :=
  events.foldl Seen.after ⟨[], none⟩

/-- An approved request, with its frame as it came. -/
def Signs (crate : Crate κ γ σ) (policy : BrokerPolicy κ) (ambient : Bool) (seen : Seen κ γ σ)
    (request : SignRequest κ γ) (frame : Bytes) : Prop :=
  parseSignRequest crate frame = .ok request ∧
    ∃ peer algorithm embedded hostKey, Approved crate policy ambient seen.bindings
      seen.advertised request peer algorithm embedded hostKey

/-- Every request in the events was approved when it was passed on. -/
def Sound (crate : Crate κ γ σ) (policy : BrokerPolicy κ) (ambient : Bool) :
    Seen κ γ σ → List (Event κ γ σ) → Prop
  | _, [] => True
  | seen, .signed request frame :: rest =>
    Signs crate policy ambient seen request frame ∧ Sound crate policy ambient seen rest
  | seen, .bound binding :: rest =>
    Sound crate policy ambient (seen.after (.bound binding)) rest
  | seen, .advertised identities :: rest =>
    Sound crate policy ambient (seen.after (.advertised identities)) rest
  | seen, .replied _ :: rest => Sound crate policy ambient seen rest

omit [DecidableEq κ] in
theorem sound_append
    {first second : List (Event κ γ σ)} {seen : Seen κ γ σ} :
    Sound crate policy ambient seen (first ++ second) ↔
      Sound crate policy ambient seen first ∧
        Sound crate policy ambient (first.foldl Seen.after seen) second := by
  induction first generalizing seen with
  | nil => simp [Sound]
  | cons event rest ih =>
    cases event <;> simp [Sound, Seen.after, ih, and_assoc]

/-- What serving one frame has to establish. -/
structure Serves (crate : Crate κ γ σ) (policy : BrokerPolicy κ) (state : State κ γ σ)
    (backend : Backend κ γ) (served : Served κ γ σ) : Prop where
  sound : Sound crate policy backend.ambient ⟨state.bindings, state.advertised⟩ served.1
  goesOn : ∀ next after, served.2 = some (next, after) → after.ambient = backend.ambient ∧
    Bound crate policy next.bindings ∧ Verifiable crate next.advertised ∧
    served.1.foldl Seen.after ⟨state.bindings, state.advertised⟩ =
      ⟨next.bindings, next.advertised⟩

section Frames

variable {state : State κ γ σ} (backend : Backend κ γ) (bound : Bound crate policy state.bindings)
  (verifiable : Verifiable crate state.advertised)

include backend bound

omit [DecidableEq κ] in
theorem serveIdentities_serves :
    Serves crate policy state backend (serveIdentities crate state backend) := by
  unfold serveIdentities
  split
  · exact ⟨trivial, by simp⟩
  · exact ⟨trivial, by simp⟩
  · dsimp only
    split
    · exact ⟨trivial, by simp⟩
    · refine ⟨trivial, ?_⟩
      intro next after same
      cases same
      refine ⟨rfl, bound, ?_, rfl⟩
      intro identities same identity mem
      cases same
      exact (List.mem_filter.mp mem).2

include verifiable

theorem serveSign_serves (frame : Bytes) :
    Serves crate policy state backend (serveSign crate policy state backend frame) := by
  unfold serveSign
  split
  · exact ⟨trivial, by simp⟩
  case h_2 req parsed =>
    split
    · exact ⟨trivial, by simp⟩
    case h_2 identities advertised =>
      split_ifs with unknown
      · exact ⟨trivial, by simp⟩
      · rw [Bool.not_eq_false] at unknown
        rw [advertised] at verifiable
        split
        · exact ⟨trivial, by simp⟩
        case h_2 authorized =>
          have signs : Signs crate policy backend.ambient ⟨state.bindings, state.advertised⟩
              req frame := by
            refine ⟨parsed, ?_⟩
            rw [advertised]
            exact approved_of_authorize bound verifiable unknown authorized
          split
          · exact ⟨⟨signs, trivial⟩, by simp⟩
          · exact ⟨⟨signs, trivial⟩, by simp⟩
          · split
            · exact ⟨⟨signs, trivial⟩, by simp⟩
            · refine ⟨⟨signs, trivial⟩, ?_⟩
              intro next after same
              cases same
              rw [← advertised] at verifiable
              exact ⟨rfl, bound, verifiable, rfl⟩

theorem serveBind_serves (frame : Bytes) :
    Serves crate policy state backend (serveBind crate policy state backend frame) := by
  unfold serveBind
  split
  · exact ⟨trivial, by simp⟩
  · split
    · exact ⟨trivial, by simp⟩
    case h_2 binding _ _ bindings added =>
      rcases bound_of_add bound added with ⟨rfl, boundAfter⟩
      split_ifs with replays
      · split
        · exact ⟨trivial, by simp⟩
        · exact ⟨trivial, by simp⟩
        · refine ⟨trivial, ?_⟩
          intro next after same
          cases same
          exact ⟨rfl, boundAfter, verifiable, rfl⟩
      · refine ⟨trivial, ?_⟩
        intro next after same
        cases same
        exact ⟨rfl, boundAfter, verifiable, rfl⟩

theorem serveFrame_serves (frame : Bytes) :
    Serves crate policy state backend (serveFrame crate policy state backend frame) := by
  unfold serveFrame
  split
  · exact ⟨trivial, by simp⟩
  · split_ifs with identities sign bind
    · exact serveIdentities_serves backend bound
    · exact serveSign_serves backend bound verifiable _
    · exact serveBind_serves backend bound verifiable _
    · exact ⟨trivial, by simp⟩

/-- Whatever the client sends, only approved requests are passed on. -/
theorem serveClient_sound (frames : List Bytes) :
    Sound crate policy backend.ambient ⟨state.bindings, state.advertised⟩
      (serveClient crate policy state backend frames) := by
  induction frames generalizing state backend with
  | nil => trivial
  | cons frame rest ih =>
    have serves := serveFrame_serves backend bound verifiable frame
    unfold serveClient
    rcases served : serveFrame crate policy state backend frame with ⟨events, next⟩
    rw [served] at serves
    rcases next with _ | ⟨next, after⟩
    · exact serves.sound
    · rcases serves.goesOn next after rfl with ⟨ambient, boundNext, verifiableNext, seen⟩
      rw [sound_append, seen, ← ambient]
      refine ⟨?_, ih after boundNext verifiableNext⟩
      rw [ambient]
      exact serves.sound

end Frames

/-- Whatever frames a client sends, a sign request reaches the agent only for the approved login:
after exactly the approved path was bound, and for the authentication request of its peer and
user with a credential that was offered. -/
theorem agent_signs_only_the_approved_login {crate : Crate κ γ σ} {policy : BrokerPolicy κ}
    {backend : Backend κ γ} {frames : List Bytes} {before after : List (Event κ γ σ)}
    {request : SignRequest κ γ} {frame : Bytes}
    (trace : serveClient crate policy .start backend frames =
      before ++ .signed request frame :: after) :
    (∃ peer algorithm embedded hostKey, Approved crate policy backend.ambient
      (seenIn before).bindings (seenIn before).advertised request peer algorithm embedded
        hostKey) ∧
    ∃ encoded flags, frame = 13 :: (writeString encoded ++ (writeString request.data ++ flags)) ∧
      crate.decodeCredential encoded = some (request.credential, []) ∧ flags.length = 4 ∧
      request.flags = fromBigEndian flags := by
  have sound := @serveClient_sound _ _ _ _ crate policy .start backend .nothing (by
    intro identities none_eq
    cases none_eq) frames
  rw [trace, sound_append] at sound
  rcases sound with ⟨-, ⟨parsed, approved⟩, -⟩
  exact ⟨approved, parseSignRequest_eq_ok parsed⟩

end Login

/-! ## A direct login -/

namespace Sample

/-- A host key and a user's key, of 32 bytes each. -/
def encodeKey (user : Bool) : Bytes :=
  writeString (ascii "ssh-ed25519") ++ writeString (List.replicate 32 (if user then 1 else 0))

/-- A stand-in for a signature: 64 bytes that depend on the key and the data. -/
def signature (user : Bool) (data : Bytes) : Bytes :=
  ((if user then 1 else 0) :: data ++ List.replicate 64 0).take 64

def encodeSignature (signature : Bytes) : Bytes :=
  writeString (ascii "ssh-ed25519") ++ writeString signature

def decodeSignature (bytes : Bytes) : Option (Bytes × Bytes) := do
  let (name, rest) ← (string bytes).toOption
  if name = ascii "ssh-ed25519" then (string rest).toOption else none

/-- A certificate of the user's key, signed by the host's. -/
def certificate : Bytes :=
  let content := writeString (ascii "ssh-ed25519-cert-v01@openssh.com") ++
    List.flatten [writeString (List.replicate 32 5), writeString (List.replicate 32 1),
      List.replicate 8 0, [0, 0, 0, 1], writeString (ascii "alice"),
      writeString (writeString (ascii "alice")), List.replicate 16 0, writeString [],
      writeString [], writeString [], writeString (encodeKey false)]
  content ++ writeString (encodeSignature (signature false content))

def encodeCredential : PublicCredential Bool Unit → Bytes
  | .key user => encodeKey user
  | .certificate () => certificate

def encodeIdentities (identities : List (PublicCredential Bool Unit)) : Bytes :=
  12 :: (toBigEndian 4 identities.length ++
    identities.flatMap fun identity => writeString (encodeCredential identity) ++ writeString [])

def decodeResponse : Bytes → Option (Response Bytes × Bytes)
  | 5 :: left => some (.failure, left)
  | 6 :: left => some (.success, left)
  | 28 :: left => some (.extensionFailure, left)
  | 14 :: input => do
      let (encoded, left) ← (string input).toOption
      let (signature, trailing) ← decodeSignature encoded
      if trailing = [] then some (.signResponse signature, left) else none
  | _ => none

def crate : Crate Bool Unit Bytes where
  kind _ := .ed25519
  rsaModulus _ := none
  encodeKey user := some (encodeKey user)
  decodeKey bytes := if bytes = encodeKey false then some (false, []) else none
  certificateKey _ := true
  isUserCertificate _ := true
  certificateVerifies _ := true
  encodeCertificate _ := some certificate
  decodeCredential bytes :=
    if bytes = encodeKey true then some (.key true, [])
    else if bytes = certificate then some (.certificate (), [])
    else none
  algorithm _ := .ed25519
  decodeSignature := decodeSignature
  verify user data given := given = signature user data
  encodeIdentities identities := some (encodeIdentities identities)
  decodeResponse := decodeResponse
  encodeKey_name := by
    intro key bytes encoded
    cases encoded
    exact ⟨_, string_eq_ok_iff.mpr ⟨by decide, rfl⟩⟩
  encodeCertificate_name := by
    intro _ bytes name encoded named
    cases encoded
    cases named
    exact ⟨_, string_eq_ok_iff.mpr ⟨by decide, rfl⟩⟩
  decodeCredential_name := by
    intro bytes _ left name decoded named
    cases named
    split_ifs at decoded with isKey isCertificate
    · cases decoded
    · subst isCertificate
      exact ⟨_, string_eq_ok_iff.mpr ⟨by decide, rfl⟩⟩

def policy : BrokerPolicy Bool where
  coordinator := none
  peer := ⟨ascii "alice", "host", [false], ["ssh-ed25519"], 1024⟩

def backend : Backend Bool Unit :=
  ⟨true, [.ok [.key true]], [], []⟩

/-- The hash of a key exchange. -/
def sessionId : Bytes :=
  List.replicate 32 7

def bind : Bytes :=
  27 :: (writeString (ascii "session-bind@openssh.com") ++ writeString (encodeKey false) ++
    writeString sessionId ++ writeString (encodeSignature (signature false sessionId)) ++ [0])

/-- A request to sign some bytes with the user's key. -/
def sign (data : Bytes) : Bytes :=
  13 :: (writeString (encodeKey true) ++ writeString data ++ [0, 0, 0, 0])

/-- What happens before the request. -/
def before : List (Event Bool Unit Bytes) :=
  [.bound ⟨false, sessionId, signature false sessionId, false⟩, .replied sshAgentSuccess,
    .advertised [.key true], .replied (encodeIdentities [.key true])]

def plain : Bytes :=
  userauth sessionId (ascii "alice") (ascii "ssh-ed25519") (encodeKey true) (encodeKey false)

def certified : Bytes :=
  userauth sessionId (ascii "alice") (ascii "ssh-ed25519-cert-v01@openssh.com") certificate
    (encodeKey false)

end Sample

theorem agent_signs_only_the_approved_login_direct :
    (∃ peer algorithm embedded hostKey, Approved Sample.crate Sample.policy true
      (seenIn Sample.before).bindings (seenIn Sample.before).advertised
      ⟨.key true, Sample.plain, 0⟩ peer algorithm embedded hostKey) ∧
    ∃ encoded flags, Sample.sign Sample.plain =
        13 :: (writeString encoded ++ (writeString Sample.plain ++ flags)) ∧
      Sample.crate.decodeCredential encoded = some (.key true, []) ∧ flags.length = 4 ∧
      0 = fromBigEndian flags := by
  have trace : serveClient Sample.crate Sample.policy .start Sample.backend
      [Sample.bind, [11], Sample.sign Sample.plain] =
        Sample.before ++ .signed ⟨.key true, Sample.plain, 0⟩ (Sample.sign Sample.plain) :: [] := by
    decide +kernel
  exact agent_signs_only_the_approved_login trace

/-- Only the user's key is advertised, and the bytes that reach the agent name its certificate. -/
theorem unadvertised_certificate_is_signed :
    serveClient Sample.crate Sample.policy .start Sample.backend
        [Sample.bind, [11], Sample.sign Sample.certified] =
      Sample.before ++ [.signed ⟨.key true, Sample.certified, 0⟩ (Sample.sign Sample.certified)] ∧
    (seenIn Sample.before).advertised = some [.key true] ∧
    (HostboundUserauth.parse Sample.certified).map HostboundUserauth.credential =
      .ok Sample.certificate ∧
    Sample.crate.encode (.key true) ≠ some Sample.certificate := by
  refine ⟨?_, rfl, ?_, ?_⟩ <;> decide +kernel

/-! ## Answers -/

section Answers

variable {κ γ σ : Type} [DecidableEq κ]

/-- The agent's own answer to a request: its refusal, or a signature that verifies over the
requested data under the requested key. -/
def FromAgent (crate : Crate κ γ σ) (request : SignRequest κ γ) (reply : Bytes) : Prop :=
  crate.decodeResponse reply = some (.failure, []) ∨
    ∃ signature, crate.decodeResponse reply = some (.signResponse signature, []) ∧
      crate.verify (crate.keyData request.credential) request.data signature = true

omit [DecidableEq κ] in
theorem fromAgent_of_verify {crate : Crate κ γ σ} {request : SignRequest κ γ} {reply : Bytes}
    (verified : verifyAgentSignResponse crate reply (crate.keyData request.credential)
      request.data = .ok ()) : FromAgent crate request reply := by
  rcases bind_eq_ok_iff.mp verified with ⟨response, decoded, verified⟩
  have whole := decodeWhole_eq_ok decoded
  cases response with
  | failure => exact .inl whole
  | signResponse signature =>
    rw [guard_eq_ok_iff, Bool.not_eq_false] at verified
    exact .inr ⟨signature, whole, verified.1⟩
  | success | extensionFailure | other => cases verified

/-- The events of a connection as its client may see them: what is done is answered at once or the
connection ends, a refusal by the broker is the last answer, the keys listed can be verified, and
a sign request that was passed on is answered with the agent's refusal or a signature that
verifies. -/
def Answered (crate : Crate κ γ σ) : List (Event κ γ σ) → Prop
  | [] | [.bound _] | [.signed _ _] => True
  | .replied reply :: rest =>
    (reply = sshAgentFailure ∨ reply = sshAgentExtensionFailure) ∧ rest = []
  | .bound _ :: .replied reply :: rest =>
    reply = sshAgentSuccess ∧ Answered crate rest ∨ reply = sshAgentExtensionFailure ∧ rest = []
  | .advertised identities :: .replied reply :: rest =>
    identities.all crate.credentialIsCryptographicallyVerifiable = true ∧
      crate.encodeIdentities identities = some reply ∧ Answered crate rest
  | .signed request _ :: .replied reply :: rest =>
    FromAgent crate request reply ∧ Answered crate rest ∨ reply = sshAgentFailure ∧ rest = []
  | _ => False

/-- One frame is answered, whatever follows where the connection goes on. -/
def Answers (crate : Crate κ γ σ) (served : Served κ γ σ) : Prop :=
  match served.2 with
  | none => Answered crate served.1
  | some _ => ∀ rest, Answered crate rest → Answered crate (served.1 ++ rest)

theorem serveFrame_answers (crate : Crate κ γ σ) (policy : BrokerPolicy κ) (state : State κ γ σ)
    (backend : Backend κ γ) (frame : Bytes) :
    Answers crate (serveFrame crate policy state backend frame) := by
  unfold serveFrame
  split
  · trivial
  split_ifs
  · unfold serveIdentities
    split
    · trivial
    · trivial
    · dsimp only
      split
      · trivial
      · rename_i encoded
        exact fun rest answered => ⟨by simp, encoded, answered⟩
  · unfold serveSign
    repeat' split
    all_goals simp_all [Answers, Answered, fromAgent_of_verify]
  · unfold serveBind
    repeat' split
    all_goals simp_all [Answers, Answered]
  · simp [Answers, Answered]

/-- Whatever frames a client sends, it is answered in this way. -/
theorem client_is_answered_with_what_was_checked (crate : Crate κ γ σ) (policy : BrokerPolicy κ)
    (state : State κ γ σ) (backend : Backend κ γ) (frames : List Bytes) :
    Answered crate (serveClient crate policy state backend frames) := by
  induction frames generalizing state backend with
  | nil => trivial
  | cons frame rest ih =>
    have answers := serveFrame_answers crate policy state backend frame
    unfold serveClient
    rcases served : serveFrame crate policy state backend frame with ⟨events, next⟩
    rw [served] at answers
    rcases next with _ | ⟨next, after⟩
    · exact answers
    · exact answers _ (ih next after)

end Answers

namespace Sample

/-- The agent's answer with a signature of the user. -/
def signed : Bytes :=
  14 :: writeString (encodeSignature (signature true plain))

/-- An agent that refuses once and then signs. -/
def agent : Backend Bool Unit :=
  { backend with signatures := [.ok sshAgentFailure, .ok signed] }

end Sample

/-- The client's last frame is of no known kind. -/
theorem client_is_answered_twice :
    Answered Sample.crate (Sample.before ++
      [.signed ⟨.key true, Sample.plain, 0⟩ (Sample.sign Sample.plain), .replied sshAgentFailure,
        .signed ⟨.key true, Sample.plain, 0⟩ (Sample.sign Sample.plain), .replied Sample.signed,
        .replied sshAgentFailure]) := by
  have trace : serveClient Sample.crate Sample.policy .start Sample.agent
      [Sample.bind, [11], Sample.sign Sample.plain, Sample.sign Sample.plain, [1]] =
        Sample.before ++
          [.signed ⟨.key true, Sample.plain, 0⟩ (Sample.sign Sample.plain),
            .replied sshAgentFailure,
            .signed ⟨.key true, Sample.plain, 0⟩ (Sample.sign Sample.plain),
            .replied Sample.signed, .replied sshAgentFailure] := by
    decide +kernel
  rw [← trace]
  exact client_is_answered_with_what_was_checked _ _ _ _ _

end Syq.Broker
