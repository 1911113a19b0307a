import Syq.Delegation.Sshsig
import Syq.Lib.Codec
import Syq.Mapping.Manifest

/-!
# Directives

A directive is the command one copy was approved for, bound to one enrollment and signed by
the user's login key.  Its encoding is a fixed header, a canonical body and the signature.
-/

namespace Syq.Delegation

open Syq.Lib

/-- A fixed number of bytes. -/
abbrev Block (size : Nat) := { bytes : Bytes // bytes.length = size }

def maxUnixTimestamp : Int := 253402300799

def maxLoginBytes : Nat := 256

/-! ## Parts -/

/-- The nonce of one signed request. -/
structure RequestId where
  bytes : Block 32
  deriving DecidableEq

def RequestId.validate (id : RequestId) : Except String Unit :=
  if id.bytes.1.all (· = 0) then .error "request ID must be random and nonzero" else .ok ()

structure EnrollmentId where
  bytes : Block 16
  deriving DecidableEq

def EnrollmentId.validate (id : EnrollmentId) : Except String Unit :=
  let version := id.bytes.1.getD 6 0 >>> 4
  if id.bytes.1.getD 8 0 &&& 0xc0 ≠ 0x80 ∨ ¬ (1 ≤ version ∧ version ≤ 8) then
    .error "enrollment ID must be an RFC 4122 UUID"
  else .ok ()

/-- A control character. -/
def isControl (character : Char) : Bool :=
  character.toNat < 32 || (127 ≤ character.toNat && character.toNat < 160)

def validateIdentity (name value : String) : Except String Unit :=
  if value.isEmpty ∨ maxLoginBytes < value.utf8ByteSize then
    .error s!"the {name} name's length is outside the supported range"
  else if value.toList.any fun character => isControl character || character == '/' then
    .error s!"the {name} name contains a forbidden character"
  else .ok ()

/-- Which end of the copy the receiver is. -/
inductive Role where
  | destination
  deriving DecidableEq

/-- What ties a directive to one receiver. -/
structure Binding where
  enrollment : EnrollmentId
  generation : Nat
  account : String
  role : Role

/-- What the command read from files. -/
structure Inputs where
  ignore : List String
  mapping : Option (Mapping.Authorization (Block 32))

/-- An approving machine's limits on a copy. -/
structure Caps where
  maxBytes : Nat
  maxEntries : Nat
  maxDelete : Nat

/-- One approved copy, as its initiator ran it. -/
structure Directive where
  build : String
  requestId : RequestId
  issuedAt : Int
  notBefore : Int
  startBy : Int
  finishBy : Int
  binding : Binding
  command : List Bytes
  cwd : String
  inputs : Inputs
  caps : Option Caps
  resultsKey : Block 32

/-! ## Bounds -/

def maxBodyBytes : Nat := 512 * 1024

def maxBuildBytes : Nat := 256

def maxCwdBytes : Nat := 4096

def maxIgnoreRules : Nat := 4096

def maxIgnoreRuleBytes : Nat := 4096

def maxCommandBytes : Nat := 256 * 1024

def validitySeconds : Int := 24 * 60 * 60

def finishWindowSeconds : Int := 7 * 24 * 60 * 60

namespace Directive

def validateTime (time : String × Int) : Except String PUnit :=
  if ¬ (0 ≤ time.2 ∧ time.2 ≤ maxUnixTimestamp) then
    .error s!"directive {time.1} time is out of range"
  else .ok ⟨⟩

/-- The order and lengths of a directive's times. -/
def validateWindow (directive : Directive) : Except String Unit :=
  if directive.issuedAt < directive.notBefore ∨ directive.startBy < directive.issuedAt ∨
      directive.finishBy < directive.startBy then
    .error "directive times must satisfy not-before <= issued <= start-by <= finish-by"
  else
    let validity := directive.startBy - directive.notBefore
    if validity = 0 ∨ validitySeconds < validity then
      .error "a directive must be usable for between 1 second and 24 hours"
    else if finishWindowSeconds < directive.finishBy - directive.issuedAt then
      .error "a directive's copy must finish within 7 days of its issue"
    else .ok ()

/-- Bounds on what the command and its files hold. -/
def validateContents (directive : Directive) : Except String Unit :=
  if directive.command = [] ∨
      maxCommandBytes < (directive.command.map fun argument => argument.length + 1).sum then
    .error "directive command is outside the supported range"
  else if maxCwdBytes < directive.cwd.utf8ByteSize then
    .error "directive working directory is too long"
  else if maxIgnoreRules < directive.inputs.ignore.length ∨
      directive.inputs.ignore.any (fun rule =>
        maxIgnoreRuleBytes < rule.utf8ByteSize || rule.toList.any (· = Char.ofNat 0)) then
    .error "directive ignore rules are outside the supported range"
  else .ok ()

/-- Bounds a receiver checks before anything else. -/
def validate (directive : Directive) : Except String Unit :=
  if directive.build.isEmpty ∨ maxBuildBytes < directive.build.utf8ByteSize then
    .error "directive build is outside the supported range"
  else do
    directive.requestId.validate
    directive.binding.enrollment.validate
    validateIdentity "account" directive.binding.account
    [("issued-at", directive.issuedAt), ("not-before", directive.notBefore),
      ("start-by", directive.startBy), ("finish-by", directive.finishBy)].forM validateTime
    directive.validateWindow
    directive.validateContents

end Directive

/-! ## Encoding -/

/-- The serializer: it reads back what it wrote, and a directive is never empty. -/
structure Postcard where
  toStdvec : Directive → Except String Bytes
  takeFromBytes : Bytes → Except String (Directive × Bytes)
  takes : ∀ {directive body}, toStdvec directive = .ok body →
    ∀ rest, takeFromBytes (body ++ rest) = .ok (directive, rest)
  nonempty : ∀ {directive}, toStdvec directive ≠ .ok []

def magic : Bytes :=
  ascii "SYQDIR1" ++ [0]

def headerLen : Nat := 8 + 4 + 4

def maxSignedBytes : Nat :=
  headerLen + maxBodyBytes + maxSignatureBytes

/-- The bytes the login key signs. -/
def payload (body : Bytes) : Bytes :=
  magic ++ body

section Encoding

variable (postcard : Postcard)

/-- Sign a directive and encode it for a receiver. -/
def sign (directive : Directive) (signer : Bytes → Except String Bytes) :
    Except String Bytes := do
  directive.validate
  let body ← (postcard.toStdvec directive).mapError fun _ => "encode the directive"
  if maxBodyBytes < body.length then
    .error s!"the directive exceeds {maxBodyBytes} bytes"
  else do
    let signature ← signer (payload body)
    validateCanonicalSshsig signature
    pure (magic ++ toBigEndian 4 body.length ++ toBigEndian 4 signature.length ++ body ++ signature)

/-- A decoded directive with the bytes its signature covers. -/
structure Signed where
  directive : Directive
  payload : Bytes
  signature : Bytes

/-- The directive of a body in the one encoding that is accepted. -/
def decodeBody (body : Bytes) : Except String Directive := do
  let (directive, rest) ← (postcard.takeFromBytes body).mapError fun _ => "decode the directive"
  if rest ≠ [] then .error "the directive uses a noncanonical encoding"
  else do
    let again ← postcard.toStdvec directive
    if again ≠ body then .error "the directive uses a noncanonical encoding"
    else pure directive

def Signed.decode (bytes : Bytes) : Except String Signed :=
  if maxSignedBytes < bytes.length then .error "the directive exceeds its size limit"
  else if bytes.length < headerLen ∨ bytes.take 8 ≠ magic then .error "not a syq directive"
  else
    let bodyLen := fromBigEndian ((bytes.drop 8).take 4)
    let signatureLen := fromBigEndian ((bytes.drop 12).take 4)
    if bodyLen = 0 ∨ maxBodyBytes < bodyLen ∨ signatureLen = 0 ∨
        maxSignatureBytes < signatureLen ∨
        bytes.length ≠ headerLen + bodyLen + signatureLen then
      .error "the directive's lengths are noncanonical"
    else do
      let body := (bytes.drop headerLen).take bodyLen
      let directive ← decodeBody postcard body
      directive.validate
      let signature := bytes.drop (headerLen + bodyLen)
      validateCanonicalSshsig signature
      pure ⟨directive, Delegation.payload body, signature⟩

end Encoding

/-! ## The serializer of directives -/

namespace Directive

/-- Parts of a directive as nested pairs, in the order of the fields. -/
abbrev Fields :=
  String × Block 32 × Int × Int × Int × Int × (Block 16 × Nat × String × Unit) × List Bytes ×
    String × (List String × Option { pair : Nat × Block 32 // pair.1 ≤ u64Max }) ×
      Option (Nat × Nat × Nat) × Block 32

def fields : Fields ≃ Directive where
  toFun
    | (build, requestId, issuedAt, notBefore, startBy, finishBy,
        (enrollment, generation, account, ()), command, cwd, (ignore, mapping), caps,
        resultsKey) =>
      ⟨build, ⟨requestId⟩, issuedAt, notBefore, startBy, finishBy,
        ⟨⟨enrollment⟩, generation, account, .destination⟩, command, cwd,
        ⟨ignore, mapping.map fun pair => ⟨pair.1.1, pair.1.2, pair.2⟩⟩,
        caps.map fun caps => ⟨caps.1, caps.2.1, caps.2.2⟩, resultsKey⟩
  invFun directive :=
    (directive.build, directive.requestId.bytes, directive.issuedAt, directive.notBefore,
      directive.startBy, directive.finishBy,
      (directive.binding.enrollment.bytes, directive.binding.generation,
        directive.binding.account, ()),
      directive.command, directive.cwd,
      (directive.inputs.ignore, directive.inputs.mapping.map fun mapping =>
          ⟨(mapping.bytes, mapping.digest), mapping.bounded⟩),
      directive.caps.map fun caps => (caps.maxBytes, caps.maxEntries, caps.maxDelete),
      directive.resultsKey)
  left_inv := by
    rintro ⟨build, requestId, issuedAt, notBefore, startBy, finishBy,
      ⟨enrollment, generation, account, ⟨⟩⟩, command, cwd, ⟨ignore, mapping⟩, caps, resultsKey⟩
    cases mapping <;> cases caps <;> rfl
  right_inv := by
    rintro ⟨build, ⟨requestId⟩, issuedAt, notBefore, startBy, finishBy,
      ⟨⟨enrollment⟩, generation, account, ⟨⟩⟩, command, cwd, ⟨ignore, mapping⟩, caps, resultsKey⟩
    cases mapping <;> cases caps <;> rfl

/-- The role is the number of its variant. -/
def roleCode : Codec Unit where
  encode _ := [0]
  decode
    | 0 :: text => some ((), text)
    | _ => none
  decode_encode _ _ := rfl

open Codec in
def code : Codec Directive :=
  (pair string <| pair (block 32) <| pair zigzag <| pair zigzag <| pair zigzag <| pair zigzag <|
    pair (pair (block 16) <| pair varint <| pair string roleCode) <| pair (list bytes) <|
    pair string <|
    pair (pair (list string)
      (option (subtype (pair varint (block 32)) fun pair => pair.1 ≤ u64Max))) <|
    pair (option (pair varint (pair varint varint))) (block 32)).ofEquiv fields

theorem code_encode_ne_nil (directive : Directive) : code.encode directive ≠ [] := by
  intro nothing
  have ends : directive.resultsKey.1 = [] := by
    simp only [code, Codec.ofEquiv, Codec.pair, List.append_eq_nil_iff] at nothing
    exact nothing.2.2.2.2.2.2.2.2.2.2.2
  have short := directive.resultsKey.2
  rw [ends] at short
  cases short

/-- The serializer that this code makes. -/
def postcard : Postcard where
  toStdvec directive := .ok (code.encode directive)
  takeFromBytes text :=
    match code.decode text with
    | none => .error "Hit the end of buffer, expected more data"
    | some read => .ok read
  takes := by
    rintro directive body ⟨⟩ rest
    rw [code.decode_encode]
  nonempty := by
    intro directive nothing
    exact code_encode_ne_nil directive (Except.ok.inj nothing)

end Directive

end Syq.Delegation
