import Syq.Delegation.Directive

/-!
# Signed directives have one spelling

What is signed is decoded, and what is decoded is what signing again would write.  So a
directive and its signature are carried by one text only.
-/

namespace Syq.Delegation

open Syq.Lib Directive List

variable {postcard : Postcard} {bytes : Bytes}

/-- The text of a body and its signature behind their lengths. -/
def frame (body signature : Bytes) : Bytes :=
  magic ++ toBigEndian 4 body.length ++ toBigEndian 4 signature.length ++ body ++ signature

theorem length_magic : magic.length = 8 := by
  decide +kernel

theorem length_frame (body sig : Bytes) :
    (frame body sig).length = headerLen + body.length + sig.length := by
  simp only [frame, length_append, length_magic, length_toBigEndian, headerLen]

/-! ## Slices of a frame -/

section Slices

variable (body signature : Bytes)

theorem take_magic_frame : (frame body signature).take 8 = magic := by
  unfold frame
  rw [append_assoc, append_assoc, append_assoc, take_left' length_magic]

theorem bodyLen_frame :
    ((frame body signature).drop 8).take 4 = toBigEndian 4 body.length := by
  unfold frame
  rw [append_assoc, append_assoc, append_assoc, drop_left' length_magic,
    take_left' (length_toBigEndian 4 _)]

theorem signatureLen_frame :
    ((frame body signature).drop 12).take 4 = toBigEndian 4 signature.length := by
  have front : (magic ++ toBigEndian 4 body.length).length = 12 := by simp [length_magic]
  unfold frame
  rw [append_assoc (magic ++ _), append_assoc (magic ++ _), drop_left' front,
    append_assoc, take_left' (length_toBigEndian 4 _)]

theorem drop_header_frame : (frame body signature).drop headerLen = body ++ signature := by
  have front : (magic ++ toBigEndian 4 body.length ++
      toBigEndian 4 signature.length).length = headerLen := by simp [length_magic, headerLen]
  unfold frame
  rw [append_assoc (magic ++ _ ++ _), drop_left' front]

end Slices

/-- A text with the header of its body and signature is their frame. -/
theorem eq_frame {bodyLen signatureLen : Nat} (isMagic : bytes.take 8 = magic)
    (isBody : fromBigEndian ((bytes.drop 8).take 4) = bodyLen)
    (isSignature : fromBigEndian ((bytes.drop 12).take 4) = signatureLen)
    (whole : bytes.length = headerLen + bodyLen + signatureLen) :
    bytes = frame ((bytes.drop headerLen).take bodyLen) (bytes.drop (headerLen + bodyLen)) := by
  have lengthBody : ((bytes.drop headerLen).take bodyLen).length = bodyLen := by
    rw [length_take, length_drop]
    omega
  have lengthSignature : (bytes.drop (headerLen + bodyLen)).length = signatureLen := by
    rw [length_drop]
    omega
  have four (start : Nat) (fits : start + 4 ≤ headerLen) :
      ((bytes.drop start).take 4).length = 4 := by
    rw [length_take, length_drop]
    omega
  have spellBody : toBigEndian 4 bodyLen = (bytes.drop 8).take 4 := by
    have spelled := toBigEndian_fromBigEndian ((bytes.drop 8).take 4)
    rwa [four 8 (by decide), isBody] at spelled
  have spellSignature : toBigEndian 4 signatureLen = (bytes.drop 12).take 4 := by
    have spelled := toBigEndian_fromBigEndian ((bytes.drop 12).take 4)
    rwa [four 12 (by decide), isSignature] at spelled
  unfold frame
  rw [lengthBody, lengthSignature, spellBody, spellSignature, ← isMagic]
  have atHeader : (bytes.drop headerLen).take bodyLen ++ bytes.drop (headerLen + bodyLen) =
      bytes.drop headerLen := by
    rw [← drop_drop, take_append_drop]
  have atSignature : (bytes.drop 12).take 4 ++ bytes.drop headerLen = bytes.drop 12 := by
    have drops : bytes.drop headerLen = (bytes.drop 12).drop 4 := by rw [drop_drop]; rfl
    rw [drops, take_append_drop]
  have atBody : (bytes.drop 8).take 4 ++ bytes.drop 12 = bytes.drop 8 := by
    have drops : bytes.drop 12 = (bytes.drop 8).drop 4 := by rw [drop_drop]
    rw [drops, take_append_drop]
  rw [append_assoc _ _ (bytes.drop (headerLen + bodyLen)), atHeader, append_assoc,
    atSignature, append_assoc, atBody, take_append_drop]

/-! ## Signing and decoding -/

theorem decodeBody_eq_ok_iff {body : Bytes} {directive : Directive} :
    decodeBody postcard body = .ok directive ↔ postcard.toStdvec directive = .ok body := by
  unfold decodeBody
  simp only [bind_eq_ok_iff, mapError_eq_ok_iff, guard_eq_ok_iff, pure_eq_ok_iff, not_not]
  constructor
  · rintro ⟨⟨read, rest⟩, -, -, again, encodes, rfl, rfl⟩
    exact encodes
  · intro encodes
    have taken := postcard.takes encodes []
    rw [append_nil] at taken
    exact ⟨(directive, []), taken, rfl, body, encodes, rfl, rfl⟩

/-- What signing establishes. -/
theorem sign_eq_ok_iff {directive : Directive} {signer : Bytes → Except String Bytes} :
    sign postcard directive signer = .ok bytes ↔
      directive.validate = .ok () ∧ ∃ body, postcard.toStdvec directive = .ok body ∧
        body.length ≤ maxBodyBytes ∧ ∃ sig, signer (payload body) = .ok sig ∧
          validateCanonicalSshsig sig = .ok () ∧ frame body sig = bytes := by
  unfold sign
  simp only [bind_eq_ok_iff, mapError_eq_ok_iff, guard_eq_ok_iff, pure_eq_ok_iff, Nat.not_lt]
  constructor
  · rintro ⟨⟨⟩, valid, body, encodes, small, sig, signs, ⟨⟩, canonical, rfl⟩
    exact ⟨valid, body, encodes, small, sig, signs, canonical, rfl⟩
  · rintro ⟨valid, body, encodes, small, sig, signs, canonical, rfl⟩
    exact ⟨(), valid, body, encodes, small, sig, signs, (), canonical, rfl⟩

/-- Decoding succeeds exactly on frames of valid directives with canonical signatures. -/
theorem decode_eq_ok_iff {signed : Signed} :
    Signed.decode postcard bytes = .ok signed ↔
      signed.directive.validate = .ok () ∧ ∃ body,
        postcard.toStdvec signed.directive = .ok body ∧ body.length ≤ maxBodyBytes ∧
        signed.payload = payload body ∧ validateCanonicalSshsig signed.signature = .ok () ∧
        frame body signed.signature = bytes := by
  unfold Signed.decode
  simp only [bind_eq_ok_iff, guard_eq_ok_iff, pure_eq_ok_iff, decodeBody_eq_ok_iff]
  constructor
  · rintro ⟨-, isDirective, lengths, directive, encodes, ⟨⟩, valid, ⟨⟩, canonical, rfl⟩
    push Not at isDirective lengths
    refine ⟨valid, _, encodes, ?_, rfl, canonical, ?_⟩
    · exact Nat.le_trans (length_take_le _ _) lengths.2.1
    · exact (eq_frame isDirective.2 rfl rfl lengths.2.2.2.2).symm
  · rintro ⟨valid, body, encodes, small, isPayload, canonical, rfl⟩
    rcases signed with ⟨directive, covered, signature⟩
    dsimp only at isPayload encodes valid canonical ⊢
    subst isPayload
    rcases (validateCanonicalSshsig_iff signature).mp canonical with ⟨raw, -, armor, bounded⟩
    have bodyPos : body.length ≠ 0 := by
      intro nothing
      rw [length_eq_zero_iff.mp nothing] at encodes
      exact postcard.nonempty encodes
    have signaturePos : signature.length ≠ 0 := by
      rw [← armor]
      simp [canonicalSshsigArmor]
    have readBody : fromBigEndian (((frame body signature).drop 8).take 4) = body.length := by
      rw [bodyLen_frame, fromBigEndian_toBigEndian]
      exact Nat.lt_of_le_of_lt small (by decide)
    have readSignature :
        fromBigEndian (((frame body signature).drop 12).take 4) = signature.length := by
      rw [signatureLen_frame, fromBigEndian_toBigEndian]
      exact Nat.lt_of_le_of_lt bounded (by decide)
    have sliceBody : ((frame body signature).drop headerLen).take body.length = body := by
      rw [drop_header_frame, take_left' rfl]
    have sliceSignature : (frame body signature).drop (headerLen + body.length) = signature := by
      rw [← drop_drop, drop_header_frame, drop_left' rfl]
    rw [readBody, sliceBody, sliceSignature, take_magic_frame, length_frame]
    refine ⟨?_, ?_, ?_, directive, encodes, (), valid, (), canonical, rfl⟩
    · unfold maxSignedBytes
      omega
    · rw [not_or, not_not]
      exact ⟨by omega, rfl⟩
    · omega

/-- Decoding finds what was signed, and every text that is decoded is the one that signing its
directive with its signature writes, so it is the only one.  The signatures in them are exactly
the armor of payloads with the header, within the bound. -/
theorem directives_have_one_spelling (postcard : Postcard) :
    (∀ directive signer bytes, sign postcard directive signer = .ok bytes →
      ∃ body signature, postcard.toStdvec directive = .ok body ∧
        signer (payload body) = .ok signature ∧
        Signed.decode postcard bytes = .ok ⟨directive, payload body, signature⟩) ∧
    (∀ bytes signed, Signed.decode postcard bytes = .ok signed →
      sign postcard signed.directive (fun _ => .ok signed.signature) = .ok bytes) ∧
    (∀ bytes other signed otherSigned, Signed.decode postcard bytes = .ok signed →
      Signed.decode postcard other = .ok otherSigned →
      signed.directive = otherSigned.directive → signed.signature = otherSigned.signature →
      bytes = other) ∧
    ∀ signature, validateCanonicalSshsig signature = .ok () ↔
      ∃ raw, HasHeader raw ∧ canonicalSshsigArmor raw = signature ∧
        signature.length ≤ maxSignatureBytes := by
  have again (bytes : Bytes) (signed : Signed)
      (decodes : Signed.decode postcard bytes = .ok signed) :
      sign postcard signed.directive (fun _ => .ok signed.signature) = .ok bytes := by
    rcases decode_eq_ok_iff.mp decodes with ⟨valid, body, encodes, small, -, canonical, rfl⟩
    exact sign_eq_ok_iff.mpr
      ⟨valid, body, encodes, small, signed.signature, rfl, canonical, rfl⟩
  refine ⟨?_, again, ?_, validateCanonicalSshsig_iff⟩
  · intro directive signer bytes signs
    rcases sign_eq_ok_iff.mp signs with
      ⟨valid, body, encodes, small, signature, signed, canonical, rfl⟩
    exact ⟨body, signature, encodes, signed,
      decode_eq_ok_iff.mpr ⟨valid, body, encodes, small, rfl, canonical, rfl⟩⟩
  · intro bytes other signed otherSigned decodes otherDecodes sameDirective sameSignature
    have first := again bytes signed decodes
    have second := again other otherSigned otherDecodes
    rw [sameDirective, sameSignature, second] at first
    exact (Except.ok.inj first).symm

/-- A directive with as little as it may hold. -/
def Directive.least : Directive where
  build := "1"
  requestId := ⟨⟨List.replicate 32 1, rfl⟩⟩
  issuedAt := 1
  notBefore := 0
  startBy := 1
  finishBy := 2
  binding := ⟨⟨⟨[0, 0, 0, 0, 0, 0, 64, 0, 128, 0, 0, 0, 0, 0, 0, 0], rfl⟩⟩, 0, "me", .destination⟩
  command := [[99]]
  cwd := ""
  inputs := ⟨[], none⟩
  caps := none
  resultsKey := ⟨List.replicate 32 0, rfl⟩

/-- That directive is signed and decoded. -/
theorem directives_have_one_spelling_at_least :
    ∃ bytes signature, sign Directive.postcard Directive.least (fun _ => .ok signature) =
        .ok bytes ∧
      ∃ body, Signed.decode Directive.postcard bytes =
        .ok ⟨Directive.least, payload body, signature⟩ := by
  have header : HasHeader (ascii "SSHSIG" ++ [0, 0, 0, 1]) := by decide +kernel
  have canonical := validate_armor header (by decide +kernel)
  have valid : least.validate = .ok () := by decide +kernel
  have small : (code.encode least).length ≤ maxBodyBytes := by decide +kernel
  generalize canonicalSshsigArmor (ascii "SSHSIG" ++ [0, 0, 0, 1]) = signature at canonical
  have encodes : postcard.toStdvec least =
      .ok (code.encode least) := rfl
  generalize code.encode least = body at small encodes
  have signs : sign postcard least (fun _ => .ok signature) =
      .ok (frame body signature) :=
    sign_eq_ok_iff.mpr ⟨valid, body, encodes, small, signature, rfl, canonical, rfl⟩
  rcases (directives_have_one_spelling postcard).1 _ _ _ signs with
    ⟨other, found, -, isFound, decodes⟩
  cases isFound
  exact ⟨_, signature, signs, other, decodes⟩

end Syq.Delegation
