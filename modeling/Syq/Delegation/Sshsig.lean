import Syq.Lib.Encodings
import Syq.Lib.Guards
import Syq.Lib.LineReader
import Syq.Lib.Lines

/-!
# Armored signatures

An SSH signature travels as armored text.  The receiver takes one spelling of each: the
check accepts exactly what the armoring produces.
-/

namespace Syq.Delegation

open Syq.Lib

abbrev Bytes := List UInt8

def newline : UInt8 := 10

def carriageReturn : UInt8 := 13

/-- The bytes of a text of ASCII characters. -/
def ascii (text : String) : Bytes :=
  text.toList.map fun character => UInt8.ofNat character.toNat

def maxSignatureBytes : Nat := 16 * 1024

def armorWidth : Nat := 70

def beginLine : Bytes :=
  ascii "-----BEGIN SSH SIGNATURE-----"

def endLine : Bytes :=
  ascii "-----END SSH SIGNATURE-----"

/-! ## The check -/

def canonicalSshsigArmor (raw : Bytes) : Bytes :=
  beginLine ++ [newline] ++
    (chunks armorWidth (Base64.encode raw)).flatMap (fun chunk => chunk ++ [newline]) ++
      (endLine ++ [newline])

def stripSuffix (byte : UInt8) (text : Bytes) : Option Bytes :=
  if text.getLast? = some byte then some text.dropLast else none

/-- The lines of a text, without their line ends. -/
def lines (text : Bytes) : List Bytes :=
  (splitInclusive newline text).map fun part =>
    match stripSuffix newline part with
    | none => part
    | some line =>
      match stripSuffix carriageReturn line with
      | none => line
      | some line => line

/-- All lines but the last have the armor's width, and the last has at most it. -/
def wrapped : List Bytes → Bool
  | [] => true
  | [last] => last.length ≤ armorWidth
  | line :: next :: rest => line.length = armorWidth && wrapped (next :: rest)

/-- The payload names itself and its version. -/
def HasHeader (raw : Bytes) : Prop :=
  10 ≤ raw.length ∧ raw.take 6 = ascii "SSHSIG" ∧ fromBigEndian ((raw.drop 6).take 4) = 1

instance (raw : Bytes) : Decidable (HasHeader raw) :=
  inferInstanceAs (Decidable (_ ∧ _ ∧ _))

def decodeBase64 (encoded : Bytes) : Except String Bytes :=
  match Base64.decode encoded with
  | none => .error "malformed SSHSIG base64"
  | some raw => .ok raw

scoped instance lawfulLines : LawfulBEq Bytes :=
  inferInstanceAs (LawfulBEq (List UInt8))

def validateCanonicalSshsig (signature : Bytes) : Except String Unit :=
  if signature = [] ∨ maxSignatureBytes < signature.length then
    .error "SSHSIG length is outside the supported range"
  else if isUtf8 signature = false then .error "SSHSIG armor is not UTF-8"
  else if carriageReturn ∈ signature ∨ signature.getLast? ≠ some newline then
    .error "SSHSIG armor is noncanonical"
  else
    let lines := lines signature
    if lines.length < 3 ∨ lines.head? ≠ some beginLine ∨ lines.getLast? ≠ some endLine then
      .error "malformed SSHSIG armor"
    else
      let encodedLines := lines.tail.dropLast
      if [] ∈ encodedLines then .error "SSHSIG armor contains an empty data line"
      else if wrapped encodedLines = false then
        .error "SSHSIG armor has noncanonical line wrapping"
      else do
        let raw ← decodeBase64 encodedLines.flatten
        if ¬ HasHeader raw then .error "malformed or unsupported SSHSIG payload"
        else if canonicalSshsigArmor raw ≠ signature then
          .error "SSHSIG armor is noncanonical"
        else .ok ()

/-! ## Lines of armored text -/

/-- A line without line ends. -/
def Clean (line : Bytes) : Prop :=
  newline ∉ line ∧ carriageReturn ∉ line

theorem stripSuffix_concat (byte : UInt8) (text : Bytes) :
    stripSuffix byte (text ++ [byte]) = some text := by
  simp [stripSuffix]

theorem stripSuffix_of_notMem {byte : UInt8} {text : Bytes} (absent : byte ∉ text) :
    stripSuffix byte text = none := by
  unfold stripSuffix
  rw [if_neg]
  intro last
  exact absent (List.mem_of_getLast? last)

/-- Clean lines are read back. -/
theorem lines_unlines {texts : List Bytes} (clean : ∀ line ∈ texts, Clean line) :
    lines (unlines newline texts) = texts := by
  induction texts with
  | nil => rfl
  | cons line rest ih =>
    rw [List.forall_mem_cons] at clean
    have later := ih clean.2
    unfold lines at later ⊢
    rw [unlines_cons, splitInclusive_closed clean.1.1, List.map_cons, later, stripSuffix_concat]
    simp only [stripSuffix_of_notMem clean.1.2]

theorem armor_eq_unlines (raw : Bytes) :
    canonicalSshsigArmor raw =
      unlines newline (beginLine :: (chunks armorWidth (Base64.encode raw) ++ [endLine])) := by
  simp [canonicalSshsigArmor, unlines, List.append_assoc]

theorem armorWidth_pos : 0 < armorWidth := by
  decide

/-- Every byte of a piece of encoded text is printable. -/
theorem printable_of_mem_chunks {raw chunk : Bytes}
    (mem : chunk ∈ chunks armorWidth (Base64.encode raw)) :
    ∀ byte ∈ chunk, 32 < byte ∧ byte < 128 := by
  intro byte byteMem
  apply Base64.encode_printable raw
  rw [← flatten_chunks armorWidth_pos (Base64.encode raw)]
  exact List.mem_flatten_of_mem mem byteMem

theorem clean_of_printable {line : Bytes} (printable : ∀ byte ∈ line, 32 < byte ∧ byte < 128) :
    Clean line := by
  constructor
  · intro mem
    exact absurd (printable _ mem).1 (by decide)
  · intro mem
    exact absurd (printable _ mem).1 (by decide)

/-- The lines of armored text are without line ends and ASCII. -/
theorem armor_lines (raw : Bytes) :
    ∀ line ∈ beginLine :: (chunks armorWidth (Base64.encode raw) ++ [endLine]),
      Clean line ∧ ∀ byte ∈ line, byte < 128 := by
  intro line mem
  rw [List.mem_cons, List.mem_append, List.mem_singleton] at mem
  rcases mem with rfl | mem | rfl
  · unfold Clean
    decide +kernel
  · have printable := printable_of_mem_chunks mem
    exact ⟨clean_of_printable printable, fun byte byteMem => (printable byte byteMem).2⟩
  · unfold Clean
    decide +kernel

theorem mem_unlines {texts : List Bytes} {byte : UInt8} :
    byte ∈ unlines newline texts → byte = newline ∨ ∃ line ∈ texts, byte ∈ line := by
  intro mem
  rcases List.mem_flatMap.mp mem with ⟨line, lineMem, byteMem⟩
  rcases List.mem_append.mp byteMem with inLine | closing
  · exact .inr ⟨line, lineMem, inLine⟩
  · exact .inl (List.mem_singleton.mp closing)

theorem wrapped_chunks (encoded : Bytes) : wrapped (chunks armorWidth encoded) = true := by
  apply chunks_induction armorWidth_pos (motive := fun _ pieces => wrapped pieces = true)
  · rfl
  · intro items ne ih
    by_cases last : items.drop armorWidth = []
    · simp [last, wrapped]
    · rw [chunks_eq armorWidth_pos last] at ih ⊢
      rw [wrapped, ih]
      have longer : armorWidth < items.length := by simpa using last
      simp [Nat.le_of_lt longer]

/-! ## What the check accepts -/

/-- The armor of a payload with the header passes every check. -/
theorem validate_armor {raw : Bytes} (header : HasHeader raw)
    (bounded : (canonicalSshsigArmor raw).length ≤ maxSignatureBytes) :
    validateCanonicalSshsig (canonicalSshsigArmor raw) = .ok () := by
  have clean := armor_lines raw
  have isLines : lines (canonicalSshsigArmor raw) =
      beginLine :: (chunks armorWidth (Base64.encode raw) ++ [endLine]) := by
    rw [armor_eq_unlines]
    exact lines_unlines fun line mem => (clean line mem).1
  have nonempty : canonicalSshsigArmor raw ≠ [] := by
    simp [canonicalSshsigArmor]
  have utf8 : isUtf8 (canonicalSshsigArmor raw) = true := by
    apply isUtf8_of_ascii
    intro byte mem
    rw [armor_eq_unlines] at mem
    rcases mem_unlines mem with rfl | ⟨line, lineMem, byteMem⟩
    · decide
    · exact (clean line lineMem).2 byte byteMem
  have noReturn : carriageReturn ∉ canonicalSshsigArmor raw := by
    intro mem
    rw [armor_eq_unlines] at mem
    rcases mem_unlines mem with closing | ⟨line, lineMem, byteMem⟩
    · exact absurd closing (by decide)
    · exact (clean line lineMem).1.2 byteMem
  have closed : (canonicalSshsigArmor raw).getLast? = some newline := by
    rw [canonicalSshsigArmor, ← List.append_assoc, List.getLast?_concat]
  have encoded : Base64.encode raw ≠ [] := by
    apply Base64.encode_ne_nil
    rintro rfl
    exact absurd header.1 (by decide)
  have three : 3 ≤ (beginLine :: (chunks armorWidth (Base64.encode raw) ++ [endLine])).length := by
    rw [chunks_eq armorWidth_pos encoded]
    simp
  have full : [] ∉ chunks armorWidth (Base64.encode raw) := by
    intro mem
    exact ne_nil_of_mem_chunks armorWidth_pos _ _ mem rfl
  have decoded : decodeBase64 (chunks armorWidth (Base64.encode raw)).flatten = .ok raw := by
    rw [flatten_chunks armorWidth_pos, decodeBase64, Base64.decode_encode]
  unfold validateCanonicalSshsig
  rw [guard_eq_ok_iff, guard_eq_ok_iff, guard_eq_ok_iff]
  rw [isLines, guard_eq_ok_iff, List.tail_cons, List.dropLast_concat,
    guard_eq_ok_iff, guard_eq_ok_iff, bind_eq_ok_iff]
  refine ⟨?_, ?_, ?_, ?_, full, ?_, raw, decoded, ?_⟩
  · exact not_or.mpr ⟨nonempty, Nat.not_lt.mpr bounded⟩
  · simp [utf8]
  · exact not_or.mpr ⟨noReturn, fun wrong => wrong closed⟩
  · rw [not_or, not_or, ← List.cons_append, List.getLast?_concat]
    exact ⟨Nat.not_lt.mpr three, by simp, by simp⟩
  · simp [wrapped_chunks]
  · rw [guard_eq_ok_iff, guard_eq_ok_iff]
    exact ⟨not_not.mpr header, by simp, rfl⟩

/-- The check accepts exactly the armor of payloads with the header, within the bound. -/
theorem validateCanonicalSshsig_iff (sig : Bytes) :
    validateCanonicalSshsig sig = .ok () ↔
      ∃ raw, HasHeader raw ∧ canonicalSshsigArmor raw = sig ∧
        sig.length ≤ maxSignatureBytes := by
  constructor
  · intro accepted
    unfold validateCanonicalSshsig at accepted
    rw [guard_eq_ok_iff, guard_eq_ok_iff, guard_eq_ok_iff] at accepted
    rw [guard_eq_ok_iff, guard_eq_ok_iff, guard_eq_ok_iff, bind_eq_ok_iff] at accepted
    rcases accepted with ⟨bounds, -, -, -, -, -, raw, -, accepted⟩
    rw [guard_eq_ok_iff, guard_eq_ok_iff] at accepted
    rw [not_or] at bounds
    exact ⟨raw, not_not.mp accepted.1, not_not.mp accepted.2.1, Nat.le_of_not_lt bounds.2⟩
  · rintro ⟨raw, header, rfl, bounded⟩
    exact validate_armor header bounded

end Syq.Delegation
