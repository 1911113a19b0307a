import Syq.Records.Model

/-!
# What a writer seals

A call of a writer keeps its bytes in the buffer or seals all of them as one record under the
cipher's next nonce.
-/

namespace Syq.Records

open Syq.Lib

variable {writer : RecordWriter}

/-- One direction of one connection. -/
structure Endpoint where
  connId : Nat
  direction : UInt8
  inNonceSpace : connId ≤ connectionIdMax
  deriving DecidableEq

/-- The cipher of a direction after some records. -/
def Endpoint.cipher (endpoint : Endpoint) (counter : Nat) : Cipher :=
  ⟨endpoint.connId, endpoint.direction, counter, endpoint.inNonceSpace⟩

theorem Endpoint.nonce_cipher (endpoint : Endpoint) (counter : Nat) :
    (endpoint.cipher counter).nonce = ⟨endpoint.direction, endpoint.connId, counter⟩ := by
  have small : endpoint.connId % 2 ^ 24 = endpoint.connId := by
    have fits := endpoint.inNonceSpace
    unfold connectionIdMax at fits
    omega
  rw [Cipher.nonce, Endpoint.cipher, small]

/-- The bytes of the data that a write takes. -/
def RecordWriter.taken (writer : RecordWriter) (data : Bytes) : Bytes :=
  data.take (min data.length (recordMax - writer.buf.length))

/-- A call with so many bytes in the buffer keeps them or seals them all. -/
inductive Emits (cipher : Cipher) (buf : Bytes) : List Sealed → RecordWriter → Prop where
  | kept {writer : RecordWriter} (cipher_eq : writer.cipher = cipher) (buf_eq : writer.buf = buf) :
      Emits cipher buf [] writer
  | sealed {record : Sealed} {writer : RecordWriter} (nonce_eq : record.nonce = cipher.nonce)
      (plain_eq : record.plain = buf) (cipher_eq : writer.cipher = cipher.next)
      (buf_eq : writer.buf = []) : Emits cipher buf [record] writer

variable (aead : Aead)

include aead

theorem emit_emits (cipher : Cipher) (buf : Bytes) (sink : Sink) :
    Emits cipher buf (RecordWriter.emit aead cipher buf sink).sealedRecords
      (RecordWriter.emit aead cipher buf sink).writer := by
  unfold RecordWriter.emit
  split_ifs with empty
  · rw [List.isEmpty_iff] at empty
    exact .kept rfl empty.symm
  · exact .sealed rfl rfl rfl rfl

theorem write_emits {cipher : Cipher} (uses : writer.cipher = cipher) (data : Bytes) (sink : Sink) :
    Emits cipher (writer.buf ++ writer.taken data) (writer.write aead data sink).sealedRecords
      (writer.write aead data sink).writer := by
  have emitted := emit_emits aead cipher (writer.buf ++ writer.taken data) sink
  rw [← uses] at emitted
  unfold RecordWriter.write
  dsimp only
  split_ifs with fits
  · exact .kept uses rfl
  · split <;> exact emitted

/-- A write that does not fill the record only fills the buffer. -/
theorem write_of_room {data : Bytes} (sink : Sink)
    (fits : (writer.buf ++ writer.taken data).length < recordMax) :
    writer.write aead data sink =
      ⟨.returned (.ok (min data.length (recordMax - writer.buf.length))), [], [],
        ⟨writer.cipher, writer.buf ++ writer.taken data, fits⟩, sink⟩ :=
  dif_pos fits

theorem flush_buf (writer : RecordWriter) (sink : Sink) :
    (writer.flush aead sink).writer.buf = [] := by
  have empty : (RecordWriter.emit aead writer.cipher writer.buf sink).writer.buf = [] := by
    unfold RecordWriter.emit
    split_ifs with empty
    · rfl
    · cases writer.cipher <;> rfl
  unfold RecordWriter.flush
  dsimp only
  split
  · split <;> exact empty
  · exact empty

theorem flush_emits {cipher : Cipher} (uses : writer.cipher = cipher) (sink : Sink) :
    Emits cipher (writer.buf ++ []) (writer.flush aead sink).sealedRecords
      (writer.flush aead sink).writer := by
  have emitted := emit_emits aead cipher writer.buf sink
  rw [← uses] at emitted
  rw [List.append_nil]
  unfold RecordWriter.flush
  dsimp only
  split
  · split <;> exact emitted
  · exact emitted

end Syq.Records
