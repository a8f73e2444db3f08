import GraphqlOrm.Foundation.Bytes
import GraphqlOrm.Storage.Local

/-!
# The metadata file of an object

The JSON document that the local store keeps beside an object, and its reader.
-/
namespace GraphqlOrm.Storage

open Json Bytes

namespace Codec

/-! ### Parts -/

def signed {w : Nat} (x : BitVec w) : Value String := .number (.ofInt x.toInt)

def unsigned {w : Nat} (x : BitVec w) : Value String := .number (.ofNat x.toNat)

def readSigned (w : Nat) (v : Value String) : Option (BitVec w) :=
  (Value.asI64 v).map (BitVec.ofInt w)

def readUnsigned (w : Nat) (v : Value String) : Option (BitVec w) :=
  (Value.asU64 v).map (BitVec.ofNat w)

def optional : Option String → Value String
  | none => .null
  | some s => .text s

def readOptional : Value String → Option (Option String)
  | .null => some none
  | .text s => some (some s)
  | _ => none

def dateJson (date : OffsetDateTime) : Value String :=
  .array [signed date.year, unsigned date.ordinal, unsigned date.hour, unsigned date.minute,
    unsigned date.second, unsigned date.nanosecond, signed date.offsetHours,
    signed date.offsetMinutes, signed date.offsetSeconds]

def readDate : Value String → Option OffsetDateTime
  | .array [year, ordinal, hour, minute, second, nanosecond, hours, minutes, seconds] => do
    return {
      year := ← readSigned 32 year
      ordinal := ← readUnsigned 16 ordinal
      hour := ← readUnsigned 8 hour
      minute := ← readUnsigned 8 minute
      second := ← readUnsigned 8 second
      nanosecond := ← readUnsigned 32 nanosecond
      offsetHours := ← readSigned 8 hours
      offsetMinutes := ← readSigned 8 minutes
      offsetSeconds := ← readSigned 8 seconds }
  | _ => none

def metadataJson (metadata : ObjectMetadata) : Value String :=
  .object (metadata.entries.map fun entry => (entry.1, .text entry.2))

def readMetadata : Value String → Option ObjectMetadata
  | .object members => do
    let entries ← members.mapM fun mem => mem.2.asStr.map (mem.1, ·)
    if sorted : entries.Pairwise fun a b => a.1 < b.1 then some ⟨entries, sorted⟩ else none
  | _ => none

theorem readSigned_signed {w : Nat} (small : w ≤ 64) (x : BitVec w) :
    readSigned w (signed x) = some x := by
  have low := BitVec.le_two_mul_toInt (x := x)
  have high := BitVec.two_mul_toInt_lt (x := x)
  have width : (2 : Int) ^ w ≤ 2 ^ 64 := by exact_mod_cast Nat.pow_le_pow_right (by decide) small
  rw [readSigned, signed, Value.asI64_ofInt (by omega) (by omega), Option.map_some,
    BitVec.ofInt_toInt]

theorem readUnsigned_unsigned {w : Nat} (small : w ≤ 64) (x : BitVec w) :
    readUnsigned w (unsigned x) = some x := by
  have width : 2 ^ w ≤ 2 ^ 64 := Nat.pow_le_pow_right (by decide) small
  have bounded : x.toNat < 2 ^ 64 := by
    have := x.isLt
    omega
  rw [readUnsigned, unsigned, Value.asU64_ofNat bounded, Option.map_some, BitVec.ofNat_toNat,
    BitVec.setWidth_eq]

theorem readOptional_optional (s : Option String) : readOptional (optional s) = some s := by
  cases s <;> rfl

theorem readDate_dateJson (date : OffsetDateTime) : readDate (dateJson date) = some date := by
  simp only [dateJson, readDate, readSigned_signed (by decide : (32 : Nat) ≤ 64),
    readSigned_signed (by decide : (8 : Nat) ≤ 64), readUnsigned_unsigned (by decide : (8 : Nat) ≤ 64),
    readUnsigned_unsigned (by decide : (16 : Nat) ≤ 64),
    readUnsigned_unsigned (by decide : (32 : Nat) ≤ 64), Option.bind_eq_bind, Option.bind_some,
    Option.pure_def]

theorem readMetadata_metadataJson (metadata : ObjectMetadata) :
    readMetadata (metadataJson metadata) = some metadata := by
  have texts : (metadata.entries.map fun entry => (entry.1, Value.text entry.2)).mapM
      (fun mem => mem.2.asStr.map (mem.1, ·)) = some metadata.entries := by
    induction metadata.entries with
    | nil => rfl
    | cons entry rest ih =>
      rw [List.map_cons, List.mapM_cons, ih]
      rfl
  simp only [metadataJson, readMetadata, texts, Option.bind_eq_bind, Option.bind_some,
    metadata.sorted, dif_pos]

/-! ### The document -/

def toJson (info : ObjectInfo) : Value String :=
  .object [
    ("bucket", .text info.bucket),
    ("key", .text info.key),
    ("content_type", optional info.contentType),
    ("metadata", metadataJson info.metadata),
    ("size_bytes", .number (.ofNat info.sizeBytes)),
    ("sha256_hex", .text info.sha256Hex),
    ("etag", optional info.etag),
    ("last_modified", dateJson info.lastModified)]

def ofJson (v : Value String) : Option ObjectInfo := do
  return {
    bucket := ← (← v.get "bucket").asStr
    key := ← (← v.get "key").asStr
    contentType := ← readOptional ((v.get "content_type").getD .null)
    metadata := ← readMetadata (← v.get "metadata")
    sizeBytes := ← (← v.get "size_bytes").asU64
    sha256Hex := ← (← v.get "sha256_hex").asStr
    etag := ← readOptional ((v.get "etag").getD .null)
    lastModified := ← readDate (← v.get "last_modified") }

theorem ofJson_toJson {info : ObjectInfo} (bounded : info.sizeBytes < 2 ^ 64) :
    ofJson (toJson info) = some info := by
  have bucket : (toJson info).get "bucket" = some (.text info.bucket) := rfl
  have key : (toJson info).get "key" = some (.text info.key) := rfl
  have contentType : (toJson info).get "content_type" = some (optional info.contentType) := rfl
  have metadata : (toJson info).get "metadata" = some (metadataJson info.metadata) := rfl
  have size : (toJson info).get "size_bytes" = some (.number (.ofNat info.sizeBytes)) := rfl
  have digest : (toJson info).get "sha256_hex" = some (.text info.sha256Hex) := rfl
  have etag : (toJson info).get "etag" = some (optional info.etag) := rfl
  have date : (toJson info).get "last_modified" = some (dateJson info.lastModified) := rfl
  simp only [ofJson, bucket, key, contentType, metadata, size, digest, etag, date,
    Value.asStr_text, readOptional_optional, readMetadata_metadataJson, Value.asU64_ofNat bounded,
    readDate_dateJson, Option.bind_eq_bind, Option.bind_some, Option.getD_some, Option.pure_def]

/-- `serde_json::to_vec` and `from_slice` for the documents that the store writes. -/
def json (sha256 : Bytes → String) : Codec where
  sha256 := sha256
  encode info := utf8 (toJson info).write
  decode bytes := (fromUtf8 bytes).bind fun text => (Json.parse text).bind ofJson

/-- What `serde_json` writes it reads back. -/
def RoundTrips (codec : Codec) : Prop :=
  ∀ info : ObjectInfo, info.sizeBytes < 2 ^ 64 → codec.decode (codec.encode info) = some info

theorem roundTrips_json (sha256 : Bytes → String) : (json sha256).RoundTrips := by
  intro info bounded
  unfold json
  simp only [fromUtf8_utf8, Option.bind_some, parse_write, ofJson_toJson bounded]

end Codec

end GraphqlOrm.Storage
