import GraphqlOrm.Foundation.Records
import GraphqlOrm.Formats.PayloadCodec

/-!
# Field formats

A format is a namespace, a positive version and a payload. Its identity text is
`namespace@version:payload`, and no two formats share one.

## Main result

`payloadCodec`: payloads come back from JSON, exactly the JSON of payloads is accepted, and
the canonical texts of payloads and formats are unambiguous.
-/
namespace GraphqlOrm.Formats

open Json Outcome Text OrderedMap

def maxFormatNamespaceLen : Nat := 64

def maxFormatSegmentLen : Nat := 32

def reservedFormatNamespace : String := "graphql_orm"

/-! ### Namespaces -/

def segments (value : String) : List (List Char) := value.toList.splitOn '.'

def isNamespaceSegment (segment : List Char) : Bool :=
  byteLength segment ≤ maxFormatSegmentLen && isSegment segment

def checkNamespace (value : String) : Except RuntimeFormatProblem Unit := do
  require (byteSize value ≤ maxFormatNamespaceLen && 2 ≤ (segments value).length &&
    (segments value).all isNamespaceSegment) .invalidNamespace
  require ((segments value).head? != some reservedFormatNamespace.toList) .reservedNamespace

structure RuntimeFormatNamespace where
  text : String
  checked : checkNamespace text = .ok ()

/-- The version is a positive 16-bit integer. -/
structure RuntimeFieldFormat where
  «namespace» : RuntimeFormatNamespace
  version : Nat
  positive : version ≠ 0
  bounded : version < 2 ^ 16
  payload : RuntimeFormatPayload

def RuntimeFieldFormat.canonical (format : RuntimeFieldFormat) : String :=
  format.namespace.text ++ "@" ++ format.version.repr ++ ":" ++ canonicalJson format.payload.entries

theorem segment_chars {segment : List Char} (valid : isSegment segment = true) {c : Char}
    (mem : c ∈ segment) : c.isLower = true ∨ c.isDigit = true ∨ c = '_' := by
  rw [isSegment, Bool.and_eq_true] at valid
  cases segment with
  | nil => cases mem
  | cons first rest =>
    rcases List.mem_cons.mp mem with rfl | mem
    · exact .inl valid.1
    · have each := List.all_eq_true.mp valid.2 c mem
      simpa only [Bool.or_eq_true, beq_iff_eq, or_assoc] using each

/-- The separator of the version does not occur in a namespace. -/
theorem RuntimeFormatNamespace.free (name : RuntimeFormatNamespace) : Free ['@'] name.text := by
  obtain ⟨_, accepted, _⟩ := bind_eq_ok.mp name.checked
  have parts := require_eq_ok.mp accepted
  simp only [Bool.and_eq_true, List.all_eq_true] at parts
  intro c mem forbidden
  obtain rfl := List.mem_singleton.mp forbidden
  have joined : List.intercalate ['.'] (segments name.text) = name.text.toList :=
    List.intercalate_splitOn ..
  rw [← joined] at mem
  rcases mem_intercalate mem with dot | ⟨segment, part, inside⟩
  · exact absurd dot (by decide)
  · have valid := parts.2 segment part
    rw [isNamespaceSegment, Bool.and_eq_true] at valid
    rcases segment_chars valid.2 inside with lower | digit | other
    · exact absurd lower (by decide)
    · exact absurd digit (by decide)
    · exact absurd other (by decide)

/-! ### Identity -/

/-- Namespace, version and payload are cut apart at the first `@` and the next colon. -/
theorem RuntimeFieldFormat.canonical_injective {a b : RuntimeFieldFormat}
    (same : a.canonical = b.canonical) : a = b := by
  have chars := congrArg String.toList same
  simp only [canonical, String.toList_append, List.append_assoc] at chars
  have apart (name : RuntimeFormatNamespace) : ∀ c ∈ name.text.toList, ¬c = '@' :=
    fun c mem at_ => name.free c mem (by simp [at_])
  obtain ⟨names, behind⟩ := @append_cut Char (· = '@') _ _ _ _ (apart a.namespace)
    (apart b.namespace) (by rintro _ ⟨rfl⟩; rfl) (by rintro _ ⟨rfl⟩; rfl) chars
  have plain (n : Nat) : ∀ c ∈ n.repr.toList, ¬c = ':' := fun c mem colon =>
    @free_natRepr [':'] n (by decide) c mem (by simp [colon])
  obtain ⟨versions, payloads⟩ := @append_cut Char (· = ':') _ _ _ _ (plain a.version)
    (plain b.version) (by rintro _ ⟨rfl⟩; rfl) (by rintro _ ⟨rfl⟩; rfl)
    (List.append_cancel_left behind)
  have sameName : a.namespace.text = b.namespace.text := String.toList_inj.mp names
  have sameVersion : a.version = b.version := repr_inj (String.toList_inj.mp versions)
  have samePayload : a.payload = b.payload := RuntimeFormatPayload.canonicalJson_injective
    (String.toList_inj.mp (List.append_cancel_left payloads))
  obtain ⟨⟨name, _⟩, version, _, _, payload⟩ := a
  obtain ⟨⟨name', _⟩, version', _, _, payload'⟩ := b
  simp only at sameName sameVersion samePayload
  subst sameName sameVersion samePayload
  rfl

/-- Every payload comes back from its JSON value, a JSON value is accepted exactly if the
payload that it denotes passes the checks of the constructor, and canonical texts are
unambiguous. -/
theorem payloadCodec :
    (∀ p : RuntimeFormatPayload, RuntimeFormatPayload.ofJson p.toJson = .ok p) ∧
      (∀ json : JsonValue, (∃ p, RuntimeFormatPayload.ofJson json = .ok p) ↔
        ∃ entries, denote json.value = some (.object entries) ∧ check entries = .ok ()) ∧
      (∀ (json : JsonValue) (p : RuntimeFormatPayload), RuntimeFormatPayload.ofJson json = .ok p →
        denote json.value = some (.object p.entries)) ∧
      (∀ p q : RuntimeFormatPayload, canonicalJson p.entries = canonicalJson q.entries → p = q) ∧
      ∀ a b : RuntimeFieldFormat, a.canonical = b.canonical → a = b := by
  refine ⟨RuntimeFormatPayload.ofJson_toJson, fun json => ⟨?_, ?_⟩,
    fun _ _ => RuntimeFormatPayload.ofJson_eq_ok.mp,
    fun _ _ => RuntimeFormatPayload.canonicalJson_injective,
    fun _ _ => RuntimeFieldFormat.canonical_injective⟩
  · rintro ⟨p, accepted⟩
    exact ⟨p.entries, RuntimeFormatPayload.ofJson_eq_ok.mp accepted, p.checked⟩
  · rintro ⟨entries, denotes, checked⟩
    exact ⟨⟨entries, denote_typed _ denotes, checked⟩, RuntimeFormatPayload.ofJson_eq_ok.mpr denotes⟩

/-- The bounds agree at the deepest level: nine containers with a scalar inside. -/
example :
    (fromJson 0 (.object [("a", Nat.repeat (.array [·]) 8 (.bool true))])).isOk = true ∧
      (fromJson 0 (.object [("a", Nat.repeat (.array [·]) 9 (.bool true))])).isOk = false := by
  decide

end GraphqlOrm.Formats
