import GraphqlOrm.Foundation.JsonText

/-!
# Texts of identifiers

128-bit identifiers in the hyphenated form, and the reader for every form that
`Uuid::parse_str` takes: hyphenated, digits only, in braces or as a URN.
-/
namespace UuidText

open Text Json

/-- The lowest `k` hexadecimal digits, the highest of them first. -/
def hexDigits : Nat → Nat → List Char
  | 0, _ => []
  | k + 1, n => hexDigits k (n / 16) ++ [hexDigit (n % 16)]

def hyphenate (digits : List Char) : List Char :=
  digits.take 8 ++ '-' :: ((digits.drop 8).take 4 ++ '-' :: ((digits.drop 12).take 4 ++
    '-' :: ((digits.drop 16).take 4 ++ '-' :: digits.drop 20)))

/-- `Uuid::to_string`. -/
def hyphenated (id : BitVec 128) : String := String.ofList (hyphenate (hexDigits 32 id.toNat))

def hexNumber (digits : List Char) : Option Nat :=
  digits.foldlM (fun n c => (hexValue c).map (16 * n + ·)) 0

def unhyphenate (text : List Char) : Option (List Char) :=
  if text.length = 36 ∧ text[8]? = some '-' ∧ text[13]? = some '-' ∧ text[18]? = some '-' ∧
      text[23]? = some '-' then
    some (text.take 8 ++ (text.drop 9).take 4 ++ (text.drop 14).take 4 ++ (text.drop 19).take 4 ++
      text.drop 24)
  else none

def readDigits (digits : List Char) : Option (BitVec 128) :=
  if digits.length = 32 then (hexNumber digits).map (BitVec.ofNat 128) else none

/-- `Uuid::parse_str`. -/
def parse (text : String) : Option (BitVec 128) :=
  let chars := text.toList
  if chars.length = 32 then readDigits chars
  else if chars.length = 36 then (unhyphenate chars).bind readDigits
  else if chars.length = 38 ∧ chars.head? = some '{' ∧ chars.getLast? = some '}' then
    (unhyphenate (chars.drop 1).dropLast).bind readDigits
  else if chars.take 9 = "urn:uuid:".toList then (unhyphenate (chars.drop 9)).bind readDigits
  else none

/-! ### Reading what was written -/

theorem length_hexDigits (k n : Nat) : (hexDigits k n).length = k := by
  induction k generalizing n with
  | zero => rfl
  | succ k ih => simp [hexDigits, ih]

theorem hexNumber_hexDigits (k n : Nat) : hexNumber (hexDigits k n) = some (n % 16 ^ k) := by
  induction k generalizing n with
  | zero => simp [hexDigits, hexNumber, Nat.mod_one]
  | succ k ih =>
    have last : hexValue (hexDigit (n % 16)) = some (n % 16) :=
      hexValue_hexDigit (Nat.mod_lt n (by decide))
    have whole : n % 16 ^ (k + 1) = 16 * (n / 16 % 16 ^ k) + n % 16 := by
      rw [Nat.pow_succ', Nat.mod_mul]
      omega
    rw [hexDigits, hexNumber, List.foldlM_append]
    change (hexNumber (hexDigits k (n / 16))).bind _ = _
    rw [ih, whole]
    simp [last]

theorem mem_hexDigits {k n : Nat} {c : Char} (mem : c ∈ hexDigits k n) :
    ∃ d, d < 16 ∧ c = hexDigit d := by
  induction k generalizing n with
  | zero => cases mem
  | succ k ih =>
    rcases List.mem_append.mp mem with before | last
    · exact ih before
    · exact ⟨n % 16, Nat.mod_lt n (by decide), List.mem_singleton.mp last⟩

theorem unhyphenate_hyphenate {digits : List Char} (full : digits.length = 32) :
    unhyphenate (hyphenate digits) = some digits := by
  obtain ⟨a, b, c, d, e, rfl, la, lb, lc, ld, le⟩ : ∃ a b c d e : List Char,
      digits = a ++ (b ++ (c ++ (d ++ e))) ∧
        a.length = 8 ∧ b.length = 4 ∧ c.length = 4 ∧ d.length = 4 ∧ e.length = 12 :=
    ⟨digits.take 8, (digits.drop 8).take 4, (digits.drop 12).take 4, (digits.drop 16).take 4,
      digits.drop 20, by
        rw [← List.drop_drop (i := 4) (j := 16), List.take_append_drop,
          ← List.drop_drop (i := 4) (j := 12), List.take_append_drop,
          ← List.drop_drop (i := 4) (j := 8), List.take_append_drop, List.take_append_drop],
      by simp [full], by simp [full], by simp [full], by simp [full], by simp [full]⟩
  have written : hyphenate (a ++ (b ++ (c ++ (d ++ e)))) =
      a ++ '-' :: (b ++ '-' :: (c ++ '-' :: (d ++ '-' :: e))) := by
    simp (disch := omega) [hyphenate, List.drop_append, la, lb, lc, List.drop_eq_nil_of_le]
  rw [written, unhyphenate, if_pos]
  · simp (disch := omega) [List.drop_append, la, lb, lc, ld, List.drop_eq_nil_of_le]
  · simp [la, lb, lc, ld, le]

theorem length_hyphenated (id : BitVec 128) : (hyphenated id).toList.length = 36 := by
  simp [hyphenated, hyphenate, length_hexDigits 32 id.toNat]

theorem parse_hyphenated (id : BitVec 128) : parse (hyphenated id) = some id := by
  have full := length_hexDigits 32 id.toNat
  have long := length_hyphenated id
  rw [hyphenated, String.toList_ofList] at long
  have read : readDigits (hexDigits 32 id.toNat) = some id := by
    rw [readDigits, if_pos full, hexNumber_hexDigits, Option.map_some, Option.some.injEq]
    apply BitVec.eq_of_toNat_eq
    rw [BitVec.toNat_ofNat]
    have width : (16 : Nat) ^ 32 = 2 ^ 128 := by norm_num
    rw [width, Nat.mod_mod, Nat.mod_eq_of_lt id.isLt]
  rw [parse, hyphenated, String.toList_ofList, if_neg (by rw [long]; decide), if_pos long,
    unhyphenate_hyphenate full, Option.bind_some, read]

theorem hyphenated_injective {a b : BitVec 128} (same : hyphenated a = hyphenated b) : a = b := by
  have read := congrArg parse same
  rw [parse_hyphenated, parse_hyphenated] at read
  exact Option.some.inj read

/-- Only digits and hyphens occur. -/
theorem notMem_hyphenated {c : Char} (other : ∀ d, d < 16 → hexDigit d ≠ c) (dash : c ≠ '-')
    (id : BitVec 128) : c ∉ (hyphenated id).toList := by
  rw [hyphenated, String.toList_ofList]
  intro mem
  have absent : c ∉ hexDigits 32 id.toNat := fun inside => by
    obtain ⟨d, small, same⟩ := mem_hexDigits inside
    exact other d small same.symm
  simp only [hyphenate, List.mem_append, List.mem_cons] at mem
  rcases mem with h | h | h | h | h | h | h | h | h
  · exact absent (List.mem_of_mem_take h)
  · exact dash h
  · exact absent (List.mem_of_mem_drop (List.mem_of_mem_take h))
  · exact dash h
  · exact absent (List.mem_of_mem_drop (List.mem_of_mem_take h))
  · exact dash h
  · exact absent (List.mem_of_mem_drop (List.mem_of_mem_take h))
  · exact dash h
  · exact absent (List.mem_of_mem_drop h)

end UuidText
