import GraphqlOrm.Foundation.Text
import Mathlib.Data.List.TakeWhile
import Mathlib.Tactic.IntervalCases

/-!
# Slices at byte offsets

Slicing text where the source does, by byte offsets that may fall inside a character,
and when it can be replaced by operations on characters.
-/
namespace Text

def byteLength (cs : List Char) : Nat := (cs.map Char.utf8Size).sum

@[simp] theorem byteLength_nil : byteLength [] = 0 := rfl

@[simp] theorem byteLength_cons (c : Char) (cs : List Char) :
    byteLength (c :: cs) = c.utf8Size + byteLength cs := rfl

@[simp] theorem byteLength_append (cs ds : List Char) :
    byteLength (cs ++ ds) = byteLength cs + byteLength ds := by
  simp [byteLength]

/-- `str::split_at`: an offset inside a character, or past the end, stops the program. -/
def splitAtByte : List Char → Nat → Option (List Char × List Char)
  | cs, 0 => some ([], cs)
  | [], _ + 1 => none
  | c :: rest, offset + 1 =>
    if c.utf8Size ≤ offset + 1 then
      (splitAtByte rest (offset + 1 - c.utf8Size)).map fun (before, after) => (c :: before, after)
    else none

/-- `&value[first..last]`. -/
def slice (cs : List Char) (first last : Nat) : Option (List Char) := do
  let (before, _) ← splitAtByte cs last
  let (_, inside) ← splitAtByte before first
  return inside

attribute [local simp] splitAtByte

theorem splitAtByte_append (before after : List Char) :
    splitAtByte (before ++ after) (byteLength before) = some (before, after) := by
  induction before with
  | nil => cases after <;> rfl
  | cons c before ih =>
    have filled := c.utf8Size_pos
    obtain ⟨size, sized⟩ : ∃ size, c.utf8Size + byteLength before = size + 1 :=
      ⟨c.utf8Size + byteLength before - 1, by omega⟩
    rw [List.cons_append, byteLength_cons, sized, splitAtByte, if_pos (by omega),
      show size + 1 - c.utf8Size = byteLength before by omega, ih]
    rfl

theorem splitAtByte_sound {cs before after : List Char} {offset : Nat}
    (cut : splitAtByte cs offset = some (before, after)) :
    cs = before ++ after ∧ byteLength before = offset := by
  induction cs generalizing offset before after with
  | nil => cases offset <;> cases cut; simp
  | cons c rest ih =>
    cases offset with
    | zero =>
      cases cut
      simp
    | succ offset =>
      rw [splitAtByte] at cut
      split at cut
      · obtain ⟨parts, inner, same⟩ := Option.map_eq_some_iff.mp cut
        obtain ⟨rfl, length⟩ := ih inner
        cases same
        refine ⟨rfl, ?_⟩
        rw [byteLength_cons, length]
        omega
      · cases cut

theorem slice_append (before inside after : List Char) :
    slice (before ++ inside ++ after) (byteLength before) (byteLength before + byteLength inside) =
      some inside := by
  have cut := splitAtByte_append (before ++ inside) after
  rw [byteLength_append] at cut
  rw [slice, cut]
  simp only [Option.bind_eq_bind, Option.bind_some, splitAtByte_append]
  rfl

/-! ### Bytes of characters -/

theorem utf8EncodeChar_ascii {c : Char} (small : c.toNat < 128) :
    String.utf8EncodeChar c = [UInt8.ofNat c.toNat] := by
  have low : c.val.toNat ≤ 0x7f := Nat.le_of_lt_succ small
  simp only [String.utf8EncodeChar, if_pos low]
  rfl

/-- No byte of a longer character is ASCII. -/
theorem utf8EncodeChar_wide {c : Char} (wide : 128 ≤ c.toNat) :
    ∀ b ∈ String.utf8EncodeChar c, 128 ≤ b.toNat := by
  have high : ¬ c.val.toNat ≤ 0x7f := by
    change ¬ c.toNat ≤ 127
    omega
  intro b mem
  simp only [String.utf8EncodeChar, if_neg high] at mem
  split at mem
  · simp only [List.mem_cons, List.not_mem_nil, or_false] at mem
    rcases mem with rfl | rfl <;> rw [UInt8.toNat_ofNat'] <;> omega
  split at mem
  · simp only [List.mem_cons, List.not_mem_nil, or_false] at mem
    rcases mem with rfl | rfl | rfl <;> rw [UInt8.toNat_ofNat'] <;> omega
  · simp only [List.mem_cons, List.not_mem_nil, or_false] at mem
    rcases mem with rfl | rfl | rfl | rfl <;> rw [UInt8.toNat_ofNat'] <;> omega

theorem utf8Size_ascii {c : Char} (small : c.toNat < 128) : c.utf8Size = 1 := by
  rw [← String.length_utf8EncodeChar, utf8EncodeChar_ascii small]
  rfl

/-! ### Trimming -/

variable {p : Char → Bool}

theorem dropWhile_eq_self {cs : List Char} (kept : ∀ c ∈ cs.head?, p c = false) :
    cs.dropWhile p = cs := by
  cases cs with
  | nil => rfl
  | cons c rest => simp [kept c rfl]

def Trimmed (p : Char → Bool) (cs : List Char) : Prop :=
  (∀ c ∈ cs.head?, p c = false) ∧ ∀ c ∈ cs.getLast?, p c = false

theorem trimList_of_trimmed {cs : List Char} (trimmed : Trimmed p cs) : trimList p cs = cs := by
  have last : ∀ c ∈ cs.reverse.head?, p c = false := by
    rw [List.head?_reverse]
    exact trimmed.2
  rw [trimList, dropWhile_eq_self trimmed.1, dropWhile_eq_self last, List.reverse_reverse]

theorem dropWhile_head {cs : List Char} : ∀ c ∈ (cs.dropWhile p).head?, p c = false := by
  intro c mem
  have stopped := List.head?_dropWhile_not p cs
  rw [Option.mem_def.mp mem] at stopped
  simpa using stopped

theorem trimmed_trimList (cs : List Char) : Trimmed p (trimList p cs) := by
  constructor
  · intro c mem
    -- What the second trim keeps starts as the first one left it.
    have kept : trimList p cs <+: cs.dropWhile p := by
      rw [trimList, ← List.reverse_suffix, List.reverse_reverse]
      exact List.dropWhile_suffix p
    obtain ⟨rest, whole⟩ := kept
    apply @dropWhile_head p cs c
    rw [← whole, List.head?_append, Option.mem_def.mp mem]
    rfl
  · rw [trimList, List.getLast?_reverse]
    exact dropWhile_head

theorem trimList_idem (cs : List Char) : trimList p (trimList p cs) = trimList p cs :=
  trimList_of_trimmed (trimmed_trimList cs)

/-- Trimming takes blanks away from both ends. -/
theorem exists_trimList (cs : List Char) : ∃ before after : List Char,
    cs = before ++ trimList p cs ++ after ∧ (∀ c ∈ before, p c = true) ∧ ∀ c ∈ after, p c = true := by
  refine ⟨cs.takeWhile p, ((cs.dropWhile p).reverse.takeWhile p).reverse, ?_,
    fun c mem => List.mem_takeWhile_imp mem, fun c mem =>
      List.mem_takeWhile_imp (List.mem_reverse.mp mem)⟩
  rw [trimList, List.append_assoc, ← List.reverse_append, List.takeWhile_append_dropWhile,
    List.reverse_reverse, List.takeWhile_append_dropWhile]

/-- Whatever is trimmed at both ends is what trimming keeps. -/
theorem trimList_eq {before kept after : List Char} (front : ∀ c ∈ before, p c = true)
    (trimmed : Trimmed p kept) (back : ∀ c ∈ after, p c = true) :
    trimList p (before ++ kept ++ after) = kept := by
  have turned : ∀ c ∈ after.reverse, p c = true := fun c mem => back c (List.mem_reverse.mp mem)
  rw [trimList, List.append_assoc, List.dropWhile_append_of_pos front]
  cases kept with
  | nil => simp [List.dropWhile_eq_nil_iff.mpr back]
  | cons c rest =>
    -- The first character kept stops the front trim, the last one the back trim.
    have last : ∀ d ∈ (c :: rest).reverse.head?, p d = false := by
      rw [List.head?_reverse]
      exact trimmed.2
    have first : (c :: rest ++ after).dropWhile p = c :: rest ++ after :=
      dropWhile_eq_self (by simpa using trimmed.1)
    rw [first, List.reverse_append, List.dropWhile_append_of_pos turned, dropWhile_eq_self last,
      List.reverse_reverse]

theorem trimList_append {before after : List Char} (front : ∀ c ∈ before, p c = true)
    (back : ∀ c ∈ after, p c = true) (cs : List Char) :
    trimList p (before ++ cs ++ after) = trimList p cs := by
  obtain ⟨first, last, whole, blank, blank'⟩ := exists_trimList (p := p) cs
  have around : before ++ cs ++ after =
      (before ++ first) ++ trimList p cs ++ (last ++ after) := by
    conv_lhs => rw [whole]
    simp only [List.append_assoc]
  rw [around]
  apply trimList_eq _ (trimmed_trimList cs)
  · intro c mem
    exact (List.mem_append.mp mem).elim (blank' c) (back c)
  · intro c mem
    exact (List.mem_append.mp mem).elim (front c) (blank c)

/-! ### Letter case -/

theorem toLower_toUpper (c : Char) : c.toUpper.toLower = c.toLower := by
  by_cases small : 97 ≤ c.toNat ∧ c.toNat ≤ 122
  · obtain ⟨low, high⟩ := small
    rw [← Char.ofNat_toNat c]
    interval_cases c.toNat <;> rfl
  · have kept : c.toUpper = c := by
      unfold Char.toUpper
      split
      next inside =>
        simp only [UInt32.le_iff_toNat_le] at inside
        exact absurd inside small
      next => rfl
    rw [kept]

theorem isUpper_iff (c : Char) : c.isUpper = true ↔ 65 ≤ c.toNat ∧ c.toNat ≤ 90 :=
  decide_eq_true_iff

theorem isLower_iff (c : Char) : c.isLower = true ↔ 97 ≤ c.toNat ∧ c.toNat ≤ 122 := by
  change (decide ('a'.val ≤ c.val) && decide (c.val ≤ 'z'.val)) = true ↔ _
  rw [Bool.and_eq_true, decide_eq_true_eq, decide_eq_true_eq]
  exact Iff.rfl

theorem isAlpha_iff (c : Char) : c.isAlpha = true ↔ c.isUpper = true ∨ c.isLower = true :=
  Bool.or_eq_true_iff

theorem isLower_toLower {c : Char} (letter : c.isAlpha = true) : c.toLower.isLower = true := by
  rw [isAlpha_iff, isUpper_iff, isLower_iff] at letter
  rw [← Char.ofNat_toNat c]
  rcases letter with ⟨low, high⟩ | ⟨low, high⟩
  · interval_cases c.toNat <;> rfl
  · interval_cases c.toNat <;> rfl

theorem toLower_eq_self {c : Char} (other : c.isAlpha = false) : c.toLower = c := by
  unfold Char.toLower
  split
  next inside =>
    have upper : c.isUpper = true := (isUpper_iff c).mpr inside
    rw [(isAlpha_iff c).mpr (.inl upper)] at other
    cases other
  next => rfl

theorem toLower_toLower (c : Char) : c.toLower.toLower = c.toLower := by
  by_cases letter : c.isAlpha = true
  · have small := (isLower_iff _).mp (isLower_toLower letter)
    generalize c.toLower = d at small
    rw [← Char.ofNat_toNat d]
    obtain ⟨low, high⟩ := small
    interval_cases d.toNat <;> rfl
  · have kept : c.toLower = c := toLower_eq_self (by simpa using letter)
    rw [kept, kept]

theorem lower_lower (s : String) : lower (lower s) = lower s := by
  simp only [lower, String.toList_ofList, List.map_map]
  congr 2
  funext c
  exact toLower_toLower c

theorem lower_upper (s : String) : lower (upper s) = lower s := by
  simp only [lower, upper, String.toList_ofList, List.map_map]
  congr 2
  funext c
  exact toLower_toUpper c

end Text
