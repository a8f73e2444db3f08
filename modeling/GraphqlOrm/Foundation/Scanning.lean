import Mathlib.Data.List.Basic

/-!
# Scanning text into tokens

A scanner drops blanks and reads one token at a time from the first character that is no
blank. What a text is scanned as is described without the bound on the rounds.
-/
namespace Scanning

variable {τ : Type} (blank : Char → Bool) (read : Char → List Char → Option (τ × List Char))

/-- Every round consumes a character, so the length of the text is enough fuel. -/
def scan : Nat → List Char → Option (List τ)
  | 0, cs => if cs.isEmpty then some [] else none
  | _ + 1, [] => some []
  | fuel + 1, c :: rest =>
    if blank c then scan fuel rest
    else do
      let (token, left) ← read c rest
      return token :: (← scan fuel left)

/-- The text consists of the tokens, with blanks between. -/
inductive Spells : List Char → List τ → Prop
  | nil : Spells [] []
  | blank {c : Char} {rest : List Char} {tokens : List τ} :
    blank c = true → Spells rest tokens → Spells (c :: rest) tokens
  | token {c : Char} {rest left : List Char} {token : τ} {tokens : List τ} :
    blank c = false → read c rest = some (token, left) → Spells left tokens →
      Spells (c :: rest) (token :: tokens)

def Consumes : Prop :=
  ∀ c rest token left, read c rest = some (token, left) → left.length ≤ rest.length

variable {blank read} {cs : List Char} {tokens : List τ}

theorem scan_spells {fuel : Nat} (scanned : scan blank read fuel cs = some tokens) :
    Spells blank read cs tokens := by
  induction fuel generalizing cs tokens with
  | zero =>
    cases cs with
    | nil =>
      cases Option.some.inj scanned
      exact .nil
    | cons c rest => cases scanned
  | succ fuel ih =>
    cases cs with
    | nil =>
      cases Option.some.inj scanned
      exact .nil
    | cons c rest =>
      rw [scan] at scanned
      split at scanned
      next skipped => exact .blank skipped (ih scanned)
      next first =>
        obtain ⟨⟨token, left⟩, found, scanned⟩ := Option.bind_eq_some_iff.mp scanned
        obtain ⟨later, rest', scanned⟩ := Option.bind_eq_some_iff.mp scanned
        cases Option.some.inj scanned
        exact .token (by simpa using first) found (ih rest')

theorem Spells.scan (consumes : Consumes read) (spells : Spells blank read cs tokens) :
    ∀ fuel, cs.length ≤ fuel → Scanning.scan blank read fuel cs = some tokens := by
  induction spells with
  | nil =>
    intro fuel _
    cases fuel <;> rfl
  | blank skipped _ ih =>
    intro fuel enough
    obtain ⟨fuel, rfl⟩ : ∃ n, fuel = n + 1 := ⟨fuel - 1, by simp at enough; omega⟩
    rw [Scanning.scan, if_pos skipped]
    exact ih fuel (Nat.le_of_succ_le_succ enough)
  | token first found _ ih =>
    intro fuel enough
    obtain ⟨fuel, rfl⟩ : ∃ n, fuel = n + 1 := ⟨fuel - 1, by simp at enough; omega⟩
    have shorter := consumes _ _ _ _ found
    have later := ih fuel (Nat.le_trans shorter (Nat.le_of_succ_le_succ enough))
    rw [Scanning.scan, if_neg (by simp [first]), found]
    simp [later]

theorem scan_iff (consumes : Consumes read) :
    scan blank read cs.length cs = some tokens ↔ Spells blank read cs tokens :=
  ⟨scan_spells, fun spells => spells.scan consumes _ (Nat.le_refl _)⟩

/-- One text is spelled in one way. -/
theorem Spells.functional {tokens' : List τ} (spells : Spells blank read cs tokens)
    (spells' : Spells blank read cs tokens') : tokens = tokens' := by
  induction spells generalizing tokens' with
  | nil =>
    cases spells'
    rfl
  | blank skipped _ ih =>
    cases spells' with
    | blank _ rest => exact ih rest
    | token first _ _ => exact absurd skipped (by simp [first])
  | token first found _ ih =>
    cases spells' with
    | blank skipped _ => exact absurd skipped (by simp [first])
    | token _ found' rest =>
      obtain ⟨rfl, rfl⟩ := Prod.mk.inj (Option.some.inj (found.symm.trans found'))
      rw [ih rest]

/-- What holds of every token that is read holds of the tokens of a text. -/
theorem Spells.all {holds : τ → Prop} (spells : Spells blank read cs tokens)
    (each : ∀ c rest token left, blank c = false → read c rest = some (token, left) →
      holds token) :
    ∀ token ∈ tokens, holds token := by
  induction spells with
  | nil => exact fun _ mem => absurd mem List.not_mem_nil
  | blank _ _ ih => exact ih
  | token first found _ ih =>
    intro token mem
    rcases List.mem_cons.mp mem with rfl | later
    · exact each _ _ _ _ first found
    · exact ih token later

/-! ### Two scanners -/

variable {σ : Type} {blank' : Char → Bool} {read' : Char → List Char → Option (σ × List Char)}

/-- What one scanner reads, another one reads as well if it reads every token so. -/
theorem Spells.map {f : τ → σ} (spells : Spells blank read cs tokens)
    (blanks : ∀ c, blank c = true → blank' c = true)
    (agrees : ∀ c rest token left, blank c = false → read c rest = some (token, left) →
      token ∈ tokens → blank' c = false ∧ read' c rest = some (f token, left)) :
    Spells blank' read' cs (tokens.map f) := by
  induction spells with
  | nil => exact .nil
  | blank skipped _ ih => exact .blank (blanks _ skipped) (ih agrees)
  | token first found _ ih =>
    obtain ⟨start, same⟩ := agrees _ _ _ _ first found (.head _)
    refine .token start same (ih ?_)
    intro c rest token left unskipped read mem
    exact agrees c rest token left unskipped read (.tail _ mem)

end Scanning
