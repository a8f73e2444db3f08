import GraphqlOrm.Foundation.Text

/-!
# Separated text

When text joined by a separator can be taken apart again: no part may contain the
separator. The same for lists of lines that fall into blocks, each opened by a
line of its own kind.
-/
variable {ss : List String}

namespace Text

def Free (forbidden : List Char) (s : String) : Prop := ∀ c ∈ s.toList, c ∉ forbidden

instance (forbidden : List Char) (s : String) : Decidable (Free forbidden s) :=
  List.decidableBAll (fun c => c ∉ forbidden) s.toList

section Free

variable {forbidden : List Char}

theorem Free.mono {some more : List Char} {s : String} (free : Free more s) (fewer : some ⊆ more) :
    Free some s :=
  fun c mem inside => free c mem (fewer inside)

theorem Free.append {s t : String} (left : Free forbidden s) (right : Free forbidden t) :
    Free forbidden (s ++ t) := by
  intro c mem
  rw [String.toList_append, List.mem_append] at mem
  exact mem.elim (left c) (right c)

theorem Free.join {separator : String} (own : Free forbidden separator)
    (parts : ∀ s ∈ ss, Free forbidden s) : Free forbidden (Text.join separator ss) := by
  induction ss with
  | nil => exact fun c mem => absurd mem List.not_mem_nil
  | cons s rest ih =>
    have first := parts s (.head _)
    have others := ih fun t mem => parts t (.tail _ mem)
    cases rest with
    | nil => exact first
    | cons t more => exact (first.append own).append others

end Free

/-! ### Cutting at a boundary -/

/-- A list is cut where its first element of a kind stands. -/
theorem append_cut {γ : Type} {opens : γ → Prop} {xs ys us vs : List γ}
    (left : ∀ x ∈ xs, ¬opens x) (right : ∀ y ∈ ys, ¬opens y) (leftEnd : ∀ u ∈ us.head?, opens u)
    (rightEnd : ∀ v ∈ vs.head?, opens v) (same : xs ++ us = ys ++ vs) : xs = ys ∧ us = vs := by
  induction xs generalizing ys with
  | nil =>
    cases ys with
    | nil => exact ⟨rfl, same⟩
    | cons y more =>
      rw [List.nil_append] at same
      exact absurd (leftEnd y (by simp [same])) (right y (.head _))
  | cons x rest ih =>
    cases ys with
    | nil =>
      rw [List.nil_append] at same
      exact absurd (rightEnd x (by simp [← same])) (left x (.head _))
    | cons y more =>
      rw [List.cons_append, List.cons_append, List.cons.injEq] at same
      obtain ⟨rfl, others⟩ := same
      obtain ⟨rfl, rfl⟩ := ih (fun z mem => left z (.tail _ mem))
        (fun z mem => right z (.tail _ mem)) others
      exact ⟨rfl, rfl⟩

/-- The encodings of some values end where they say so themselves, once the separator or the
end follows them. -/
def SelfDelimited {α : Type} (c : Char) (encode : α → String) (holds : α → Prop) : Prop :=
  ∀ a b (us vs : List Char), holds a → holds b → (∀ u ∈ us.head?, u = c) →
    (∀ v ∈ vs.head?, v = c) → (encode a).toList ++ us = (encode b).toList ++ vs → a = b ∧ us = vs

/-! ### Numbers -/

section Numbers

variable {forbidden : List Char}

theorem free_natRepr (n : Nat) (letters : forbidden.all (!·.isDigit) = true) :
    Free forbidden (Nat.repr n) := by
  intro c mem inside
  rw [Nat.toList_repr] at mem
  have digit := Nat.isDigit_of_mem_toDigits (by decide) (by decide) mem
  have letter := List.all_eq_true.mp letters c inside
  rw [digit] at letter
  cases letter

theorem free_intRepr (n : Int) (letters : forbidden.all (!·.isDigit) = true)
    (sign : Free forbidden "-") : Free forbidden (Int.repr n) := by
  rw [Int.repr_eq_if]
  split
  · exact free_natRepr _ letters
  · exact sign.append (free_natRepr _ letters)

theorem intRepr_injective {m n : Int} (same : Int.repr m = Int.repr n) : m = n := by
  -- A sign is no digit, so the two numbers are on the same side of zero.
  have unsigned (k l : Nat) : Nat.repr k ≠ "-" ++ Nat.repr l := by
    intro equal
    have free : Free ['-'] (Nat.repr k) := free_natRepr k (by decide)
    rw [equal] at free
    exact free '-' (by simp) (.head _)
  rw [Int.repr_eq_if, Int.repr_eq_if] at same
  split at same <;> split at same
  · have values := repr_inj same
    omega
  · exact absurd same (unsigned _ _)
  · exact absurd same.symm (unsigned _ _)
  · have values := repr_inj ((String.append_right_inj _).mp same)
    omega

end Numbers

/-! ### Joining -/

theorem toList_join (c : Char) (ss : List String) :
    (join (String.ofList [c]) ss).toList = List.intercalate [c] (ss.map String.toList) := by
  induction ss with
  | nil => rfl
  | cons s rest ih =>
    cases rest with
    | nil => simp [join]
    | cons t more =>
      rw [join, String.toList_append, String.toList_append, ih]
      simp [List.intercalate]
      simp

variable {α : Type}

theorem mem_intercalate_iff {c : α} {separator : List α} {parts : List (List α)} :
    c ∈ separator.intercalate parts ↔
      (c ∈ separator ∧ 1 < parts.length) ∨ ∃ part ∈ parts, c ∈ part := by
  induction parts with
  | nil => simp
  | cons part rest ih =>
    cases rest with
    | nil => simp
    | cons next more =>
      rw [List.intercalate_cons_cons, List.mem_append, List.mem_append, ih]
      simp only [List.length_cons, List.exists_mem_cons_iff, Nat.lt_add_left_iff_pos,
        Nat.succ_pos, and_true]
      tauto

theorem mem_intercalate {c d : α} {parts : List (List α)} (mem : c ∈ List.intercalate [d] parts) :
    c = d ∨ ∃ part ∈ parts, c ∈ part :=
  (mem_intercalate_iff.mp mem).imp_left fun between => List.mem_singleton.mp between.1

theorem flatMap_intercalate {β : Type} (f : α → List β) (separator : List α)
    (parts : List (List α)) : (separator.intercalate parts).flatMap f =
      (separator.flatMap f).intercalate (parts.map (·.flatMap f)) := by
  induction parts with
  | nil => rfl
  | cons part rest ih =>
    cases rest with
    | nil => simp
    | cons next more => simp_all [List.intercalate_cons_cons]

/-- What stands behind the first part of a joined text. -/
theorem toList_join_cons (c : Char) (s : String) (rest : List String) :
    (join (String.ofList [c]) (s :: rest)).toList =
      s.toList ++ if rest = [] then [] else c :: (join (String.ofList [c]) rest).toList := by
  cases rest with
  | nil | cons t more => simp [join]

variable {c : Char} {xs : List α}

/-- Self-delimited parts can be told apart, whatever they contain. -/
theorem join_selfDelimited {encode : α → String} {holds : α → Prop}
    (delimited : SelfDelimited c encode holds) (filled : ∀ a, encode a ≠ "") {ys : List α}
    (left : ∀ x ∈ xs, holds x) (right : ∀ y ∈ ys, holds y)
    (same : join (String.ofList [c]) (xs.map encode) = join (String.ofList [c]) (ys.map encode)) :
    xs = ys := by
  have rests (zs : List α) : ∀ d ∈ (if zs.map encode = [] then [] else
      c :: (join (String.ofList [c]) (zs.map encode)).toList).head?, d = c := by
    split
    · exact nofun
    · rintro d ⟨rfl⟩
      rfl
  have texts := congrArg String.toList same
  have blank (z : α) (zs : List α) : join (String.ofList [c]) ((z :: zs).map encode) ≠ "" := by
    intro empty
    have chars := congrArg String.toList empty
    rw [List.map_cons, toList_join_cons, String.toList_empty] at chars
    exact filled z (String.toList_eq_nil_iff.mp (List.append_eq_nil_iff.mp chars).1)
  induction xs generalizing ys with
  | nil =>
    cases ys with
    | nil => rfl
    | cons y ys => exact absurd same.symm (blank y ys)
  | cons x xs ih =>
    cases ys with
    | nil => exact absurd same (blank x xs)
    | cons y ys =>
      rw [List.map_cons, List.map_cons, toList_join_cons, toList_join_cons] at texts
      obtain ⟨rfl, later⟩ := delimited x y _ _ (left x (.head _))
        (right y (.head _)) (rests xs) (rests ys) texts
      congr 1
      split at later <;> split at later
      next last last' => rw [List.map_eq_nil_iff.mp last, List.map_eq_nil_iff.mp last']
      · cases later
      · cases later
      next =>
        have tails := (List.cons.inj later).2
        exact ih (fun z mem => left z (.tail _ mem))
          (fun z mem => right z (.tail _ mem)) (String.toList_inj.mp tails) tails

theorem join_append {separator : String} {ts : List String} (left : ss ≠ []) (right : ts ≠ []) :
    join separator (ss ++ ts) = join separator ss ++ separator ++ join separator ts := by
  induction ss with
  | nil => exact absurd rfl left
  | cons s rest ih =>
    cases rest with
    | nil =>
      cases ts with
      | nil => exact absurd rfl right
      | cons t more => rfl
    | cons t more =>
      have step (us : List String) :
          join separator (s :: t :: us) = s ++ separator ++ join separator (t :: us) := rfl
      have others := ih (List.cons_ne_nil t more)
      rw [List.cons_append] at others
      rw [List.cons_append, List.cons_append, step, others, step]
      simp only [String.append_assoc]

/-- Only no part, or one empty part, joins to the empty text. -/
theorem join_eq_empty (notBlank : ss ≠ [""]) (blank : join (String.ofList [c]) ss = "") :
    ss = [] := by
  match ss with
  | [] => rfl
  | [s] => exact absurd (congrArg (fun t => [t]) blank) notBlank
  | s :: t :: more =>
    have lengths := congrArg String.length blank
    simp [join] at lengths

/-- Parts without the separator can be read back, except that no part and one empty
part look alike. -/
theorem join_injective {ts : List String} (left : ∀ s ∈ ss, Free [c] s)
    (right : ∀ t ∈ ts, Free [c] t) (empty : ss = [] ↔ ts = [])
    (same : join (String.ofList [c]) ss = join (String.ofList [c]) ts) : ss = ts := by
  rcases eq_or_ne ss [] with rfl | some
  · exact (empty.mp rfl).symm
  have some' : ts ≠ [] := fun none => some (empty.mpr none)
  have absent {us : List String} (free : ∀ u ∈ us, Free [c] u) :
      ∀ l ∈ us.map String.toList, c ∉ l := by
    intro l mem inside
    obtain ⟨u, own, rfl⟩ := List.mem_map.mp mem
    exact free u own c inside (.head _)
  have lists := congrArg String.toList same
  rw [toList_join, toList_join] at lists
  have split := congrArg (List.splitOn c) lists
  rw [List.splitOn_intercalate c (absent left) (by simpa using some),
    List.splitOn_intercalate c (absent right) (by simpa using some')] at split
  exact List.map_injective_iff.mpr (fun _ _ equal => String.toList_inj.mp equal) split

/-- Trimming takes a pair of delimiters off a text that has no other. -/
theorem trimList_wrapped {p : Char → Bool} {delimiter : Char} {text : List Char}
    (trimmed : p delimiter = true) (kept : ∀ c ∈ text, p c = false) :
    trimList p (delimiter :: (text ++ [delimiter])) = text := by
  have stays {cs : List Char} (free : ∀ c ∈ cs, p c = false) : cs.dropWhile p = cs := by
    cases cs with
    | nil => rfl
    | cons c rest => simp [free c (.head _)]
  rw [trimList, List.dropWhile_cons_of_pos trimmed]
  cases text with
  | nil => simp [trimmed]
  | cons c rest =>
    rw [List.cons_append, List.dropWhile_cons_of_neg (by simp [kept c (.head _)]),
      ← List.cons_append, List.reverse_append, List.reverse_singleton, List.singleton_append,
      List.dropWhile_cons_of_pos trimmed,
      stays fun d mem => kept d (List.mem_reverse.mp mem), List.reverse_reverse]

/-! ### Terminated lines -/

def unlines (c : Char) (ss : List String) : String :=
  String.ofList (ss.flatMap fun s => s.toList ++ [c])

theorem unlines_injective {ts : List String} (left : ∀ s ∈ ss, Free [c] s)
    (right : ∀ t ∈ ts, Free [c] t) (same : unlines c ss = unlines c ts) : ss = ts := by
  have lists := String.ofList_injective same
  clear same
  induction ss generalizing ts with
  | nil =>
    cases ts with
    | nil => rfl
    | cons t more => simp at lists
  | cons s rest ih =>
    cases ts with
    | nil => simp at lists
    | cons t more =>
      simp only [List.flatMap_cons, List.append_assoc, List.cons_append, List.nil_append] at lists
      have fresh {u : String} (free : Free [c] u) : ∀ d ∈ u.toList, ¬d = c := by
        intro d inside equal
        exact free d inside (equal ▸ .head _)
      obtain ⟨first, others⟩ := append_cut (fresh (left s (.head _)))
        (fresh (right t (.head _))) (by simp) (by simp) lists
      rw [String.toList_inj.mp first, ih (fun u mem => left u (.tail _ mem))
        (fun u mem => right u (.tail _ mem)) (List.cons.inj others).2]

theorem unlines_free {forbidden : List Char} (own : c ∉ forbidden)
    (parts : ∀ s ∈ ss, Free forbidden s) : Free forbidden (unlines c ss) := by
  intro d mem
  rw [unlines, String.toList_ofList, List.mem_flatMap] at mem
  obtain ⟨s, inside, here⟩ := mem
  rcases List.mem_append.mp here with text | stop
  · exact parts s inside d text
  · rw [List.mem_singleton.mp stop]
    exact own

/-- Terminated lines and a last one without terminator are joined lines. -/
theorem unlines_append (c : Char) (ss : List String) (last : String) :
    unlines c ss ++ last = join (String.ofList [c]) (ss ++ [last]) := by
  induction ss with
  | nil => simp [unlines, join]
  | cons s rest ih =>
    have step : join (String.ofList [c]) (s :: (rest ++ [last])) =
        s ++ String.ofList [c] ++ join (String.ofList [c]) (rest ++ [last]) := by
      cases rest <;> rfl
    rw [List.cons_append, step, ← ih, ← String.toList_inj]
    simp [unlines]

/-! ### Lists with equal texts -/

/-- Elements whose texts can be read back are related one by one. -/
theorem forall₂_of_map_eq {β γ : Type} {f : α → γ} {g : β → γ} {P : α → Prop} {Q : β → Prop}
    {R : α → β → Prop} {ys : List β} (left : ∀ x ∈ xs, P x) (right : ∀ y ∈ ys, Q y)
    (read : ∀ x y, P x → Q y → f x = g y → R x y) (same : xs.map f = ys.map g) :
    List.Forall₂ R xs ys := by
  induction xs generalizing ys with
  | nil =>
    cases ys with
    | nil => exact .nil
    | cons y more => cases same
  | cons x rest ih =>
    cases ys with
    | nil => cases same
    | cons y more =>
      rw [List.map_cons, List.map_cons, List.cons.injEq] at same
      apply List.Forall₂.cons
      · exact read x y (left x (.head _)) (right y (.head _)) same.1
      · exact ih (fun z mem => left z (.tail _ mem))
          (fun z mem => right z (.tail _ mem)) same.2

/-! ### Blocks of lines -/

def IsBlock {γ : Type} (opens : γ → Prop) (block : List γ) : Prop :=
  ∃ head body, block = head :: body ∧ opens head ∧ ∀ l ∈ body, ¬opens l

theorem head?_flatMap_blocks {γ : Type} {opens : γ → Prop} {f : α → List γ}
    (blocks : ∀ x ∈ xs, IsBlock opens (f x)) : ∀ l ∈ (xs.flatMap f).head?, opens l := by
  intro l first
  cases xs with
  | nil => cases first
  | cons x rest =>
    obtain ⟨head, body, shape, opening, _⟩ := blocks x (.head _)
    rw [List.flatMap_cons, shape] at first
    cases first
    exact opening

/-- Blocks can be told apart by the elements that open them. -/
theorem flatMap_blocks {β γ : Type} {opens : γ → Prop} {f : α → List γ} {g : β → List γ}
    {ys : List β} (left : ∀ x ∈ xs, IsBlock opens (f x)) (right : ∀ y ∈ ys, IsBlock opens (g y))
    (same : xs.flatMap f = ys.flatMap g) :
    xs.map f = ys.map g := by
  induction xs generalizing ys with
  | nil =>
    cases ys with
    | nil => rfl
    | cons y more =>
      obtain ⟨head, body, shape, _⟩ := right y (.head _)
      simp [shape] at same
  | cons x rest ih =>
    cases ys with
    | nil =>
      obtain ⟨head, body, shape, _⟩ := left x (.head _)
      simp [shape] at same
    | cons y more =>
      obtain ⟨head, body, shape, _, closed⟩ := left x (.head _)
      obtain ⟨head', body', shape', _, closed'⟩ := right y (.head _)
      have left' := fun z mem => left z (List.mem_cons_of_mem x mem)
      have right' := fun z mem => right z (List.mem_cons_of_mem y mem)
      rw [List.flatMap_cons, List.flatMap_cons, shape, shape', List.cons_append, List.cons_append,
        List.cons.injEq] at same
      -- The first block ends where the next one opens.
      obtain ⟨bodies, others⟩ := append_cut closed closed' (head?_flatMap_blocks left')
        (head?_flatMap_blocks right') same.2
      rw [List.map_cons, List.map_cons, ih left' right' others, shape, shape', same.1, bodies]

end Text
