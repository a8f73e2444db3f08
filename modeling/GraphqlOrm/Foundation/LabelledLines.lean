import Mathlib

/-!
# Labelled lines

A list of labelled texts, each on a line of its own. A text that contains a line break reaches over
several lines, and then the labels do not say where the next text starts.

## Main results

- `eq_of_lines`: the texts can be read back when at most one label has texts with line breaks.
- `lines_shifted`: two labels with such texts are enough for two lists with the same lines.
-/
namespace LabelledLines

abbrev Entry := List Char × List Char

def line (e : Entry) : List Char := e.1 ++ '=' :: (e.2 ++ ['\n'])

def lines (es : List Entry) : List Char := es.flatMap line

theorem lines_cons (e : Entry) (es : List Entry) :
    lines (e :: es) = e.1 ++ '=' :: (e.2 ++ '\n' :: lines es) := by
  unfold lines line
  simp

theorem lines_append (es more : List Entry) : lines (es ++ more) = lines es ++ lines more :=
  List.flatMap_append

/-- Texts without line breaks leave one for each label, and those in the labels. -/
theorem count_lines {es : List Entry} (free : ∀ e ∈ es, '\n' ∉ e.2) :
    (lines es).count '\n' = ((es.map Prod.fst).map fun label => label.count '\n' + 1).sum := by
  induction es with
  | nil => rfl
  | cons e es ih =>
    have here := List.count_eq_zero.mpr (free e (.head _))
    have rest := ih fun other mem => free other (List.mem_cons_of_mem e mem)
    rw [lines_cons, List.count_append, List.count_cons_of_ne (by decide), List.count_append, here,
      List.count_cons_self, rest, List.map_cons, List.map_cons, List.sum_cons]
    omega

section Reading

variable {left right : List Entry}

def OneLabel (left right : List Entry) : Prop :=
  ∀ a ∈ left ++ right, ∀ b ∈ left ++ right, '\n' ∈ a.2 → '\n' ∈ b.2 → a.1 = b.1

theorem OneLabel.symm (single : OneLabel left right) : OneLabel right left :=
  fun a first b second => single a (List.perm_append_comm.mem_iff.mp first) b
    (List.perm_append_comm.mem_iff.mp second)

/-- A text does not go on over the next lines when no other text has line breaks. -/
theorem not_longer {label text more : List Char} (labels : left.map Prod.fst = right.map Prod.fst)
    (fresh : label ∉ left.map Prod.fst)
    (single : OneLabel ((label, text) :: left) ((label, text ++ '\n' :: more) :: right)) :
    lines left ≠ more ++ '\n' :: lines right := by
  intro same
  have long : (label, text ++ '\n' :: more) ∈
      (label, text) :: left ++ (label, text ++ '\n' :: more) :: right :=
    List.mem_append_right _ (.head _)
  have other {e : Entry} (mem : e ∈ left ∨ e ∈ right) : '\n' ∉ e.2 := by
    intro break_
    have named : e.1 ∈ left.map Prod.fst := by
      rcases mem with inside | inside
      · exact List.mem_map_of_mem inside
      · rw [labels]
        exact List.mem_map_of_mem inside
    have inside : e ∈ (label, text) :: left ++ (label, text ++ '\n' :: more) :: right := by
      rw [List.mem_append, List.mem_cons, List.mem_cons]
      exact mem.imp .inr .inr
    have own := single e inside _ long break_ (by simp)
    exact fresh ((show e.1 = label from own) ▸ named)
  have first := count_lines fun e mem => other (.inl mem)
  have second := count_lines fun e mem => other (.inr mem)
  rw [same, labels, List.count_append, List.count_cons_self, second] at first
  omega

theorem OneLabel.tail {a b : Entry} (single : OneLabel (a :: left) (b :: right)) :
    OneLabel left right := by
  have inside {e : Entry} (mem : e ∈ left ++ right) : e ∈ a :: left ++ b :: right := by
    rw [List.mem_append, List.mem_cons, List.mem_cons]
    exact (List.mem_append.mp mem).imp .inr .inr
  exact fun x first y second => single x (inside first) y (inside second)

theorem eq_of_lines (labels : left.map Prod.fst = right.map Prod.fst)
    (distinct : (left.map Prod.fst).Nodup) (single : OneLabel left right)
    (same : lines left = lines right) : left = right := by
  induction left generalizing right with
  | nil => exact (List.map_eq_nil_iff.mp labels.symm).symm
  | cons a left ih =>
    cases right with
    | nil => cases labels
    | cons b right =>
      obtain ⟨label, text⟩ := a
      obtain ⟨label', text'⟩ := b
      rw [List.map_cons, List.map_cons, List.cons.injEq] at labels
      obtain ⟨same', others⟩ := labels
      obtain rfl : label = label' := same'
      obtain ⟨fresh, rest⟩ := List.nodup_cons.mp distinct
      rw [lines_cons, lines_cons, List.append_cancel_left_eq, List.cons.injEq,
        and_iff_right rfl] at same
      -- Where one text is longer, it goes on with a line break.
      have split : text = text' ∧ lines left = lines right ∨
          (∃ more, text' = text ++ '\n' :: more ∧ lines left = more ++ '\n' :: lines right) ∨
          ∃ more, text = text' ++ '\n' :: more ∧ lines right = more ++ '\n' :: lines left := by
        rcases List.append_eq_append_iff.mp same with ⟨more, longer, after⟩ | ⟨more, longer, after⟩
        · cases more with
          | nil => exact .inl ⟨by simpa using longer.symm, by simpa using after⟩
          | cons c more =>
            obtain ⟨rfl, rest⟩ := List.cons.inj after
            exact .inr (.inl ⟨more, longer, rest⟩)
        · cases more with
          | nil => exact .inl ⟨by simpa using longer, by simpa using after.symm⟩
          | cons c more =>
            obtain ⟨rfl, rest⟩ := List.cons.inj after
            exact .inr (.inr ⟨more, longer, rest⟩)
      rcases split with ⟨rfl, equal⟩ | ⟨more, rfl, after⟩ | ⟨more, rfl, after⟩
      · rw [ih others rest single.tail equal]
      · exact absurd after (not_longer others fresh single)
      · exact absurd after (not_longer others.symm (others ▸ fresh) single.symm)

end Reading

/-! ### Lines that belong to another text -/

/-- The lines of some labels before the text of the last of them, as the end of another text. -/
def tail (between : List Entry) (label lead : List Char) : List Char :=
  '\n' :: (lines between ++ label ++ '=' :: lead)

/-- The first text takes the lines up to the second one, or the second text has them once more. -/
theorem lines_shifted (before between after : List Entry) (first second lead : List Char) :
    lines (before ++ (first, lead) :: (between ++ (second, lead ++ tail between second lead) ::
        after)) =
      lines (before ++ (first, lead ++ tail between second lead) :: (between ++ (second, lead) ::
        after)) := by
  unfold tail
  simp only [lines_append, lines_cons, List.append_assoc, List.cons_append]

end LabelledLines
