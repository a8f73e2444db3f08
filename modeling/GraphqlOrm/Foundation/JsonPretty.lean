import GraphqlOrm.Foundation.JsonText

/-!
# Indented JSON

The layout of `serde_json::to_vec_pretty`: every element and every member on a line of
its own, two blanks deeper than its container. It is read as the same document.
-/
namespace Json

open Text

def indent (depth : Nat) : List Char := '\n' :: List.replicate (2 * depth) ' '

mutual

def layout (depth : Nat) : Value (List Char) → List Char
  | .array [] => ['[', ']']
  | .array (v :: vs) => '[' :: (layoutElements depth (v :: vs) ++ indent depth ++ [']'])
  | .object [] => ['\x7b', '\x7d']
  | .object (m :: ms) => '\x7b' :: (layoutMembers depth (m :: ms) ++ indent depth ++ ['\x7d'])
  | .null => "null".toList
  | .bool b => (if b then "true" else "false").toList
  | .number n => n.literal.toList
  | .text content => quoted content

def layoutElements (depth : Nat) : List (Value (List Char)) → List Char
  | [] => []
  | [v] => indent (depth + 1) ++ layout (depth + 1) v
  | v :: w :: vs =>
    indent (depth + 1) ++ layout (depth + 1) v ++ ',' :: layoutElements depth (w :: vs)

def layoutMembers (depth : Nat) : List (List Char × Value (List Char)) → List Char
  | [] => []
  | [(key, v)] => indent (depth + 1) ++ quoted key ++ ':' :: ' ' :: layout (depth + 1) v
  | (key, v) :: m :: ms =>
    indent (depth + 1) ++ quoted key ++ ':' :: ' ' :: layout (depth + 1) v ++
      ',' :: layoutMembers depth (m :: ms)

end

/-- `serde_json::to_string_pretty`. -/
def Value.pretty (v : Value String) : String :=
  String.ofList (layout 0 (v.map fun s => s.toList.flatMap jsonChar))

/-! ### Reading the layout -/

section Spaces

variable {cs : List Char} {tokens : List (Token String)}

private theorem run_spaces {spaces : List Char} (blank : ∀ c ∈ spaces, isSpace c = true)
    (earlier : List (Token String)) :
    run ⟨earlier, .outside []⟩ spaces = some ⟨earlier, .outside []⟩ := by
  induction spaces with
  | nil => rfl
  | cons c spaces ih =>
    have space := blank c (.head _)
    have apart : c ≠ '"' := by
      rintro rfl
      exact absurd space (by decide)
    have moved : stepOutside earlier [] c = some ⟨earlier, .outside []⟩ := by
      simp [stepOutside, apart, space, flush]
    rw [run_cons, step_outside, moved, Option.bind_some]
    exact ih fun d mem => blank d (.tail _ mem)

theorem Reads.after_spaces (reads : Reads cs tokens) {spaces : List Char}
    (blank : ∀ c ∈ spaces, isSpace c = true) : Reads (spaces ++ cs) tokens := by
  intro earlier
  obtain ⟨complete, word, reached, flushed⟩ := reads earlier
  exact ⟨complete, word, by rw [run_append, run_spaces blank, Option.bind_some, reached], flushed⟩

theorem Reads.before_spaces (reads : Reads cs tokens) {spaces : List Char}
    (blank : ∀ c ∈ spaces, isSpace c = true) : Reads (cs ++ spaces) tokens := by
  intro earlier
  obtain ⟨complete, word, reached, flushed⟩ := reads earlier
  cases spaces with
  | nil => exact ⟨complete, word, by rw [List.append_nil, reached], flushed⟩
  | cons c spaces =>
    have space := blank c (.head _)
    have apart : c ≠ '"' := by
      rintro rfl
      exact absurd space (by decide)
    have moved : stepOutside complete word c = some ⟨earlier ++ tokens, .outside []⟩ := by
      simp [stepOutside, apart, space, flushed]
    refine ⟨earlier ++ tokens, [], ?_, by simp [flush]⟩
    rw [run_append, reached, Option.bind_some, run_cons, step_outside, moved, Option.bind_some]
    exact run_spaces (fun d mem => blank d (.tail _ mem)) _

theorem isSpace_indent (depth : Nat) : ∀ c ∈ indent depth, isSpace c = true := by
  intro c mem
  rcases List.mem_cons.mp mem with rfl | blank
  · rfl
  · rw [(List.mem_replicate.mp blank).2]
    rfl

end Spaces

section Layout

variable {read : List Char → String}

theorem layoutElements_eq (depth : Nat) (vs : List (Value (List Char))) :
    layoutElements depth vs =
      [','].intercalate (vs.map fun v => indent (depth + 1) ++ layout (depth + 1) v) := by
  induction vs with
  | nil => simp [layoutElements]
  | cons v vs ih =>
    cases vs with
    | nil => simp [layoutElements]
    | cons w vs => simp_all [layoutElements, List.intercalate_cons_cons]

theorem layoutMembers_eq (depth : Nat) (ms : List (List Char × Value (List Char))) :
    layoutMembers depth ms = [','].intercalate (ms.map fun m =>
      indent (depth + 1) ++ quoted m.1 ++ ':' :: ([' '] ++ layout (depth + 1) m.2)) := by
  induction ms with
  | nil => simp [layoutMembers]
  | cons m ms ih =>
    cases ms with
    | nil => simp [layoutMembers]
    | cons n ms => simp_all [layoutMembers, List.intercalate_cons_cons]

theorem reads_layout (depth : Nat) (v : Value (List Char)) (decodes : Decodes read v.tokens) :
    Reads (layout depth v) (v.map read).tokens := by
  have blank : ∀ c ∈ [' '], isSpace c = true := by simp [isSpace]
  induction v generalizing depth with
  | null =>
    simpa [layout, Value.map, Value.tokens] using Reads.word (w := "null") (by decide) (by decide)
  | bool b =>
    cases b
    · simpa [layout, Value.map, Value.tokens] using
        Reads.word (w := "false") (by decide) (by decide)
    · simpa [layout, Value.map, Value.tokens] using
        Reads.word (w := "true") (by decide) (by decide)
  | number n =>
    simpa [layout, Value.map, Value.tokens] using Reads.word n.isWord.1 n.isWord.2
  | text content =>
    simpa [layout, Value.map, Value.tokens] using Reads.text ((every_text content).mp decodes)
  | array vs ih =>
    have inner := Reads.commas fun v mem =>
      (ih v mem (depth + 1) ((every_array vs).mp decodes v mem)).after_spaces (isSpace_indent (depth + 1))
    cases vs with
    | nil => simpa [layout] using inner.array
    | cons v vs =>
      simpa [layout, layoutElements_eq] using (inner.before_spaces (isSpace_indent depth)).array
  | object ms ih =>
    have each := (every_object ms).mp decodes
    have inner := Reads.commas fun m mem =>
      ((Reads.text (each m mem).1).after_spaces (isSpace_indent (depth + 1))).punctuation
        ((ih m mem (depth + 1) (each m mem).2).after_spaces blank) (c := ':') rfl
    cases ms with
    | nil => simpa [layout] using inner.object
    | cons m ms =>
      simpa [layout, layoutMembers_eq] using (inner.before_spaces (isSpace_indent depth)).object

end Layout

theorem parse_pretty (v : Value String) : parse v.pretty = some v := by
  obtain ⟨read, back, decodes⟩ := exists_decodes v
  rw [Value.pretty, (reads_layout 0 _ decodes).parse, Value.map_map_self back]

end Json
