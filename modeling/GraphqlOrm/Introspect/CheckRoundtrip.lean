import GraphqlOrm.Introspect.CheckClause

/-!
# Rendering and introspecting CHECK constraints

The constraints of a table go into its `CREATE TABLE` and come back from the scan of
that text. They come back for every list of constraints exactly when the text before
them is closed: the scan then reaches the first constraint outside every token and
without having met the word CHECK.
-/
namespace GraphqlOrm.Introspect

open Schema Migration Text Lexical

/-! ### The statement -/

/-- Named by an ASCII identifier, with a balanced expression. -/
def Readable (constraint : CheckConstraintModel) : Prop :=
  asciiIdentifier constraint.name = true ∧ balanced constraint.expression = true

instance (constraint : CheckConstraintModel) : Decidable (Readable constraint) :=
  inferInstanceAs (Decidable (_ ∧ _))

/-- What introspection is to return: the expressions trimmed, and all of it sorted. -/
def introspected (checks : List CheckConstraintModel) : List CheckConstraintModel :=
  sortBy checkKey (checks.map fun constraint =>
    { constraint with expression := trim constraint.expression })

def structuralText (table : TableModel) : String :=
  "CREATE TABLE " ++ DatabaseBackend.sqlite.renderIdentifierPath table.tableName ++ " (" ++
    join ", " (structuralParts .sqlite table table.tableName)

def tableOpening (table : TableModel) : List Char :=
  ("CREATE TABLE " ++ DatabaseBackend.sqlite.renderIdentifierPath table.tableName ++ " ").toList

def withChecks (table : TableModel) (checks : List CheckConstraintModel) : TableModel :=
  { table with checkConstraints := checks }

def checkParts (checks : List CheckConstraintModel) : List String :=
  checks.map (renderCheckPart .sqlite)

def separator (table : TableModel) : List Char :=
  if structuralParts .sqlite table table.tableName = [] then [] else [',', ' ']

section Statement

variable {table : TableModel} {checks : List CheckConstraintModel}

theorem render_withChecks :
    renderCreateTableStatement .sqlite (withChecks table checks) =
      "CREATE TABLE " ++ DatabaseBackend.sqlite.renderIdentifierPath table.tableName ++ " (" ++
        join ", " (structuralParts .sqlite table table.tableName ++ checkParts checks) ++ ")" := rfl

theorem render_noChecks :
    (renderCreateTableStatement .sqlite (withChecks table [])).toList =
      (structuralText table).toList ++ [')'] := by
  rw [render_withChecks, checkParts, List.map_nil, List.append_nil, String.toList_append]
  rfl

theorem render_checks (some : checks ≠ []) :
    (renderCreateTableStatement .sqlite (withChecks table checks)).toList =
      (structuralText table).toList ++ separator table ++
        ((join ", " (checkParts checks)).toList ++ [')']) := by
  rw [render_withChecks, separator]
  split
  next none =>
    simp only [structuralText, none, List.nil_append, join, String.append_empty,
      String.toList_append, List.append_nil, List.append_assoc]
    rfl
  next parts =>
    rw [join_append parts (by simpa [checkParts] using some)]
    simp only [structuralText, String.toList_append, List.append_assoc]
    rfl

/-- Behind a comma, or behind the only parenthesis, every constraint is found. -/
theorem scan_checks (readable : ∀ constraint ∈ checks, Readable constraint) (some : checks ≠ [])
    {before : List Char} (starts : ClauseStart before) (found : List CheckConstraintModel) :
    scan ((join ", " (checkParts checks)).toList ++ [')']) before 0 found =
      .ok (found ++ checks.map fun constraint =>
        { constraint with expression := trim constraint.expression }) := by
  induction checks generalizing before found with
  | nil => exact absurd rfl some
  | cons constraint rest ih =>
    obtain ⟨plain, matched⟩ := readable constraint (.head _)
    have step := fun tail => scan_constraint plain matched starts.free tail found
    simp only [scannedName_nameText plain starts] at step
    cases rest with
    | nil =>
      rw [checkParts, List.map_singleton, join, step, scan_end]
      rfl
    | cons next more =>
      have split : (join ", " (checkParts (constraint :: next :: more))).toList ++ [')'] =
          (renderCheckPart .sqlite constraint).toList ++
            ([',', ' '] ++ ((join ", " (checkParts (next :: more))).toList ++ [')'])) := by
        simp [checkParts, join]
      have behind : ClauseStart ([',', ' '].reverse ++
          ((renderCheckPart .sqlite constraint).toList.reverse ++ before)) := .inl ⟨_, rfl⟩
      rw [split, step, scan_outside (.inr (by simp [identifierByte])) rfl, ih (fun other mem => readable other (.tail _ mem))
        (List.cons_ne_nil _ _) behind]
      simp

theorem structuralText_bare (none : structuralParts .sqlite table table.tableName = []) :
    (structuralText table).toList = tableOpening table ++ ['('] := by
  simp [structuralText, tableOpening, none, join]

/-! ### Closed text before the constraints -/

theorem neutral_space : Neutral identifierByte ' ' := by constructor <;> decide

theorem neutral_comma : Neutral identifierByte ',' := by constructor <;> decide

theorem neutral_opening : Neutral identifierByte '(' := by constructor <;> decide

theorem neutral_closing : Neutral identifierByte ')' := by constructor <;> decide

/-- The state behind the text and a space. -/
@[irreducible]
def settled (table : TableModel) : State := read .outside ((structuralText table).toList ++ [' '])

theorem read_closing : read .outside ((structuralText table).toList ++ [')']) = settled table := by
  rw [settled, read_append, read_append, read_cons, read_cons, neutral_closing.step_eq neutral_space]

/-- The separator leaves the state as a space does. -/
theorem read_separator :
    read .outside ((structuralText table).toList ++ separator table) = settled table := by
  rw [separator]
  split
  next none =>
    simp only [settled, structuralText_bare none, List.append_nil, read_append, read_cons, read_nil,
      neutral_opening.step_step neutral_space]
  next parts =>
    simp only [settled, read_append, read_cons, read_nil, neutral_comma.step_eq neutral_space,
      neutral_space.step_step neutral_space]

/-- The text before the constraints is closed, and where no structural part precedes
them no comma does. -/
def ClosedBefore (table : TableModel) : Prop :=
  Closed identifierByte checkWord (structuralText table).toList ∧
    (structuralParts .sqlite table table.tableName = [] →
      ',' ∉ (DatabaseBackend.sqlite.renderIdentifierPath table.tableName).toList)

instance : Decidable (ClosedBefore table) := inferInstanceAs (Decidable (_ ∧ _))

/-- Every list of constraints comes back from the statement, whatever the rest of the
table is. -/
def ChecksRoundTrip (table : TableModel) : Prop :=
  ∀ checks : List CheckConstraintModel, (∀ constraint ∈ checks, Readable constraint) →
    parseSqliteCheckConstraints (renderCreateTableStatement .sqlite (withChecks table checks)) =
      .ok (introspected checks)

theorem clauseStart_separator
    (noComma : structuralParts .sqlite table table.tableName = [] →
      ',' ∉ (DatabaseBackend.sqlite.renderIdentifierPath table.tableName).toList) :
    ClauseStart (((structuralText table).toList ++ separator table).reverse ++ []) := by
  rw [separator]
  split
  next none =>
    have absent : ',' ∉ (tableOpening table).reverse := by simp [tableOpening, noComma none]
    right
    rw [structuralText_bare none]
    exact ⟨(tableOpening table).reverse, by simp, absent⟩
  next parts =>
    left
    exact ⟨(structuralText table).toList.reverse, by simp⟩

theorem ClosedBefore.roundTrip (closed : ClosedBefore table) : ChecksRoundTrip table := by
  intro checks readable
  have outside : settled table = .outside := by
    rw [settled, read]
    exact closed.1
  rw [parseSqliteCheckConstraints]
  rcases eq_or_ne checks [] with rfl | some
  · rw [render_noChecks, ← List.append_nil (_ ++ _),
      scan_outside (boundary_start _) (read_closing.trans outside)]
    rfl
  · rw [render_checks some, scan_outside (boundary_start _) (read_separator.trans outside),
      scan_checks readable some (clauseStart_separator closed.2)]
    rfl

/-! ### Text that is not closed -/

/-- What the scan finds is what comes back, up to the order. -/
theorem ChecksRoundTrip.scanned (roundTrip : ChecksRoundTrip table)
    (checks : List CheckConstraintModel) (readable : ∀ constraint ∈ checks, Readable constraint) :
    ∃ found, scan (renderCreateTableStatement .sqlite (withChecks table checks)).toList [] 0 [] =
        .ok found ∧ sortBy checkKey found = introspected checks := by
  have parsed := roundTrip checks readable
  rw [parseSqliteCheckConstraints] at parsed
  cases scanned : scan (renderCreateTableStatement .sqlite (withChecks table checks)).toList [] 0 []
    with
  | error error =>
    rw [scanned] at parsed
    cases parsed
  | ok found =>
    rw [scanned] at parsed
    exact ⟨found, rfl, Except.ok.inj parsed⟩

/-- A keyword before the constraints is taken for one of them. -/
theorem ChecksRoundTrip.not_met (roundTrip : ChecksRoundTrip table) : settled table ≠ .met := by
  intro met
  obtain ⟨found, scanned, sorted⟩ := roundTrip.scanned [] (by simp)
  rw [render_noChecks] at scanned
  have grown := scan_met (boundary_start _) (read_closing.trans met) scanned
  have length := (sortBy_perm checkKey found).length_eq
  rw [sorted] at length
  exact absurd length (Nat.ne_of_lt grown)

def sample (name : String) : CheckConstraintModel := ⟨name, "1"⟩

theorem sample_readable {name : String} (plain : asciiIdentifier name = true) :
    ∀ constraint ∈ [sample name], Readable constraint := by
  intro constraint mem
  have one : balanced "1" = true := by decide
  rw [List.mem_singleton.mp mem]
  exact ⟨plain, one⟩

theorem introspected_sample (name : String) : introspected [sample name] = [sample name] := by
  have trimmed : trim "1" = "1" := by decide
  rw [introspected, List.map_singleton, sortBy_singleton, sample, trimmed]

theorem render_sample (name : String) :
    (renderCreateTableStatement .sqlite (withChecks table [sample name])).toList =
      (structuralText table).toList ++ separator table ++
        ((renderCheckPart .sqlite (sample name)).toList ++ [')']) :=
  render_checks (List.cons_ne_nil _ _)

/-- No open token is closed by the sample: a quote opens anew behind the name. -/
theorem scan_sample_running (running : (settled table).Running) :
    scan ((structuralText table).toList ++ separator table ++
      ((renderCheckPart .sqlite (sample "a")).toList ++ [')'])) [] 0 [] = .ok [] := by
  have text : (renderCheckPart .sqlite (sample "a")).toList ++ [')'] =
      "CONSTRAINT \"a\" CHECK (1))".toList := by decide
  apply scan_open (boundary_start _)
  rw [read_append, read_separator, text]
  generalize settled table = state at running
  cases state with
  | quoted quote => cases quote <;> trivial
  | bracketed | lineComment | blockComment => trivial
  | outside | word | dash | slash | closing | blockStar | met => exact running.elim

/-- An open token swallows the constraints. -/
theorem ChecksRoundTrip.not_running (roundTrip : ChecksRoundTrip table) :
    ¬(settled table).Running := by
  intro running
  have plain : asciiIdentifier "a" = true := by decide
  obtain ⟨found, scanned, sorted⟩ := roundTrip.scanned [sample "a"] (sample_readable plain)
  rw [render_sample, scan_sample_running running, Except.ok.injEq] at scanned
  rw [← scanned, introspected_sample] at sorted
  cases sorted

/-- The sample comes back under the name that the scan reads. -/
theorem ChecksRoundTrip.scannedName_eq (roundTrip : ChecksRoundTrip table)
    (outside : settled table = .outside) {name : String} (plain : asciiIdentifier name = true) :
    scannedName ((nameText name).reverse ++
      (((structuralText table).toList ++ separator table).reverse ++ [])) 0 = name := by
  have readable := sample_readable plain
  have one : Readable (sample name) := readable _ (.head _)
  have free : ∀ c ∈ (((structuralText table).toList ++ separator table).reverse ++ []).head?,
      identifierByte c = false := by
    rw [separator]
    split
    next none => simp [structuralText_bare none, identifierByte]
    next => simp [identifierByte]
  obtain ⟨found, scanned, sorted⟩ := roundTrip.scanned [sample name] readable
  rw [render_sample, scan_outside (boundary_start _) (read_separator.trans outside),
    scan_constraint one.1 one.2 free, scan_end, Except.ok.injEq, List.nil_append] at scanned
  rw [← scanned, introspected_sample, sortBy_singleton, List.singleton_inj] at sorted
  simp only [sample, CheckConstraintModel.mk.injEq, List.length_nil] at sorted
  exact sorted.1

/-- A comma in the name of a table without structural parts hides the name of the first
constraint. -/
theorem ChecksRoundTrip.no_comma (roundTrip : ChecksRoundTrip table)
    (outside : settled table = .outside)
    (none : structuralParts .sqlite table table.tableName = []) :
    ',' ∉ (DatabaseBackend.sqlite.renderIdentifierPath table.tableName).toList := by
  intro comma
  have inside : ',' ∈ (tableOpening table).reverse := by simp [tableOpening, comma]
  have shape : ((structuralText table).toList ++ separator table).reverse ++ [] =
      '(' :: (tableOpening table).reverse := by
    simp [structuralText_bare none, separator, none]
  obtain ⟨fixed, reads⟩ := scannedName_glued inside 0
  have named {name : String} (plain : asciiIdentifier name = true) : fixed = name := by
    have scanned := roundTrip.scannedName_eq outside plain
    rw [shape, reads name plain] at scanned
    exact scanned
  have first : asciiIdentifier "a" = true := by decide
  have second : asciiIdentifier "b" = true := by decide
  exact absurd ((named first).symm.trans (named second)) (by decide)

end Statement

/-- Every list of constraints comes back exactly when the text before it is closed. -/
theorem checksRoundTrip_iff (table : TableModel) : ChecksRoundTrip table ↔ ClosedBefore table := by
  constructor
  · intro roundTrip
    have outside : settled table = .outside := by
      have reached : settled table = .outside ∨ settled table = .met ∨ (settled table).Running := by
        rw [settled, read_append, read_cons, read_nil]
        exact neutral_space.step_settled _
      rcases reached with outside | met | running
      · exact outside
      · exact absurd met roundTrip.not_met
      · exact absurd running roundTrip.not_running
    constructor
    · rw [settled, read] at outside
      exact outside
    · exact roundTrip.no_comma outside
  · exact ClosedBefore.roundTrip

/-- The column name is an identifier to the renderer, which writes it bare. To the scan
its first two characters are none, and the word behind them is the keyword. -/
def inspections : TableModel where
  tableName := "inspections"
  primaryKey := "id"
  columns := [
    { name := "id", sqlType := "INTEGER", isPrimaryKey := true },
    { name := "点検check", sqlType := "TEXT", default := some "'none'" }]
  checkConstraints := [⟨"positive_id", "id > 0"⟩]

theorem checksRoundTrip_fails_inspections :
    (∀ constraint ∈ inspections.checkConstraints, Readable constraint) ∧
    (∀ column ∈ inspections.columns, ∀ expression ∈ column.default, balanced expression = true) ∧
    parseSqliteCheckConstraints (renderCreateTableStatement .sqlite inspections) =
      .error .missingExpression ∧
    parseSqliteCheckConstraints (renderCreateTableStatement .sqlite inspections) ≠
      .ok (introspected inspections.checkConstraints) := by
  have fails : parseSqliteCheckConstraints (renderCreateTableStatement .sqlite inspections) =
      .error .missingExpression := by decide +kernel
  refine ⟨by decide, ?_, fails, ?_⟩
  · simp only [inspections, List.forall_mem_cons]
    decide
  · rw [fails]
    intro same
    cases same

end GraphqlOrm.Introspect
