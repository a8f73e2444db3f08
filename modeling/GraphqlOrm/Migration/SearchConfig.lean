import GraphqlOrm.Foundation.JsonText
import GraphqlOrm.Migration.Search

/-!
# Reading a search configuration back

The metadata row of a search index holds its definition as JSON. The writer escapes
quotes only, except for the policy of a JSON path, which the JSON library writes; the
reader is the JSON library. So the definition survives exactly if no text written by
hand has a backslash or a control character.
-/
namespace GraphqlOrm.Migration

open Schema Text Json

/-! ### The reader -/

def parseSearchWeight (value : String) : SearchWeight :=
  if value = "A" then .a else if value = "B" then .b else if value = "C" then .c else .d

def parseSearchStrategy (value : String) : SearchIndexStrategy :=
  if value = "postgres_tsvector" then .postgresTsvector
  else if value = "sqlite_fts5" then .sqliteFts5
  else if value = "mysql_fulltext" then .mysqlFullText
  else if value = "mssql_fulltext" then .mssqlFullText
  else .fallbackTable

def textMember (key : String) (value : Value String) : Option String :=
  (value.get key).bind Value.asStr

/-- The elements of a member that can be read; anything else reads as no element. -/
def arrayMember {α : Type} (key : String) (read : Value String → Option α) (value : Value String) :
    List α :=
  (((value.get key).bind Value.asArray).map fun vs => vs.filterMap read).getD []

def parseSearchField (field : Value String) : Option SearchFieldModel := do
  let fieldName ← textMember "field" field
  let columnName ← textMember "column" field
  return {
    fieldName, columnName
    weight := parseSearchWeight ((textMember "weight" field).getD "D")
    «alias» := textMember "alias" field
    policy := textMember "policy" field }

def parseSearchJsonPath (jsonPath : Value String) : Option SearchJsonPathModel := do
  let fieldName ← textMember "field" jsonPath
  let columnName ← textMember "column" jsonPath
  let path ← textMember "path" jsonPath
  return {
    fieldName, columnName, path
    weight := parseSearchWeight ((textMember "weight" jsonPath).getD "D")
    policy := textMember "policy" jsonPath }

def parseSearchRelation (relation : Value String) : Option SearchRelationFieldModel := do
  let relationField ← textMember "relation" relation
  let targetType ← textMember "target" relation
  return {
    relationField, targetType
    fields := arrayMember "fields" Value.asStr relation
    weight := parseSearchWeight ((textMember "weight" relation).getD "D")
    maxItems := ((relation.get "max_items").bind Value.asU64).getD 100
    policy := textMember "policy" relation }

def searchIndexOfValue (value : Value String) : Option SearchIndexModel := do
  let fields := arrayMember "fields" parseSearchField value
  let relations := arrayMember "relations" parseSearchRelation value
  let jsonPaths := arrayMember "json_paths" parseSearchJsonPath value
  let name ← textMember "name" value
  let tableName ← textMember "table" value
  let entityName ← textMember "entity" value
  let primaryKey ← textMember "primary_key" value
  let strategy ← textMember "strategy" value
  return {
    name, tableName, entityName, primaryKey
    strategy := parseSearchStrategy strategy
    language := (textMember "language" value).getD "english"
    tokenizer := (textMember "tokenizer" value).getD "unicode61"
    minTokenLen := ((value.get "min_token_len").bind Value.asU64).getD 2
    fallbackEnabled := ((value.get "fallback_enabled").bind Value.asBool).getD true
    fields, jsonPaths, relations
    readinessTracked := (value.get "readiness").isSome }

def parseSearchIndexConfig (fromStr : String → Option (Value String)) (configJson : String) :
    Option SearchIndexModel :=
  (fromStr configJson).bind searchIndexOfValue

/-! ### The written document -/

def handContent (s : String) : List Char :=
  s.toList.flatMap fun c => if c = '"' then ['\\', '"'] else [c]

def libraryContent (s : String) : List Char := s.toList.flatMap jsonChar

def handText (s : String) : Value (List Char) := .text (handContent s)

def handOption (s : Option String) : Value (List Char) := (s.map handText).getD .null

def libraryOption (s : Option String) : Value (List Char) :=
  (s.map fun s => .text (libraryContent s)).getD .null

def handObject (members : List (String × Value (List Char))) : Value (List Char) :=
  .object (members.map fun m => (m.1.toList, m.2))

def isPlain (s : String) : Bool := s.toList.all fun c => c != '"' && c != '\\' && !(c.val < 0x20)

def fieldTexts (field : SearchFieldModel) : List String :=
  [field.fieldName, field.columnName] ++ field.alias.toList ++ field.policy.toList

def jsonPathTexts (jsonPath : SearchJsonPathModel) : List String :=
  [jsonPath.fieldName, jsonPath.columnName, jsonPath.path]

def relationTexts (relation : SearchRelationFieldModel) : List String :=
  [relation.relationField, relation.targetType] ++ relation.fields ++ relation.policy.toList

def handTexts (index : SearchIndexModel) : List String :=
  [index.name, index.tableName, index.entityName, index.primaryKey, index.language,
    index.tokenizer] ++ index.fields.flatMap fieldTexts ++ index.jsonPaths.flatMap jsonPathTexts ++
    index.relations.flatMap relationTexts

def fieldDocument (field : SearchFieldModel) : Value (List Char) :=
  handObject [("field", handText field.fieldName), ("column", handText field.columnName),
    ("weight", handText field.weight.asStr), ("alias", handOption field.alias),
    ("policy", handOption field.policy)]

def jsonPathDocument (jsonPath : SearchJsonPathModel) : Value (List Char) :=
  handObject [("field", handText jsonPath.fieldName), ("column", handText jsonPath.columnName),
    ("path", handText jsonPath.path), ("weight", handText jsonPath.weight.asStr),
    ("policy", libraryOption jsonPath.policy)]

def relationDocument (relation : SearchRelationFieldModel) : Value (List Char) :=
  handObject [("relation", handText relation.relationField),
    ("target", handText relation.targetType),
    ("fields", .array (relation.fields.map handText)),
    ("weight", handText relation.weight.asStr),
    ("max_items", .number (Number.ofNat relation.maxItems)),
    ("policy", handOption relation.policy)]

def searchDocument (index : SearchIndexModel) : Value (List Char) :=
  handObject ([("name", handText index.name), ("table", handText index.tableName),
    ("entity", handText index.entityName), ("primary_key", handText index.primaryKey),
    ("strategy", handText index.strategy.asStr), ("language", handText index.language),
    ("tokenizer", handText index.tokenizer),
    ("min_token_len", .number (Number.ofNat index.minTokenLen)),
    ("fallback_enabled", .bool index.fallbackEnabled),
    ("fields", .array (index.fields.map fieldDocument)),
    ("json_paths", .array (index.jsonPaths.map jsonPathDocument)),
    ("relations", .array (index.relations.map relationDocument))] ++
    if index.readinessTracked then [("readiness", handText "building")] else [])

variable {α : Type}

section Print

theorem print_handObject (members : List (String × Value (List Char))) :
    (handObject members).print = jsonObject (members.map fun m => (m.1, m.2.print)) := by
  have key (s : String) : String.ofList (quoted s.toList) ++ ":" = "\"" ++ s ++ "\":" := by
    rw [← String.toList_inj]
    simp [quoted]
  rw [handObject, print_object, jsonObject, List.map_map, List.map_map]
  congr 3
  simp [Function.comp_def, key]

theorem print_elements (f : α → Value (List Char)) (xs : List α) :
    (Value.array (xs.map f)).print = jsonArray (xs.map fun x => (f x).print) := by
  rw [print_array, jsonArray, List.map_map]
  rfl

theorem print_handText (s : String) : (handText s).print = quotedMember s := by
  rw [← String.toList_inj]
  simp [handText, Value.print, Value.tokens, Token.chars, quoted, handContent, quotedMember, replace]

theorem print_handOption (s : Option String) : (handOption s).print = optionalMember s := by
  cases s with
  | none => simp [handOption, Value.print, Value.tokens, Token.chars, optionalMember]
  | some s => exact print_handText s

theorem print_libraryOption (s : Option String) : (libraryOption s).print = jsonOptionString s := by
  cases s with
  | none => simp [libraryOption, Value.print, Value.tokens, Token.chars, jsonOptionString]
  | some s =>
    simp [libraryOption, Value.print, Value.tokens, Token.chars, quoted, libraryContent,
      jsonOptionString, jsonString]

theorem print_number (n : Nat) : (Value.number (Number.ofNat n)).print = Nat.repr n := by
  rw [← String.toList_inj]
  simp [Value.print, Value.tokens, Token.chars, Number.ofNat]

theorem print_bool (b : Bool) :
    (Value.bool b).print = if b then "true" else "false" := by
  simp [Value.print, Value.tokens, Token.chars]

/-- The written text is the document. -/
theorem searchIndexConfigJson_eq (index : SearchIndexModel) :
    searchIndexConfigJson index = (searchDocument index).print := by
  have field (f : SearchFieldModel) : (fieldDocument f).print = searchFieldJson f := by
    simp [fieldDocument, searchFieldJson, print_handObject, print_handText, print_handOption]
  have jsonPath (p : SearchJsonPathModel) : (jsonPathDocument p).print = searchJsonPathJson p := by
    simp [jsonPathDocument, searchJsonPathJson, print_handObject, print_handText,
      print_libraryOption]
  have relation (r : SearchRelationFieldModel) :
      (relationDocument r).print = searchRelationJson r := by
    simp [relationDocument, searchRelationJson, print_handObject, print_handText,
      print_handOption, print_elements, print_number]
  have building : quotedMember "building" = "\"building\"" := by decide
  rw [searchIndexConfigJson, searchDocument, print_handObject]
  cases index.readinessTracked <;>
    simp [print_handText, print_elements, print_number, print_bool, field, jsonPath, relation,
      building]

end Print

/-! ### Its texts -/

variable {members : List (String × Value (List Char))} {s : String}

section Texts

variable {P : List Char → Prop}

theorem every_handObject (plain : ∀ s, isPlain s = true → P s.toList)
    (keys : (members.all fun m => isPlain m.1) = true) :
    (handObject members).Every P ↔ ∀ m ∈ members, m.2.Every P := by
  rw [List.all_eq_true] at keys
  simp only [handObject, every_object, List.mem_map, forall_exists_index, and_imp,
    forall_apply_eq_imp_iff₂]
  exact ⟨fun all m mem => (all m mem).2,
    fun all m mem => ⟨plain m.1 (keys m mem), all m mem⟩⟩

theorem every_handText : (handText s).Every P ↔ P (handContent s) := by
  rw [handText, every_text]

theorem every_handOption {s : Option String} :
    (handOption s).Every P ↔ ∀ t ∈ s, P (handContent t) := by
  cases s <;> simp [handOption, every_handText]

theorem every_libraryOption {s : Option String} (library : ∀ s, P (libraryContent s)) :
    (libraryOption s).Every P := by
  cases s <;> simp [libraryOption, library]

theorem handContent_plain (plain : isPlain s = true) : handContent s = s.toList := by
  rw [isPlain, List.all_eq_true] at plain
  have each : ∀ c ∈ s.toList, (if c = '"' then ['\\', '"'] else [c]) = [c] := by
    intro c mem
    have own := plain c mem
    simp only [Bool.and_eq_true, bne_iff_ne] at own
    rw [if_neg own.1.1]
  rw [handContent, List.flatMap_congr each]
  simp

theorem isPlain_weight (weight : SearchWeight) : isPlain weight.asStr = true := by
  cases weight <;> rfl

theorem isPlain_strategy (strategy : SearchIndexStrategy) : isPlain strategy.asStr = true := by
  cases strategy <;> rfl

/-- A property of all plain texts and of everything the library writes holds of the
whole document as soon as it holds of the texts written by hand. -/
theorem every_searchDocument (plain : ∀ s, isPlain s = true → P s.toList)
    (library : ∀ s, P (libraryContent s)) (index : SearchIndexModel) :
    (searchDocument index).Every P ↔ ∀ s ∈ handTexts index, P (handContent s) := by
  have constant {s : String} (own : isPlain s = true) : P (handContent s) := by
    rw [handContent_plain own]
    exact plain s own
  have field (f : SearchFieldModel) :
      (fieldDocument f).Every P ↔ ∀ s ∈ fieldTexts f, P (handContent s) := by
    rw [fieldDocument, every_handObject plain (by simp [isPlain])]
    simp [every_handText, every_handOption, constant (isPlain_weight _), fieldTexts,
      or_imp, forall_and]
  have jsonPath (p : SearchJsonPathModel) :
      (jsonPathDocument p).Every P ↔ ∀ s ∈ jsonPathTexts p, P (handContent s) := by
    rw [jsonPathDocument, every_handObject plain (by simp [isPlain])]
    simp [every_handText, every_libraryOption library, constant (isPlain_weight _), jsonPathTexts]
  have relation (r : SearchRelationFieldModel) :
      (relationDocument r).Every P ↔ ∀ s ∈ relationTexts r, P (handContent s) := by
    rw [relationDocument, every_handObject plain (by simp [isPlain])]
    simp [every_handText, every_handOption, constant (isPlain_weight _), relationTexts,
      or_imp, forall_and]
  have keys : ∀ tracked : Bool, (((if tracked = true then [("readiness", handText "building")]
      else []) : List (String × Value (List Char))).all fun m => isPlain m.1) = true := by
    rintro (_ | _) <;> simp [isPlain]
  rw [searchDocument, every_handObject plain (by rw [List.all_append, keys]; simp [isPlain])]
  have building : P (handContent "building") := constant rfl
  simp only [handTexts, List.forall_mem_append, List.forall_mem_flatMap]
  cases index.readinessTracked <;>
    simp [every_handText, constant (isPlain_strategy _), field, jsonPath, relation, building,
      and_assoc]

end Texts

/-! ### The document read back -/

/-- The definition with every text written by hand replaced by what is read for it. -/
def rereadField (r : String → String) (field : SearchFieldModel) : SearchFieldModel :=
  { field with
    fieldName := r field.fieldName, columnName := r field.columnName
    «alias» := field.alias.map r, policy := field.policy.map r }

def rereadJsonPath (r : String → String) (jsonPath : SearchJsonPathModel) : SearchJsonPathModel :=
  { jsonPath with
    fieldName := r jsonPath.fieldName, columnName := r jsonPath.columnName
    path := r jsonPath.path }

def rereadRelation (r : String → String) (relation : SearchRelationFieldModel) :
    SearchRelationFieldModel :=
  { relation with
    relationField := r relation.relationField, targetType := r relation.targetType
    fields := relation.fields.map r, policy := relation.policy.map r }

def reread (r : String → String) (index : SearchIndexModel) : SearchIndexModel :=
  { index with
    name := r index.name, tableName := r index.tableName, entityName := r index.entityName
    primaryKey := r index.primaryKey, language := r index.language, tokenizer := r index.tokenizer
    fields := index.fields.map (rereadField r)
    jsonPaths := index.jsonPaths.map (rereadJsonPath r)
    relations := index.relations.map (rereadRelation r) }

variable {index : SearchIndexModel}

section Reread

variable {r : String → String}

theorem map_eq_self {f : α → α} {xs : List α} : xs.map f = xs ↔ ∀ x ∈ xs, f x = x := by
  induction xs with
  | nil => simp
  | cons x xs ih => simp [ih]

theorem option_map_eq_self {f : α → α} {x : Option α} :
    x.map f = x ↔ ∀ a ∈ x.toList, f a = a := by
  cases x <;> simp

theorem rereadField_eq_self {field : SearchFieldModel} :
    rereadField r field = field ↔ ∀ s ∈ fieldTexts field, r s = s := by
  obtain ⟨fieldName, columnName, weight, «alias», policy⟩ := field
  simp only [rereadField, fieldTexts, SearchFieldModel.mk.injEq, List.forall_mem_append,
    option_map_eq_self, List.forall_mem_cons, List.not_mem_nil, false_imp_iff, implies_true,
    and_true, true_and, and_assoc]

theorem rereadJsonPath_eq_self {jsonPath : SearchJsonPathModel} :
    rereadJsonPath r jsonPath = jsonPath ↔ ∀ s ∈ jsonPathTexts jsonPath, r s = s := by
  obtain ⟨fieldName, columnName, path, weight, policy⟩ := jsonPath
  simp only [rereadJsonPath, jsonPathTexts, SearchJsonPathModel.mk.injEq, List.forall_mem_cons,
    List.not_mem_nil, false_imp_iff, implies_true, and_true]

theorem rereadRelation_eq_self {relation : SearchRelationFieldModel} :
    rereadRelation r relation = relation ↔ ∀ s ∈ relationTexts relation, r s = s := by
  obtain ⟨relationField, targetType, fields, weight, maxItems, policy⟩ := relation
  simp only [rereadRelation, relationTexts, SearchRelationFieldModel.mk.injEq,
    List.forall_mem_append, option_map_eq_self, map_eq_self, List.forall_mem_cons,
    List.not_mem_nil, false_imp_iff, implies_true, and_true, true_and, and_assoc]

/-- The definition survives exactly if each of those texts does. -/
theorem reread_eq_self :
    reread r index = index ↔ ∀ s ∈ handTexts index, r s = s := by
  obtain ⟨name, tableName, entityName, primaryKey, strategy, language, tokenizer, minTokenLen,
    fallbackEnabled, fields, jsonPaths, relations, readinessTracked⟩ := index
  simp only [reread, handTexts, SearchIndexModel.mk.injEq, List.forall_mem_append,
    List.forall_mem_flatMap, map_eq_self, rereadField_eq_self, rereadJsonPath_eq_self,
    rereadRelation_eq_self, List.forall_mem_cons, List.not_mem_nil, false_imp_iff, implies_true,
    and_true, true_and, and_assoc]

end Reread

section ReadBack

variable {read : List Char → String}

/-- The object that is read for a handwritten one. -/
theorem map_handObject (plain : ∀ s, isPlain s = true → read s.toList = s)
    (keys : (members.all fun m => isPlain m.1) = true) :
    (handObject members).map read = .object (members.map fun m => (m.1, m.2.map read)) := by
  rw [List.all_eq_true] at keys
  rw [handObject, Value.map, mapMembers_eq, List.map_map, Value.object.injEq]
  apply List.map_congr_left
  intro m mem
  simp only [Function.comp_apply, plain m.1 (keys m mem)]

theorem map_handText (s : String) : (handText s).map read = .text (read (handContent s)) := by
  rw [handText, Value.map]

theorem map_handOption (s : Option String) :
    ((handOption s).map read).asStr = s.map fun t => read (handContent t) := by
  cases s with
  | none => simp [handOption, Value.map, Value.asStr]
  | some s => simp [handOption, map_handText, Value.asStr]

theorem map_libraryOption (library : ∀ s, read (libraryContent s) = s) (s : Option String) :
    ((libraryOption s).map read).asStr = s := by
  cases s with
  | none => simp [libraryOption, Value.map, Value.asStr]
  | some s => simp [libraryOption, Value.map, Value.asStr, library]

theorem parseSearchWeight_asStr (weight : SearchWeight) :
    parseSearchWeight weight.asStr = weight := by
  cases weight <;> decide

theorem parseSearchStrategy_asStr (strategy : SearchIndexStrategy) :
    parseSearchStrategy strategy.asStr = strategy := by
  cases strategy <;> decide

/-- Elements that are all read are read in order. -/
theorem filterMap_map_of_some {β γ : Type} {f : α → β} {g : β → Option γ} {h : α → γ} {xs : List α}
    (each : ∀ x ∈ xs, g (f x) = some (h x)) : (xs.map f).filterMap g = xs.map h := by
  induction xs with
  | nil => rfl
  | cons x xs ih =>
    rw [List.map_cons, List.filterMap_cons_some (each x (.head _)),
      ih fun y mem => each y (List.mem_cons_of_mem x mem), List.map_cons]

section

variable (plain : ∀ s, isPlain s = true → read s.toList = s)
include plain

theorem parseSearchField_document (field : SearchFieldModel) :
    parseSearchField ((fieldDocument field).map read) =
      some (rereadField (fun s => read (handContent s)) field) := by
  have weight : read (handContent field.weight.asStr) = field.weight.asStr := by
    rw [handContent_plain (isPlain_weight _), plain _ (isPlain_weight _)]
  rw [fieldDocument, map_handObject plain (by simp [isPlain])]
  simp [parseSearchField, textMember, Value.get, List.lookup_cons, map_handText, map_handOption,
    weight, parseSearchWeight_asStr, rereadField]

theorem parseSearchJsonPath_document (library : ∀ s, read (libraryContent s) = s) (jsonPath : SearchJsonPathModel) :
    parseSearchJsonPath ((jsonPathDocument jsonPath).map read) =
      some (rereadJsonPath (fun s => read (handContent s)) jsonPath) := by
  have weight : read (handContent jsonPath.weight.asStr) = jsonPath.weight.asStr := by
    rw [handContent_plain (isPlain_weight _), plain _ (isPlain_weight _)]
  rw [jsonPathDocument, map_handObject plain (by simp [isPlain])]
  simp [parseSearchJsonPath, textMember, Value.get, List.lookup_cons, map_handText,
    map_libraryOption library, weight, parseSearchWeight_asStr, rereadJsonPath]

theorem parseSearchRelation_document (relation : SearchRelationFieldModel) (bounded : relation.maxItems < 2 ^ 64) :
    parseSearchRelation ((relationDocument relation).map read) =
      some (rereadRelation (fun s => read (handContent s)) relation) := by
  have weight : read (handContent relation.weight.asStr) = relation.weight.asStr := by
    rw [handContent_plain (isPlain_weight _), plain _ (isPlain_weight _)]
  have names : (relation.fields.map handText).map (Value.map read) =
      relation.fields.map fun s => .text (read (handContent s)) := by
    simp [Function.comp_def, map_handText]
  have fields : (relation.fields.map fun s => Value.text (read (handContent s))).filterMap
      Value.asStr = relation.fields.map fun s => read (handContent s) :=
    filterMap_map_of_some fun s _ => rfl
  rw [relationDocument, map_handObject plain (by simp [isPlain])]
  simp [parseSearchRelation, arrayMember, textMember, Value.get, List.lookup_cons, map_handText,
    map_handOption, weight, parseSearchWeight_asStr, rereadRelation,
    Value.map, mapElements_eq, names, fields, Value.asU64_ofNat bounded]

end

def Sized (index : SearchIndexModel) : Prop :=
  index.minTokenLen < 2 ^ 64 ∧ ∀ relation ∈ index.relations, relation.maxItems < 2 ^ 64

/-- The reader gives the definition with each text as it was read. -/
theorem searchIndexOfValue_document (plain : ∀ s, isPlain s = true → read s.toList = s)
    (library : ∀ s, read (libraryContent s) = s) (sized : Sized index) :
    searchIndexOfValue ((searchDocument index).map read) =
      some (reread (fun s => read (handContent s)) index) := by
  have strategy : read (handContent index.strategy.asStr) = index.strategy.asStr := by
    rw [handContent_plain (isPlain_strategy _), plain _ (isPlain_strategy _)]
  have fields : ((index.fields.map fieldDocument).map (Value.map read)).filterMap
      parseSearchField = index.fields.map (rereadField fun s => read (handContent s)) := by
    rw [List.map_map]
    exact filterMap_map_of_some fun field _ => parseSearchField_document plain field
  have jsonPaths : ((index.jsonPaths.map jsonPathDocument).map (Value.map read)).filterMap
      parseSearchJsonPath = index.jsonPaths.map (rereadJsonPath fun s => read (handContent s)) := by
    rw [List.map_map]
    exact filterMap_map_of_some fun path _ => parseSearchJsonPath_document plain library path
  have relations : ((index.relations.map relationDocument).map (Value.map read)).filterMap
      parseSearchRelation = index.relations.map (rereadRelation fun s => read (handContent s)) := by
    rw [List.map_map]
    exact filterMap_map_of_some fun relation mem =>
      parseSearchRelation_document plain relation (sized.2 relation mem)
  rw [searchDocument, map_handObject plain (by split <;> simp [isPlain])]
  cases tracked : index.readinessTracked <;>
    simp only [↓reduceIte, Bool.false_eq_true, List.append_nil, List.cons_append, List.nil_append,
      List.map_cons, List.map_nil, Value.map, mapElements_eq, map_handText] <;>
    simp [searchIndexOfValue, arrayMember, textMember, Value.get, List.lookup_cons,
      strategy, parseSearchStrategy_asStr, reread, fields, jsonPaths, relations, tracked,
      Value.asU64_ofNat sized.1, -List.map_map]

end ReadBack

/-! ### Which texts survive -/

def Clean (s : String) : Prop := ∀ c ∈ s.toList, c ≠ '\\' ∧ ¬c.val < 0x20

instance (s : String) : Decidable (Clean s) :=
  List.decidableBAll (fun c => c ≠ '\\' ∧ ¬c.val < 0x20) s.toList

def handChar (c : Char) : List Char := if c = '"' then ['\\', '"'] else [c]

theorem handContent_eq (s : String) : handContent s = s.toList.flatMap handChar := rfl

theorem handChar_other {c : Char} (other : c ≠ '"') : handChar c = [c] := if_neg other

theorem guarded_handContent (s : String) : Guarded (handContent s) := by
  refine Guarded.flatMap (fun c => ?_) s.toList
  by_cases quote : c = '"'
  · simp only [quote, ↓reduceIte]
    exact .escaped .nil
  · simp only [quote, ↓reduceIte]
    exact .cons quote .nil

theorem guarded_plain (plain : isPlain s = true) : Guarded s.toList := by
  rw [← handContent_plain plain]
  exact guarded_handContent s

theorem guarded_libraryContent (s : String) : Guarded (libraryContent s) :=
  Guarded.flatMap guarded_jsonChar s.toList

theorem decode_handContent (clean : Clean s) :
    decode (handContent s) = some s.toList := by
  refine decode_flatMap fun c mem seen => ?_
  obtain ⟨backslash, control⟩ := clean c mem
  by_cases quote : c = '"'
  · subst quote
    rfl
  · simp [quote, stepText, backslash, control]

theorem decode_plain (plain : isPlain s = true) : decode s.toList = some s.toList := by
  have clean : Clean s := by
    intro c mem
    have own := List.all_eq_true.mp plain c mem
    simp only [Bool.and_eq_true, bne_iff_ne, Bool.not_eq_true', decide_eq_false_iff_not] at own
    exact ⟨own.1.2, own.2⟩
  have decoded := decode_handContent clean
  rwa [handContent_plain plain] at decoded

/-- A decoded text is never longer than the text that was written, and it is shorter
if that has a backslash: the backslash opens an escape, which stands for one character. -/
theorem decoded_length {cs value : List Char} {tokens : List (Token String)} {mode : Mode}
    (inside : mode.Inside)
    (ended : run ⟨tokens, mode⟩ (cs.flatMap handChar) = some ⟨tokens, .text value⟩) :
    value.length ≤ mode.seen.length + cs.length ∧
      ∀ seen, mode = .text seen → '\\' ∈ cs → value.length < seen.length + cs.length := by
  induction cs generalizing mode with
  | nil =>
    cases ended
    simp [Mode.seen]
  | cons c cs ih =>
    rw [List.flatMap_cons, run_append] at ended
    by_cases quote : c = '"'
    · subst quote
      -- Only in a text is the pair of backslash and quote read as a quote.
      cases mode with
      | outside word => cases inside
      | text seen =>
        have inner := ih (show (Mode.text (seen ++ ['"'])).Inside from trivial) ended
        simp only [Mode.seen, List.length_append, List.length_cons, List.length_nil] at inner ⊢
        refine ⟨by omega, fun _ same mem => ?_⟩
        cases same
        have later := inner.2 _ rfl (by simpa using mem)
        simp only [List.length_append, List.length_cons, List.length_nil] at later
        omega
      | escape seen =>
        have grown := run_tokens ended
        simp at grown
      | unicode seen high digits | paired seen high | pairedEscape seen high => cases ended
    · rw [handChar_other quote, run_cons] at ended
      rcases step_inside inside quote with stopped | ⟨next, inner, moved⟩
      · rw [stopped] at ended
        cases ended
      · rw [moved, Option.bind_some, run_nil, Option.bind_some] at ended
        have grown := inner.grown
        obtain ⟨bound, strict⟩ := ih inner.inside ended
        rw [List.length_cons]
        refine ⟨by omega, fun seen same mem => ?_⟩
        subst same
        by_cases backslash : c = '\\'
        · subst backslash
          cases moved
          simp only [Mode.seen] at bound
          omega
        · have here : next = .text (seen ++ [c]) := by
            simp only [step_text, stepText, if_neg quote, if_neg backslash] at moved
            split at moved
            · cases moved
            · cases moved
              rfl
          subst here
          have later := strict _ rfl (List.mem_of_ne_of_mem (Ne.symm backslash) mem)
          simp only [List.length_append, List.length_cons, List.length_nil] at later
          omega

/-- Without backslashes, only a control character can stop the lexer. -/
theorem controls_of_run {cs value seen : List Char} {tokens : List (Token String)}
    (plain : '\\' ∉ cs)
    (ended : run ⟨tokens, .text seen⟩ (cs.flatMap handChar) = some ⟨tokens, .text value⟩) :
    ∀ c ∈ cs, ¬c.val < 0x20 := by
  induction cs generalizing seen with
  | nil => simp
  | cons c cs ih =>
    rw [List.mem_cons, not_or] at plain
    rw [List.flatMap_cons, run_append] at ended
    rw [List.forall_mem_cons]
    by_cases quote : c = '"'
    · subst quote
      exact ⟨by decide, ih plain.2 ended⟩
    · rw [handChar_other quote, run_cons, step_text, stepText, if_neg quote,
        if_neg (Ne.symm plain.1)] at ended
      split at ended
      · cases ended
      next visible => exact ⟨visible, ih plain.2 ended⟩

theorem decode_handContent_iff (s : String) :
    decode (handContent s) = some s.toList ↔ Clean s := by
  refine ⟨fun decoded => ?_, decode_handContent⟩
  have ended := run_of_decode decoded []
  rw [handContent_eq] at ended
  have plain : '\\' ∉ s.toList := by
    intro mem
    have shorter := (decoded_length (show (Mode.text []).Inside from trivial) ended).2 [] rfl mem
    simp at shorter
  have visible := controls_of_run plain ended
  intro c mem
  exact ⟨fun backslash => plain (backslash ▸ mem), visible c mem⟩

/-! ### The round trip -/

def readContent (content : List Char) : String := String.ofList ((decode content).getD [])

theorem readContent_of_decode {content : List Char} (decoded : decode content = some s.toList) :
    readContent content = s := by
  rw [readContent, decoded, Option.getD_some, String.ofList_toList]

theorem readContent_plain (plain : isPlain s = true) : readContent s.toList = s :=
  readContent_of_decode (decode_plain plain)

theorem readContent_library (s : String) : readContent (libraryContent s) = s :=
  readContent_of_decode (decode_jsonChar s)

theorem guarded_searchDocument (index : SearchIndexModel) :
    (searchDocument index).Every Guarded :=
  (every_searchDocument (fun _ plain => guarded_plain plain) guarded_libraryContent index).mpr
    fun s _ => guarded_handContent s

section Fits

variable {read : List Char → String} {depth : Nat}

theorem fits_handObject (each : ∀ m ∈ members, (m.2.map read).Fits depth) :
    ((handObject members).map read).Fits (depth + 1) := by
  rw [handObject, Value.map, mapMembers_eq]
  apply Value.fits_object
  simp only [List.map_map, List.mem_map, Function.comp_apply, forall_exists_index, and_imp,
    forall_apply_eq_imp_iff₂]
  exact each

theorem fits_elements {f : α → Value (List Char)} {xs : List α}
    (each : ∀ x ∈ xs, ((f x).map read).Fits depth) :
    ((Value.array (xs.map f)).map read).Fits (depth + 1) := by
  rw [Value.map, mapElements_eq]
  apply Value.fits_array
  simpa using each

theorem fits_handText (s : String) : ((handText s).map read).Fits depth := by
  rw [map_handText]
  exact Value.fits_text _

theorem fits_handOption (s : Option String) : ((handOption s).map read).Fits depth := by
  cases s with
  | none => simp [handOption, Value.map]
  | some s => exact fits_handText s

theorem fits_libraryOption (s : Option String) : ((libraryOption s).map read).Fits depth := by
  cases s <;> simp [libraryOption, Value.map]

/-- The document is a few levels deep and its numbers are sizes. -/
theorem fits_searchDocument (sized : Sized index) :
    ((searchDocument index).map read).Fits 127 := by
  have field (f : SearchFieldModel) : ((fieldDocument f).map read).Fits 125 := by
    apply fits_handObject
    simp [fits_handText, fits_handOption]
  have jsonPath (p : SearchJsonPathModel) : ((jsonPathDocument p).map read).Fits 125 := by
    apply fits_handObject
    simp [fits_handText, fits_libraryOption]
  have relation (r : SearchRelationFieldModel) (mem : r ∈ index.relations) :
      ((relationDocument r).map read).Fits 125 := by
    apply fits_handObject
    have names : ((Value.array (r.fields.map handText)).map read).Fits 124 :=
      fits_elements fun s _ => fits_handText s
    have items : ((Value.number (Number.ofNat r.maxItems)).map read).Fits 124 := by
      rw [Value.map]
      exact Value.fits_ofNat (sized.2 r mem)
    simp [fits_handText, fits_handOption, names, items]
  apply fits_handObject
  have fields := fits_elements fun f (_ : f ∈ index.fields) => field f
  have jsonPaths := fits_elements fun p (_ : p ∈ index.jsonPaths) => jsonPath p
  have relations := fits_elements relation
  have length : ((Value.number (Number.ofNat index.minTokenLen)).map read).Fits 126 := by
    rw [Value.map]
    exact Value.fits_ofNat sized.1
  have fallback : ((Value.bool index.fallbackEnabled).map read).Fits 126 := by simp [Value.map]
  cases index.readinessTracked <;>
    simp [fits_handText, fields, jsonPaths, relations, length, fallback]

end Fits

/-- The definition that is read from the metadata row is the one that was written. -/
def RoundTrips (fromStr : String → Option (Value String)) (index : SearchIndexModel) : Prop :=
  parseSearchIndexConfig fromStr (searchIndexConfigJson index) = some index

theorem parse_searchDocument (decodable : ∀ s ∈ handTexts index, decode (handContent s) ≠ none) :
    parse (searchIndexConfigJson index) = some ((searchDocument index).map readContent) := by
  rw [searchIndexConfigJson_eq]
  have decodes : (searchDocument index).Every fun content =>
      decode content = some (readContent content).toList := by
    rw [every_searchDocument]
    · intro s mem
      obtain ⟨value, decoded⟩ := Option.ne_none_iff_exists'.mp (decodable s mem)
      rw [readContent, decoded, Option.getD_some, String.toList_ofList]
    · intro s plain
      rw [readContent_plain plain]
      exact decode_plain plain
    · intro s
      rw [readContent_library]
      exact decode_jsonChar s
  exact parse_print decodes

/-- A definition that is read back has only clean texts: any other text is decoded to
something shorter, or leads the reader astray. -/
theorem clean_of_roundTrips {fromStr : String → Option (Value String)} (reader : IsReader fromStr)
    (sized : Sized index) (trips : RoundTrips fromStr index) :
    ∀ s ∈ handTexts index, Clean s := by
  obtain ⟨value, read, same⟩ := Option.bind_eq_some_iff.mp trips
  have parsed := reader.sound _ _ read
  have decodable : ∀ s ∈ handTexts index, decode (handContent s) ≠ none := by
    intro t own undecoded
    have inside : ¬(searchDocument index).Every fun content => decode content ≠ none := by
      rw [every_searchDocument]
      · exact fun all => all t own undecoded
      · exact fun u plain => by simp [decode_plain plain]
      · exact fun u => by simp [libraryContent, decode_jsonChar]
    simp only [Value.Every, not_forall, not_not] at inside
    obtain ⟨content, written, fails⟩ := inside
    rw [searchIndexConfigJson_eq,
      parse_print_none (guarded_searchDocument index) written fails] at parsed
    cases parsed
  rw [parse_searchDocument decodable, Option.some.injEq] at parsed
  rw [← parsed, searchIndexOfValue_document (fun s plain => readContent_plain plain)
    readContent_library sized, Option.some.injEq, reread_eq_self] at same
  intro s mem
  obtain ⟨decoded, read⟩ := Option.ne_none_iff_exists'.mp (decodable s mem)
  have own := same s mem
  rw [readContent, read, Option.getD_some] at own
  rw [← decode_handContent_iff, read, ← own, String.toList_ofList]

theorem roundTrips_of_clean {fromStr : String → Option (Value String)} (reader : IsReader fromStr)
    (sized : Sized index) (clean : ∀ s ∈ handTexts index, Clean s) :
    RoundTrips fromStr index := by
  have decoded : ∀ s ∈ handTexts index, decode (handContent s) = some s.toList :=
    fun s mem => decode_handContent (clean s mem)
  have read := reader.complete _ _ (parse_searchDocument fun s mem => by simp [decoded s mem])
    (fits_searchDocument sized)
  have same : reread (fun s => readContent (handContent s)) index = index :=
    reread_eq_self.mpr fun s mem => readContent_of_decode (decoded s mem)
  rw [RoundTrips, parseSearchIndexConfig, read, Option.bind_some,
    searchIndexOfValue_document (fun s plain => readContent_plain plain) readContent_library sized,
    same]

/-- A definition is read back as it was written exactly if no text written by hand has
a backslash or a control character. -/
theorem roundTrips_iff {fromStr : String → Option (Value String)} (reader : IsReader fromStr)
    {index : SearchIndexModel} (sized : Sized index) :
    RoundTrips fromStr index ↔ ∀ s ∈ handTexts index, Clean s :=
  ⟨clean_of_roundTrips reader sized, roundTrips_of_clean reader sized⟩

def postSearch (path : String) : SearchIndexModel where
  name := "posts_search"
  tableName := "posts"
  entityName := "Post"
  primaryKey := "id"
  strategy := .sqliteFts5
  language := "english"
  tokenizer := "unicode61"
  minTokenLen := 2
  fallbackEnabled := true
  fields := [⟨"title", "title", .a, some "\"headline\"", none⟩]
  jsonPaths := [⟨"meta", "meta", path, .c, some "a\\b"⟩]
  relations := [⟨"author", "User", ["name"], .b, 10, none⟩]
  readinessTracked := true

theorem sized_postSearch (path : String) : Sized (postSearch path) := by
  simp [Sized, postSearch]

theorem roundTrips_iff_postSearch :
    Sized (postSearch "$.tags") ∧ (RoundTrips parse (postSearch "$.tags") ↔
      ∀ s ∈ handTexts (postSearch "$.tags"), Clean s) :=
  ⟨sized_postSearch _, roundTrips_iff isReader_parse (sized_postSearch _)⟩

/-- The path of a key with a backslash is lost: `\b` is read as a backspace. -/
theorem roundTrips_fails_backslash :
    Sized (postSearch "$.a\\b") ∧ ¬RoundTrips parse (postSearch "$.a\\b") := by
  refine ⟨sized_postSearch _, fun trips => ?_⟩
  have clean := clean_of_roundTrips isReader_parse (sized_postSearch _) trips "$.a\\b"
    (by simp [handTexts, postSearch, jsonPathTexts])
  exact absurd clean (by decide)

end GraphqlOrm.Migration
