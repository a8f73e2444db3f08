import GraphqlOrm.Runtime.RelationGrants
import GraphqlOrm.Runtime.Scoping

/-!
# Embedded predicates

The statements that embed predicates, with the row sources that their clauses introduce.
All but one call the predicate's row by the name of its table; the read of linked keys
calls it by an alias, which the subqueries of relation nodes do not know.
-/
namespace GraphqlOrm.Runtime

open Outcome
open Schema (DatabaseBackend)
open Sql
open Text (join Within Follows within_join)

variable {φ : Type}

/-! ### Row sources -/

/-- A source of rows in a statement. The subject is the source whose rows the predicate is
about. -/
inductive RowSource where
  | table (keyword table : String) («alias» : Option String) (subject : Bool)
  | documents (query : String)

namespace RowSource

def text (backend : DatabaseBackend) : RowSource → String
  | .table keyword physical none _ => keyword ++ backend.quoteIdentifier physical
  | .table keyword physical (some name) _ =>
    keyword ++ backend.quoteIdentifier physical ++ " AS " ++ backend.quoteIdentifier name
  | .documents query => " JOIN (" ++ query ++ ") AS " ++ SEARCH_ALIAS

def item (columnsOf : String → List String) : RowSource → Item (Option Nat)
  | .table _ physical name subject =>
    ⟨name.getD physical, columnsOf physical, if subject then some 0 else none⟩
  | .documents _ => ⟨SEARCH_ALIAS, [SEARCH_KEY, SEARCH_SCORE], none⟩

end RowSource

/-! ### Statements -/

def RowAction.keyword : RowAction → String
  | update => "UPDATE "
  | delete => "DELETE FROM "

/-- A statement that embeds predicates, with its inputs. -/
inductive Embedding (φ : Type) where
  | read (request : RuntimeReadRequest φ)
    (decode : String → Except RuntimeQueryError (List (RuntimeValue φ) × Option φ))
  | select (table : String) (projection : List RuntimeFieldHandle)
    (key : List (RuntimeFieldHandle × RuntimeValue φ)) (predicate : Option (RuntimePredicate φ))
    (lock : Bool)
  | write (action : RowAction) (table : String) (fields : List (RuntimeFieldHandle × RuntimeValue φ))
    (refreshed : List String) (key : List (RuntimeFieldHandle × RuntimeValue φ))
    (grant expected : Option (RuntimePredicate φ)) (returning : List RuntimeFieldHandle)
  | admission (table : String) (fields : List RuntimeFieldHandle)
    (batch : List (List (RuntimeValue φ))) (visible : Option (RuntimePredicate φ))
  | linked (side : LinkSide) (key : List (RuntimeValue φ)) (visible : Option (RuntimePredicate φ))
    (limit : Nat)

namespace Embedding

/-- The statements as they are sent; none if the request is refused. -/
def statements (backend : DatabaseBackend) (limits : RuntimeQueryLimits) :
    Embedding φ → List (Rendered φ)
  | read request decode =>
    match renderRequest backend request decode with
    | .ok rendered => rendered.rows :: rendered.count.toList
    | .error _ => []
  | select table projection key predicate lock =>
    (runtimeSelect backend table projection key predicate lock limits).toOption.toList
  | write action table fields refreshed key grant expected returning =>
    (runtimeWriteSql backend action table fields refreshed key grant expected returning
      limits).toOption.toList
  | admission table fields batch visible =>
    (admitLinkTargets backend table fields batch visible limits).toOption.toList
  | linked side key visible limit =>
    (linkedKeys backend side key visible limit limits).toOption.toList

def table : Embedding φ → String
  | read request _ => request.collection.physicalTable
  | select table _ _ _ _ => table
  | write _ table _ _ _ _ _ _ => table
  | admission table _ _ _ => table
  | linked side _ _ _ => side.otherTable

def predicates : Embedding φ → List (RuntimePredicate φ)
  | read request _ => request.predicate.toList
  | select _ _ _ predicate _ => predicate.toList
  | write _ _ _ _ _ grant expected _ => grant.toList ++ expected.toList
  | admission _ _ _ visible => visible.toList
  | linked _ _ visible _ => visible.toList

def searchSource (backend : DatabaseBackend) (search : RuntimeSearchRequest φ) : RowSource :=
  .documents (search.documents backend)

/-- The row sources of the clauses around a predicate, from the outermost clause inwards. -/
def sources (backend : DatabaseBackend) : Embedding φ → List (List RowSource)
  | read request _ =>
    [.table " FROM " request.collection.physicalTable none true ::
      (request.search.map (searchSource backend)).toList]
  | select table _ _ _ _ => [[.table " FROM " table none true]]
  | write action table _ _ _ _ _ _ => [[.table action.keyword table none true]]
  | admission table _ _ _ => [[.table " FROM " table none true]]
  | linked side _ _ _ =>
    [[.table " FROM " side.joinTable (some linkAlias) false],
      [.table " FROM " side.otherTable (some targetAlias) true]]

def clauses (backend : DatabaseBackend) (embedding : Embedding φ) : List String :=
  (embedding.sources backend).flatten.map (RowSource.text backend)

def scopes (backend : DatabaseBackend) (columnsOf : String → List String) (embedding : Embedding φ) :
    Scopes (Option Nat) :=
  (embedding.sources backend).reverse.map (List.map (RowSource.item columnsOf))

end Embedding

/-- The statements contain the predicate behind the clauses that introduce its row sources,
and there each of its references denotes the row that is meant, whatever further columns
the tables have. -/
structure WellEmbedded (schema : RuntimeSchema) (backend : DatabaseBackend) (outward : Bool)
    (limits : RuntimeQueryLimits) (embedding : Embedding φ) (predicate : RuntimePredicate φ) :
    Prop where
  contained : ∀ statement ∈ embedding.statements backend limits, ∃ n,
    Follows (embedding.clauses backend)
      ((factor backend none 0 n predicate.expr).text (spelling backend)) statement.sql
  denotes : ∀ columnsOf, Knows schema columnsOf → ∀ n,
    (factor backend none 0 n predicate.expr).denotations outward columnsOf 0
        (embedding.scopes backend columnsOf) =
      (predicate.expr.intended backend 0).map (fun level => some (some level))

/-- No name of the statement stands in the way of the names that the predicate uses. -/
def Embedding.Clear (embedding : Embedding φ) (predicate : RuntimePredicate φ) : Prop :=
  match embedding with
  | .linked side _ _ _ => predicate.expr.hasRelationFilters = true → side.otherTable = targetAlias
  | .read request _ =>
    (request.search.isSome = true →
      ∀ column ∈ predicate.expr.ownColumns, column ≠ SEARCH_KEY ∧ column ≠ SEARCH_SCORE) ∧
    (predicate.expr.hasRelationFilters = true →
      request.collection.physicalTable ≠ relationAlias 0 ∧
        (request.search.isSome = true → request.collection.physicalTable ≠ SEARCH_ALIAS))
  | .select table _ _ _ _ | .write _ table _ _ _ _ _ _ | .admission table _ _ _ =>
    predicate.expr.hasRelationFilters = true → table ≠ relationAlias 0

/-! ### The predicate in the text -/

section Contained

variable {backend : DatabaseBackend} {limits : RuntimeQueryLimits} {predicate : RuntimePredicate φ}

/-- The text of the predicate follows the clauses, numbered from some place on. -/
def Contains (backend : DatabaseBackend) (clauses : List String) (predicate : RuntimePredicate φ)
    (whole : String) : Prop :=
  ∃ n, Follows clauses ((factor backend none 0 n predicate.expr).text (spelling backend)) whole

variable {clauses : List String}

theorem Contains.within {part whole : String} (contains : Contains backend clauses predicate part)
    (occurs : Within part whole) :
    Contains backend clauses predicate whole := by
  obtain ⟨n, follows⟩ := contains
  exact ⟨n, follows.within occurs⟩

theorem Contains.after {part : String} (contains : Contains backend clauses predicate part)
    (first : String) :
    Contains backend clauses predicate (first ++ part) :=
  contains.within ⟨first, "", by simp⟩

theorem Contains.behind {after : String} (contains : Contains backend clauses predicate after)
    (before clause : String) :
    Contains backend (clause :: clauses) predicate (before ++ clause ++ after) := by
  obtain ⟨n, follows⟩ := contains
  exact ⟨n, before, after, rfl, follows⟩

variable {values : List (SqlValue φ)} {rendered : String × List (SqlValue φ)} {condition : String}

section Proper

variable {schema : RuntimeSchema} {collection : RuntimeCollection}
  (proper : Proper schema collection predicate.expr)
include proper

theorem render_contains (ok : predicate.render backend values = some rendered) :
    Contains backend [] predicate rendered.1 := by
  have text : predicate.render backend values = _ := renderScoped_eq proper none 0 values
  rw [text] at ok
  rw [← Option.some.inj ok]
  exact ⟨values.length, .refl _⟩

theorem guarded_contains (ok : guarded backend condition predicate values = .ok rendered) :
    Contains backend [] predicate rendered.1 := by
  obtain ⟨⟨text, later⟩, found, made⟩ := bind_eq_ok.mp ok
  cases made
  exact (render_contains proper (okOr_eq_ok.mp found)).within
    ⟨"(" ++ condition ++ ") AND (", ")", rfl⟩

end Proper

theorem guarded_keeps (contains : Contains backend [] predicate condition)
    {other : RuntimePredicate φ} (ok : guarded backend condition other values = .ok rendered) :
    Contains backend [] predicate rendered.1 := by
  obtain ⟨⟨text, later⟩, _, made⟩ := bind_eq_ok.mp ok
  cases made
  exact contains.within ⟨"(", ") AND (" ++ text ++ ")", by simp [String.append_assoc]⟩

theorem guardedBy_keeps (contains : Contains backend [] predicate condition)
    {others : List (RuntimePredicate φ)}
    (ok : guardedBy backend condition others values = .ok rendered) :
    Contains backend [] predicate rendered.1 := by
  induction others generalizing condition values with
  | nil =>
    cases ok
    exact contains
  | cons other rest ih =>
    obtain ⟨_, guard, later⟩ := bind_eq_ok.mp ok
    exact ih (guarded_keeps contains guard) later

/-- Every one of the predicates is in the condition that they guard. -/
theorem guardedBy_contains {schema : RuntimeSchema} {collection : RuntimeCollection}
    (proper : Proper schema collection predicate.expr) {predicates : List (RuntimePredicate φ)}
    (mem : predicate ∈ predicates)
    (ok : guardedBy backend condition predicates values = .ok rendered) :
    Contains backend [] predicate rendered.1 := by
  induction predicates generalizing condition values with
  | nil => cases mem
  | cons other rest ih =>
    obtain ⟨_, guard, later⟩ := bind_eq_ok.mp ok
    rcases List.mem_cons.mp mem with rfl | among
    · exact guardedBy_keeps (guarded_contains proper guard) later
    · exact ih among later

theorem mem_toOption {ε α : Type} {x : Except ε α} {a : α} (mem : a ∈ x.toOption.toList) :
    x = .ok a := by
  cases x with
  | error => cases mem
  | ok b =>
    rw [List.mem_singleton.mp (show a ∈ [b] from mem)]

variable {statement : Rendered φ}

section Statements

variable {schema : RuntimeSchema} {collection : RuntimeCollection}
  (proper : Proper schema collection predicate.expr)
include proper

theorem runtimeSelect_contains {table : String} {projection : List RuntimeFieldHandle}
    {key : List (RuntimeFieldHandle × RuntimeValue φ)} {guard : Option (RuntimePredicate φ)}
    (mem : predicate ∈ guard.toList) {lock : Bool}
    (ok : runtimeSelect backend table projection key guard lock limits = .ok statement) :
    Contains backend [" FROM " ++ backend.quoteIdentifier table] predicate statement.sql := by
  obtain ⟨⟨condition, values⟩, guarded, rest⟩ := bind_eq_ok.mp ok
  obtain ⟨_, _, made⟩ := bind_eq_ok.mp rest
  cases made
  have inside := guardedBy_contains proper mem guarded
  refine Contains.within ((inside.within ⟨" WHERE ", " LIMIT 2" ++ lockClause backend lock
    " FOR UPDATE", rfl⟩).behind ("SELECT " ++ columnList backend projection) _) ⟨"", "", ?_⟩
  simp [String.append_assoc]

theorem runtimeWriteSql_contains {action : RowAction} {table : String}
    {fields : List (RuntimeFieldHandle × RuntimeValue φ)} {refreshed : List String}
    {key : List (RuntimeFieldHandle × RuntimeValue φ)}
    {grant expected : Option (RuntimePredicate φ)}
    (mem : predicate ∈ grant.toList ++ expected.toList) {returning : List RuntimeFieldHandle}
    (ok : runtimeWriteSql backend action table fields refreshed key grant expected returning limits =
      .ok statement) :
    Contains backend [action.keyword ++ backend.quoteIdentifier table] predicate statement.sql := by
  obtain ⟨⟨condition, values⟩, guarded, rest⟩ := bind_eq_ok.mp ok
  obtain ⟨_, _, made⟩ := bind_eq_ok.mp rest
  cases made
  have inside := guardedBy_contains proper mem guarded
  cases action with
  | update =>
    let assigned := (bindEach (fieldAssignment backend) fields []).1 ++
      refreshed.map fun column =>
        backend.quoteIdentifier column ++ " = " ++ runtimeDatetimeNowSql backend
    refine Contains.within ((inside.within ⟨" SET " ++ join ", " assigned ++ " WHERE ",
      " RETURNING " ++ columnList backend returning, rfl⟩).behind "" _) ⟨"", "", ?_⟩
    simp [String.append_assoc, RowAction.keyword, assigned]
  | delete =>
    refine Contains.within ((inside.within ⟨" WHERE ", " RETURNING " ++
      columnList backend returning, rfl⟩).behind "" _) ⟨"", "", ?_⟩
    simp [String.append_assoc, RowAction.keyword]

theorem admitLinkTargets_contains {table : String} {fields : List RuntimeFieldHandle}
    {batch : List (List (RuntimeValue φ))}
    (ok : admitLinkTargets backend table fields batch (some predicate) limits = .ok statement) :
    Contains backend [" FROM " ++ backend.quoteIdentifier table] predicate statement.sql := by
  obtain ⟨⟨text, values⟩, rendered, rest⟩ := bind_eq_ok.mp ok
  obtain ⟨_, joined, rest⟩ := bind_eq_ok.mp rest
  cases joined
  obtain ⟨_, _, made⟩ := bind_eq_ok.mp rest
  cases made
  have inside := render_contains proper (okOr_eq_ok.mp rendered)
  refine Contains.within ((inside.within ⟨" WHERE (" ++ columnList backend fields ++ ") IN (" ++
    join ", " (bindEach (keyTuple backend fields) batch []).1 ++ ") AND (", ")" ++
      lockClause backend true " FOR KEY SHARE", rfl⟩).behind
        ("SELECT 1 AS " ++ backend.quoteIdentifier "graphql_orm_admitted") _) ⟨"", "", ?_⟩
  rw [← String.toList_inj]
  simp

theorem linkedKeys_contains {side : LinkSide} {key : List (RuntimeValue φ)} {limit : Nat}
    (ok : linkedKeys backend side key (some predicate) limit limits = .ok statement) :
    Contains backend [" FROM " ++ backend.quoteIdentifier side.joinTable ++ " AS " ++
        backend.quoteIdentifier linkAlias,
      " FROM " ++ backend.quoteIdentifier side.otherTable ++ " AS " ++
        backend.quoteIdentifier targetAlias] predicate statement.sql := by
  obtain ⟨⟨condition, values⟩, visibility, rest⟩ := bind_eq_ok.mp ok
  obtain ⟨⟨text, values⟩, rendered, spelled⟩ := bind_eq_ok.mp visibility
  cases spelled
  obtain ⟨_, joined, rest⟩ := bind_eq_ok.mp rest
  cases joined
  obtain ⟨_, _, made⟩ := bind_eq_ok.mp rest
  cases made
  have inside := render_contains proper (okOr_eq_ok.mp rendered)
  let correlation := join " AND " (side.other.map fun entry =>
    backend.quoteIdentifier targetAlias ++ "." ++ backend.quoteIdentifier entry.1.physicalColumn ++
      " = " ++ linkColumn backend entry.2)
  -- The condition is the last one of the link rows, so it stands behind both clauses.
  have nested := (inside.within ⟨" WHERE " ++ correlation ++ " AND (", "))", rfl⟩).behind
    "EXISTS (SELECT 1" (" FROM " ++ backend.quoteIdentifier side.otherTable ++ " AS " ++
      backend.quoteIdentifier targetAlias)
  let conditions := (bindEach
    (fun entry => assignment backend (linkColumn backend entry.1.2) entry.1.1 entry.2)
    (side.own.zip key) []).1
  let condition := "EXISTS (SELECT 1 FROM " ++ backend.quoteIdentifier side.otherTable ++ " AS " ++
    backend.quoteIdentifier targetAlias ++ " WHERE " ++ correlation ++ " AND (" ++ text ++ "))"
  have spelled : Contains backend _ predicate condition := nested.within ⟨"", "", by
    rw [← String.toList_inj]
    simp [condition]⟩
  have among : condition ∈ conditions ++ [condition] :=
    List.mem_append_right _ (.head _)
  have joined := spelled.within (@within_join " AND " _ _ among)
  refine Contains.within ((joined.within ⟨" WHERE ", " ORDER BY " ++
    join ", " (side.other.map fun entry => linkColumn backend entry.2) ++ " LIMIT " ++
    (min (limit + 1) (2 ^ 64 - 1)).repr ++ lockClause backend true " FOR UPDATE", rfl⟩).behind
      ("SELECT " ++ join ", " (side.other.map fun entry =>
        linkColumn backend entry.2 ++ " AS " ++ backend.quoteIdentifier entry.1.physicalColumn)) _)
          ⟨"", "", ?_⟩
  rw [← String.toList_inj]
  simp [conditions, condition, correlation]

theorem renderFilter_contains {filter : List String × List (SqlValue φ)}
    (ok : renderFilter backend (some predicate) values = some filter) :
    ∃ text ∈ filter.1, Contains backend [] predicate text := by
  obtain ⟨rendered, found, made⟩ := Option.map_eq_some_iff.mp ok
  rw [← made]
  exact ⟨rendered.1, .head _, render_contains proper found⟩

omit proper in
theorem whereClause_contains {text : String} (contains : Contains backend [] predicate text)
    {conditions : List String} (mem : text ∈ conditions) :
    Contains backend [] predicate (whereClause conditions) := by
  have filled : conditions.isEmpty = false := by
    cases conditions with
    | nil => cases mem
    | cons => rfl
  rw [whereClause, filled, if_neg Bool.false_ne_true]
  exact (contains.within (@within_join " AND " _ _ mem)).within ⟨" WHERE ", "", by simp⟩

variable {request : RuntimeReadRequest φ}

theorem renderConditions_contains (given : request.predicate = some predicate)
    {decode : String → Except RuntimeQueryError (List (RuntimeValue φ) × Option φ)}
    {rendered : List String × List (SqlValue φ)}
    (ok : renderConditions backend request decode = .ok rendered) :
    Contains backend [] predicate (whereClause rendered.1) := by
  obtain ⟨⟨filter, values⟩, found, rest⟩ := bind_eq_ok.mp ok
  rw [given] at found
  obtain ⟨text, mem, contains⟩ := renderFilter_contains proper (okOr_eq_ok.mp found)
  -- The filter is among the conditions, with and without a cursor.
  dsimp only at rest
  split at rest
  · cases rest
    exact whereClause_contains contains (List.mem_append_left _ mem)
  · obtain ⟨_, _, rest⟩ := bind_eq_ok.mp rest
    obtain ⟨_, _, rest⟩ := bind_eq_ok.mp rest
    obtain ⟨_, _, made⟩ := bind_eq_ok.mp rest
    cases made
    exact whereClause_contains contains
      (List.mem_append_left _ (List.mem_append_left _ mem))

omit proper in
/-- What follows the sources of a read follows their clauses. -/
theorem Contains.read {rest : String} (contains : Contains backend [] predicate rest)
    (before table : String) (search : Option (RuntimeSearchRequest φ)) :
    Contains backend ((RowSource.table " FROM " table none true ::
        (search.map (Embedding.searchSource backend)).toList).map (RowSource.text backend)) predicate
      (before ++ " FROM " ++ backend.quoteIdentifier table ++ (searchJoin backend table search).1 ++
        rest) := by
  cases search with
  | none =>
    change Contains backend [" FROM " ++ backend.quoteIdentifier table] predicate _
    refine Contains.within (contains.behind before _) ⟨"", "", ?_⟩
    simp [searchJoin, String.append_assoc]
  | some search =>
    let condition := " ON CAST(" ++ backend.quoteIdentifier table ++ "." ++
      backend.quoteIdentifier search.keyColumn ++ " AS TEXT) = " ++ SEARCH_ALIAS ++ "." ++ SEARCH_KEY
    change Contains backend [" FROM " ++ backend.quoteIdentifier table,
      " JOIN (" ++ search.documents backend ++ ") AS " ++ SEARCH_ALIAS] predicate _
    have joined : Contains backend [" JOIN (" ++ search.documents backend ++ ") AS " ++ SEARCH_ALIAS]
        predicate ((searchJoin backend table (some search)).1 ++ rest) := by
      have behind : Contains backend [] predicate (condition ++ rest) :=
        contains.after condition
      have same : (searchJoin backend table (some search)).1 ++ rest =
          "" ++ (" JOIN (" ++ search.documents backend ++ ") AS " ++ SEARCH_ALIAS) ++
            (condition ++ rest) := by
        unfold searchJoin renderSearchJoin condition
        -- The names are let alone: their characters do not matter.
        generalize SEARCH_ALIAS = source
        generalize SEARCH_KEY = key
        simp only [String.append_assoc, String.empty_append]
      rw [same]
      exact behind.behind "" _
    have whole := joined.behind before (" FROM " ++ backend.quoteIdentifier table)
    rwa [← String.append_assoc, ← String.append_assoc] at whole

theorem renderCount_contains (given : request.predicate = some predicate)
    {count : Option (Rendered φ)} (ok : renderCount backend request = .ok count) :
    ∀ statement ∈ count, Contains backend ((RowSource.table " FROM " request.collection.physicalTable
      none true :: (request.search.map (Embedding.searchSource backend)).toList).map
        (RowSource.text backend)) predicate statement.sql := by
  intro statement mem
  rw [renderCount] at ok
  split at ok
  · obtain ⟨⟨filter, values⟩, found, rest⟩ := bind_eq_ok.mp ok
    rw [given] at found
    obtain ⟨text, among, contains⟩ := renderFilter_contains proper (okOr_eq_ok.mp found)
    obtain ⟨_, _, made⟩ := bind_eq_ok.mp rest
    cases made
    rw [Option.mem_some] at mem
    rw [← mem]
    exact (whereClause_contains contains (List.mem_append_left _ among)).read _ _ _
  · cases ok
    cases mem

theorem renderRequest_contains (given : request.predicate = some predicate)
    {decode : String → Except RuntimeQueryError (List (RuntimeValue φ) × Option φ)}
    {rendered : RenderedRequest φ} (ok : renderRequest backend request decode = .ok rendered) :
    ∀ statement ∈ rendered.rows :: rendered.count.toList,
      Contains backend ((RowSource.table " FROM " request.collection.physicalTable none true ::
        (request.search.map (Embedding.searchSource backend)).toList).map (RowSource.text backend))
          predicate statement.sql := by
  obtain ⟨_, _, rest⟩ := bind_eq_ok.mp ok
  obtain ⟨⟨conditions, values⟩, found, rest⟩ := bind_eq_ok.mp rest
  obtain ⟨_, _, rest⟩ := bind_eq_ok.mp rest
  obtain ⟨count, counted, made⟩ := bind_eq_ok.mp rest
  cases made
  intro statement mem
  rcases List.mem_cons.mp mem with rfl | later
  · have inside := renderConditions_contains proper given found
    let before := "SELECT " ++ join ", " (request.decodeProjection.fields.map fun field =>
      backend.quoteIdentifier field.physicalColumn) ++
        if request.search.isSome then
          ", " ++ SEARCH_ALIAS ++ "." ++ SEARCH_SCORE ++ " AS " ++ SEARCH_SCORE else ""
    refine Contains.within ((inside.within ⟨"", orderClause backend request ++ " LIMIT " ++
      toString (request.page.size + 1), rfl⟩).read before request.collection.physicalTable
        request.search) ⟨"", "", ?_⟩
    rw [← String.toList_inj]
    simp [before]
  · exact renderCount_contains proper given counted statement (by simpa using later)

end Statements

/-- Every statement of an embedding contains its predicates. -/
theorem Embedding.contains {schema : RuntimeSchema} {collection : RuntimeCollection}
    (proper : Proper schema collection predicate.expr) {embedding : Embedding φ}
    (about : predicate ∈ embedding.predicates)
    (sent : statement ∈ embedding.statements backend limits) :
    Contains backend (embedding.clauses backend) predicate statement.sql := by
  cases embedding with
  | read request decode =>
    have given : request.predicate = some predicate := Option.mem_toList.mp about
    rw [Embedding.statements] at sent
    split at sent
    next rendered ok =>
      rw [Embedding.clauses, Embedding.sources, List.flatten_cons, List.flatten_nil, List.append_nil]
      exact renderRequest_contains proper given ok statement sent
    next => cases sent
  | select table projection key guard lock =>
    exact runtimeSelect_contains proper about (mem_toOption sent)
  | write action table fields refreshed key grant expected returning =>
    exact runtimeWriteSql_contains proper about (mem_toOption sent)
  | admission table fields batch visible =>
    obtain rfl : visible = some predicate := Option.mem_toList.mp about
    exact admitLinkTargets_contains proper (mem_toOption sent)
  | linked side key visible limit =>
    obtain rfl : visible = some predicate := Option.mem_toList.mp about
    exact linkedKeys_contains proper (mem_toOption sent)

end Contained

/-! ### The names in the scopes -/

def everyColumn (schema : RuntimeSchema) : String → List String := fun _ =>
  schema.collections.flatMap fun collection => collection.fields.map (·.physicalColumn)

theorem everyColumn_knows (schema : RuntimeSchema) : Knows schema (everyColumn schema) :=
  fun collection mem _ among =>
    List.mem_flatMap.mpr ⟨collection, mem, List.mem_map_of_mem among⟩

section Scopes

variable {schema : RuntimeSchema} {collection : RuntimeCollection} {expr : PredicateExpr φ}
  {outward : Bool} {columnsOf : String → List String} {table : String}
  {scopes : Scopes (Option Nat)}

/-- The key columns of a relation node of the predicate are columns of its collection. -/
theorem Proper.ownKeys (proper : Proper schema collection expr) {relation : RuntimeRelationHandle}
    (among : relation ∈ expr.ownRelations) :
    relation.keyPairs ≠ [] ∧ ∀ pair ∈ relation.keyPairs, IsFieldOf collection pair.1 := by
  obtain ⟨_, _, joins⟩ := proper.ownRelations relation among
  exact ⟨joins.filled, fun pair key => (joins.pairs pair key).1⟩

/-- A predicate with relation nodes has a key column that it names from inside a subquery. -/
theorem Proper.someKey (proper : Proper schema collection expr)
    (related : expr.hasRelationFilters = true) :
    ∃ relation ∈ expr.ownRelations, ∃ pair ∈ relation.keyPairs, IsFieldOf collection pair.1 := by
  obtain ⟨relation, among⟩ :=
    List.exists_mem_of_ne_nil _ ((hasRelationFilters_iff expr).mp related)
  obtain ⟨filled, fields⟩ := proper.ownKeys among
  obtain ⟨pair, key⟩ := List.exists_mem_of_ne_nil _ filled
  exact ⟨relation, among, pair, key, fields pair key⟩

/-- Under the first alias's own name a key column denotes the subquery's row. -/
theorem Proper.captured (mem : collection ∈ schema.collections)
    (proper : Proper schema collection expr) (related : expr.hasRelationFilters = true)
    (fit : Scoped outward (everyColumn schema) table 0 scopes expr.ownColumns expr.ownRelations) :
    table ≠ relationAlias 0 := by
  rintro rfl
  obtain ⟨relation, among, pair, key, own⟩ := proper.someKey related
  have outer := fit.keys relation among pair key
  have column : pair.1.physicalColumn ∈ (relatedItem (everyColumn schema) relation 0).columns :=
    (everyColumn_knows schema).field own mem
  have inner := @resolve_named _ outward _ scopes _ column
  rw [show (relatedItem (everyColumn schema) relation 0).name = relationAlias 0 from rfl, outer]
    at inner
  cases inner

/-- Past the first alias, the key columns are looked up where the predicate stands. -/
theorem scoped_past (apart : table ≠ relationAlias 0) {columns : List String}
    {relations : List RuntimeRelationHandle} :
    Scoped outward columnsOf table 0 scopes columns relations ↔
      (∀ column ∈ columns, resolve outward scopes { column } = some (some 0)) ∧
        ∀ relation ∈ relations, ∀ pair ∈ relation.keyPairs,
          resolve outward scopes ⟨some table, pair.1.physicalColumn⟩ = some (some 0) := by
  have past (relation : RuntimeRelationHandle) (column : String) :
      resolve outward ([relatedItem columnsOf relation 0] :: scopes) ⟨some table, column⟩ =
        resolve outward scopes ⟨some table, column⟩ := resolve_past outward (Ne.symm apart)
  constructor
  · rintro ⟨own, keys⟩
    refine ⟨own, fun relation among pair key => ?_⟩
    rw [← past relation]
    exact keys relation among pair key
  · rintro ⟨own, keys⟩
    refine ⟨own, fun relation among pair key => ?_⟩
    rw [past relation]
    exact keys relation among pair key

theorem not_related (unrelated : ¬expr.hasRelationFilters = true) : expr.ownRelations = [] := by
  by_contra related
  exact unrelated ((hasRelationFilters_iff expr).mpr related)

section Sites

variable (mem : collection ∈ schema.collections) (proper : Proper schema collection expr)
include mem proper

/-- Its own columns are columns of its table. -/
theorem ownColumn_mem (knows : Knows schema columnsOf) {column : String}
    (among : column ∈ expr.ownColumns) : column ∈ columnsOf collection.physicalTable := by
  obtain ⟨field, own, rfl⟩ := proper.ownColumns column among
  exact knows.field own mem

/-- The table alone. -/
theorem scoped_table_iff :
    (∀ columnsOf, Knows schema columnsOf → Scoped outward columnsOf collection.physicalTable 0
        [[⟨collection.physicalTable, columnsOf collection.physicalTable, some 0⟩]] expr.ownColumns
          expr.ownRelations) ↔
      (expr.hasRelationFilters = true → collection.physicalTable ≠ relationAlias 0) := by
  constructor
  · intro fit related
    exact proper.captured mem related (fit _ (everyColumn_knows schema))
  · intro free columnsOf knows
    have own : ∀ column ∈ expr.ownColumns, resolve outward
        [[⟨collection.physicalTable, columnsOf collection.physicalTable, some 0⟩]]
          { column } = some (some 0) :=
      fun column among => resolve_own outward (ownColumn_mem mem proper knows among)
    by_cases related : expr.hasRelationFilters = true
    · refine (scoped_past (free related)).mpr ⟨own, fun relation among pair key => ?_⟩
      exact @resolve_named _ outward ⟨collection.physicalTable, _, some 0⟩ [] _
        (knows.field ((proper.ownKeys among).2 pair key) mem)
    · rw [not_related related]
      exact ⟨own, fun _ none => absurd none List.not_mem_nil⟩

/-- The table beside the documents of a search. -/
theorem scoped_searched_iff :
    (∀ columnsOf, Knows schema columnsOf → Scoped outward columnsOf collection.physicalTable 0
        [[⟨collection.physicalTable, columnsOf collection.physicalTable, some 0⟩,
          ⟨SEARCH_ALIAS, [SEARCH_KEY, SEARCH_SCORE], none⟩]] expr.ownColumns expr.ownRelations) ↔
      (∀ column ∈ expr.ownColumns, column ≠ SEARCH_KEY ∧ column ≠ SEARCH_SCORE) ∧
        (expr.hasRelationFilters = true →
          collection.physicalTable ≠ relationAlias 0 ∧ collection.physicalTable ≠ SEARCH_ALIAS) := by
  -- A column of both sources is ambiguous, and so is a name of both.
  have column_iff {columnsOf : String → List String} {column : String}
      (known : column ∈ columnsOf collection.physicalTable) :
      resolve outward [[⟨collection.physicalTable, columnsOf collection.physicalTable, some 0⟩,
          ⟨SEARCH_ALIAS, [SEARCH_KEY, SEARCH_SCORE], none⟩]] { column } = some (some 0) ↔
        column ≠ SEARCH_KEY ∧ column ≠ SEARCH_SCORE := by
    by_cases shared : column = SEARCH_KEY ∨ column = SEARCH_SCORE
    · simp [resolve, known, shared]
      tauto
    · simp [resolve, known, shared]
      tauto
  have key_iff {columnsOf : String → List String} {column : String}
      (known : column ∈ columnsOf collection.physicalTable) :
      resolve outward [[⟨collection.physicalTable, columnsOf collection.physicalTable, some 0⟩,
          ⟨SEARCH_ALIAS, [SEARCH_KEY, SEARCH_SCORE], none⟩]]
            ⟨some collection.physicalTable, column⟩ = some (some 0) ↔
        collection.physicalTable ≠ SEARCH_ALIAS := by
    by_cases same : SEARCH_ALIAS = collection.physicalTable
    · simp [resolve, same]
    · simp [resolve, known, same, Ne.symm same]
  constructor
  · intro fit
    have everything := fit _ (everyColumn_knows schema)
    refine ⟨fun column among => ?_, fun related => ?_⟩
    · exact (column_iff (ownColumn_mem mem proper (everyColumn_knows schema) among)).mp
        (everything.own column among)
    · have apart := proper.captured mem related everything
      obtain ⟨relation, among, pair, key, own⟩ := proper.someKey related
      have keys := ((scoped_past apart).mp everything).2 relation among pair key
      exact ⟨apart, (key_iff ((everyColumn_knows schema).field own mem)).mp keys⟩
  · rintro ⟨unshared, free⟩ columnsOf knows
    have own : ∀ column ∈ expr.ownColumns, _ = some (some 0) := fun column among =>
      (column_iff (ownColumn_mem mem proper knows among)).mpr (unshared column among)
    by_cases related : expr.hasRelationFilters = true
    · refine (scoped_past (free related).1).mpr ⟨own, fun relation among pair key => ?_⟩
      exact (key_iff (knows.field ((proper.ownKeys among).2 pair key) mem)).mpr (free related).2
    · rw [not_related related]
      exact ⟨own, fun _ none => absurd none List.not_mem_nil⟩

/-- The table by an alias, inside a statement about the link rows. -/
theorem scoped_linked_iff (joinTable : String) :
    (∀ columnsOf, Knows schema columnsOf → Scoped outward columnsOf collection.physicalTable 0
        [[⟨targetAlias, columnsOf collection.physicalTable, some 0⟩],
          [⟨linkAlias, columnsOf joinTable, none⟩]] expr.ownColumns expr.ownRelations) ↔
      (expr.hasRelationFilters = true → collection.physicalTable = targetAlias) := by
  constructor
  · intro fit related
    have everything := fit _ (everyColumn_knows schema)
    have apart := proper.captured mem related everything
    obtain ⟨relation, among, pair, key, own⟩ := proper.someKey related
    have outer := ((scoped_past apart).mp everything).2 relation among pair key
    -- The name of the table is not the alias, so it is at best that of the link rows.
    by_contra other
    rw [resolve_past outward (Ne.symm other), resolve] at outer
    by_cases named : linkAlias = collection.physicalTable
    · simp [named] at outer
      split at outer <;> simp [resolve] at outer
    · simp [named, resolve] at outer
  · intro aliased columnsOf knows
    have own : ∀ column ∈ expr.ownColumns, resolve outward
        [[⟨targetAlias, columnsOf collection.physicalTable, some 0⟩],
          [⟨linkAlias, columnsOf joinTable, none⟩]] { column } = some (some 0) :=
      fun column among => resolve_own outward (ownColumn_mem mem proper knows among)
    by_cases related : expr.hasRelationFilters = true
    · have apart : collection.physicalTable ≠ relationAlias 0 := by
        rw [aliased related]
        decide
      refine (scoped_past apart).mpr ⟨own, fun relation among pair key => ?_⟩
      have column := knows.field ((proper.ownKeys among).2 pair key) mem
      rw [aliased related] at column ⊢
      exact @resolve_named _ outward ⟨targetAlias, _, some 0⟩ _ _ column
    · rw [not_related related]
      exact ⟨own, fun _ none => absurd none List.not_mem_nil⟩

end Sites

end Scopes

/-- A predicate is well embedded in the statements of its collection exactly when their
names leave it room: a read or write of the table as long as the table is not named like the
first alias, a search as long as it shares no name with the table and the predicate's
columns, and the read of linked keys only without relation nodes. -/
theorem wellEmbedded_iff {schema : RuntimeSchema} {predicate : RuntimePredicate φ}
    (built : schema.Builds predicate) {collection : RuntimeCollection}
    (found : schema.collection? predicate.collection = some collection) {embedding : Embedding φ}
    (about : predicate ∈ embedding.predicates) (same : embedding.table = collection.physicalTable)
    (backend : DatabaseBackend) (outward : Bool) (limits : RuntimeQueryLimits) :
    WellEmbedded schema backend outward limits embedding predicate ↔ embedding.Clear predicate := by
  obtain ⟨owner, known, proper⟩ := built.proper
  rw [found] at known
  cases known
  have mem : collection ∈ schema.collections := List.mem_of_find?_eq_some found
  have denotes : (∀ columnsOf, Knows schema columnsOf → ∀ n,
      (factor backend none 0 n predicate.expr).denotations outward columnsOf 0
          (embedding.scopes backend columnsOf) =
        (predicate.expr.intended backend 0).map (fun level => some (some level))) ↔
      embedding.Clear predicate := by
    have each : (∀ columnsOf, Knows schema columnsOf → ∀ n,
        (factor backend none 0 n predicate.expr).denotations outward columnsOf 0
            (embedding.scopes backend columnsOf) =
          (predicate.expr.intended backend 0).map (fun level => some (some level))) ↔
        ∀ columnsOf, Knows schema columnsOf → Scoped outward columnsOf collection.physicalTable 0
          (embedding.scopes backend columnsOf) predicate.expr.ownColumns
            predicate.expr.ownRelations :=
      forall₂_congr fun columnsOf knows =>
        ⟨fun all => (denotations_iff knows mem proper none 0 0 _).mp (all 0),
          fun fit n => (denotations_iff knows mem proper none 0 n _).mpr fit⟩
    rw [each]
    cases embedding with
    | read request decode =>
      have table : request.collection.physicalTable = collection.physicalTable := same
      rw [Embedding.Clear, table]
      simp only [Embedding.scopes, Embedding.sources, table]
      cases request.search with
      | none => simpa [RowSource.item] using scoped_table_iff mem proper
      | some search =>
        simpa [RowSource.item, Embedding.searchSource] using scoped_searched_iff mem proper
    | select table projection key guard lock
    | write action table fields refreshed key grant expected returning
    | admission table fields batch visible =>
      obtain rfl : table = collection.physicalTable := same
      exact scoped_table_iff mem proper
    | linked side key visible limit =>
      have table : side.otherTable = collection.physicalTable := same
      rw [Embedding.Clear, table]
      simpa [Embedding.scopes, Embedding.sources, table, RowSource.item] using
        scoped_linked_iff mem proper side.joinTable
  exact ⟨fun embedded => denotes.mp embedded.denotes,
    fun clear => ⟨fun _ sent => Embedding.contains proper about sent, denotes.mpr clear⟩⟩

/-! ### Visible targets with some note -/

def linkedNodes : RuntimeSchema where
  collections := [{ nodes with physicalTable := "nodes" }, notes]

def linkedNotes : RuntimeRelationHandle :=
  relationHandle linkedNodes { nodes with physicalTable := "nodes" } notes notesRelation
    [(nodeId, noteOwner)]

def someNote : RuntimePredicate Int := bareFilter linkedNodes linkedNotes

theorem someNote_built : linkedNodes.Builds someNote :=
  bareFilter_built (checkCollection_handleOf rfl)
    (checkRelation_handleOf rfl rfl rfl ⟨rfl, rfl, rfl⟩ rfl rfl)

def boardNodes : LinkSide where
  joinTable := "board_nodes"
  own := [(RuntimeSchema.fieldHandle (handleOf linkedNodes nodes) nodeId, "board_id")]
  other := [(RuntimeSchema.fieldHandle (handleOf linkedNodes nodes) nodeId, "node_id")]
  otherTable := "nodes"

theorem wellEmbedded_nodes :
    WellEmbedded linkedNodes .postgres false {} (.select "nodes" [] [] (some someNote) false)
        someNote ↔
      (someNote.expr.hasRelationFilters = true → "nodes" ≠ relationAlias 0) :=
  wellEmbedded_iff someNote_built rfl (.head _) rfl .postgres false {}

/-- The subquery of the relation node names the table of the nodes, which the statement knows
only by its alias. -/
theorem linked_misnamed :
    linkedNodes.Builds someNote ∧
      ((Embedding.linked boardNodes [.integer 1] (some someNote) 10).statements .sqlite {}).length =
        1 ∧
      (factor .sqlite none 0 1 someNote.expr).denotations true (everyColumn linkedNodes) 0
          ((Embedding.linked boardNodes [.integer 1] (some someNote) 10).scopes .sqlite
            (everyColumn linkedNodes)) = [some (some 1), none] ∧
      ¬WellEmbedded linkedNodes .sqlite true {}
        (.linked boardNodes [.integer 1] (some someNote) 10) someNote := by
  have denoted : (factor .sqlite none 0 1 someNote.expr).denotations true (everyColumn linkedNodes) 0
      ((Embedding.linked boardNodes [.integer 1] (some someNote) 10).scopes .sqlite
        (everyColumn linkedNodes)) = [some (some 1), none] := by decide
  refine ⟨someNote_built, rfl, denoted, fun embedded => ?_⟩
  have meant := embedded.denotes _ (everyColumn_knows linkedNodes) 1
  rw [denoted] at meant
  revert meant
  decide

end GraphqlOrm.Runtime
