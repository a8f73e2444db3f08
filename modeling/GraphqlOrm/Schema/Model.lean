import Mathlib.Data.List.Lex
import Mathlib.Data.Prod.Lex
import Mathlib.Data.String.Basic

/-!
# The canonical physical schema

The storage form shared by introspection, planning, hashing and rendering
(`OwnedSchemaModel` and its borrowed view `SchemaRef`). Borrowed and owned forms
carry the same data, so one type stands for both.
-/
namespace GraphqlOrm.Schema

inductive DatabaseBackend where
  | sqlite | postgres | mysql | mssql
deriving DecidableEq

/-! ### Columns -/

inductive SpatialKind where
  | geometry
deriving DecidableEq

def SpatialKind.asSql : SpatialKind → String
  | geometry => "geometry"

inductive SpatialGeometryType where
  | geometry | point | lineString | polygon | multiPoint | multiLineString | multiPolygon
  | geometryCollection
deriving DecidableEq

def SpatialGeometryType.asSql : SpatialGeometryType → String
  | geometry => "Geometry"
  | point => "Point"
  | lineString => "LineString"
  | polygon => "Polygon"
  | multiPoint => "MultiPoint"
  | multiLineString => "MultiLineString"
  | multiPolygon => "MultiPolygon"
  | geometryCollection => "GeometryCollection"

structure SpatialColumnDef where
  kind : SpatialKind
  geometryType : SpatialGeometryType
  srid : Int32
deriving DecidableEq

structure ColumnModel where
  name : String
  sqlType : String
  spatial : Option SpatialColumnDef := none
  nullable : Bool := false
  isPrimaryKey : Bool := false
  isUnique : Bool := false
  default : Option String := none
deriving DecidableEq

/-! ### Indexes -/

inductive IndexMethod where
  | default | gist
deriving DecidableEq

inductive IndexDirection where
  | asc | desc
deriving DecidableEq

def IndexDirection.asSql : IndexDirection → String
  | asc => "ASC"
  | desc => "DESC"

/-- A closed-set partial-index predicate. -/
structure IndexPredicateModel where
  column : String
  values : List String
deriving DecidableEq

structure IndexModel where
  name : String
  columns : List String
  columnDirections : List IndexDirection := []
  isUnique : Bool := false
  method : IndexMethod := .default
  isSpatial : Bool := false
  predicate : Option IndexPredicateModel := none
deriving DecidableEq

namespace IndexModel

def directionAt (index : IndexModel) (position : Nat) : IndexDirection :=
  (index.columnDirections[position]?).getD .asc

def directionsFit (index : IndexModel) : Bool :=
  index.columnDirections.isEmpty || index.columnDirections.length == index.columns.length

/-- `IndexRef::eq`. Directions are compared as they take effect, and malformed
direction metadata is equal to nothing, not even to itself. -/
def eq (self other : IndexModel) : Bool :=
  self.name == other.name && self.columns == other.columns && self.directionsFit &&
    other.directionsFit && self.isUnique == other.isUnique && self.method == other.method &&
    self.isSpatial == other.isSpatial && self.predicate == other.predicate &&
    (List.range self.columns.length).all fun i => self.directionAt i == other.directionAt i

end IndexModel

/-! ### Foreign keys -/

inductive DeletePolicy where
  | restrict | cascade | setNull
deriving DecidableEq

namespace DeletePolicy

def asSql : DeletePolicy → String
  | restrict => "RESTRICT"
  | cascade => "CASCADE"
  | setNull => "SET NULL"

def rank : DeletePolicy → Nat
  | restrict => 0
  | cascade => 1
  | setNull => 2

end DeletePolicy

structure ForeignKeyColumnPairModel where
  sourceColumn : String
  targetColumn : String
deriving DecidableEq

structure ForeignKeyModel where
  constraintName : Option String := none
  columnPairs : List ForeignKeyColumnPairModel
  targetTable : String
  isMultiple : Bool := false
  onDelete : DeletePolicy := .restrict
deriving DecidableEq

/-- What identifies a foreign key semantically: its ordered pairs, its target
and its delete policy, but never its physical name. -/
structure ForeignKeyIdentity where
  columnPairs : List ForeignKeyColumnPairModel
  targetTable : String
  onDelete : DeletePolicy

namespace ForeignKeyModel

def sourceColumns (fk : ForeignKeyModel) : List String := fk.columnPairs.map (·.sourceColumn)

def targetColumns (fk : ForeignKeyModel) : List String := fk.columnPairs.map (·.targetColumn)

def identity (fk : ForeignKeyModel) : ForeignKeyIdentity :=
  ⟨fk.columnPairs, fk.targetTable, fk.onDelete⟩

end ForeignKeyModel

namespace ForeignKeyIdentity

def key (id : ForeignKeyIdentity) : List (String ×ₗ String) ×ₗ String ×ₗ Nat :=
  toLex (id.columnPairs.map fun pair => toLex (pair.sourceColumn, pair.targetColumn),
    toLex (id.targetTable, id.onDelete.rank))

theorem key_injective : Function.Injective key := by
  rintro ⟨pairs, table, policy⟩ ⟨pairs', table', policy'⟩ same
  simp only [key, EmbeddingLike.apply_eq_iff_eq, Prod.mk.injEq] at same
  obtain ⟨samePairs, rfl, sameRank⟩ := same
  have pairInjective : Function.Injective fun pair : ForeignKeyColumnPairModel =>
      toLex (pair.sourceColumn, pair.targetColumn) := by
    rintro ⟨a, b⟩ ⟨c, d⟩ equal
    simpa using equal
  have policies : policy = policy' := by
    cases policy <;> cases policy' <;> simp_all [DeletePolicy.rank]
  rw [List.map_injective_iff.mpr pairInjective samePairs, policies]

instance : LinearOrder ForeignKeyIdentity := LinearOrder.lift' key key_injective

end ForeignKeyIdentity

/-! ### Search indexes -/

inductive SearchWeight where
  | a | b | c | d
deriving DecidableEq

def SearchWeight.asStr : SearchWeight → String
  | a => "A"
  | b => "B"
  | c => "C"
  | d => "D"

inductive SearchIndexStrategy where
  | postgresTsvector | sqliteFts5 | fallbackTable | mysqlFullText | mssqlFullText
deriving DecidableEq

def SearchIndexStrategy.asStr : SearchIndexStrategy → String
  | postgresTsvector => "postgres_tsvector"
  | sqliteFts5 => "sqlite_fts5"
  | fallbackTable => "fallback_table"
  | mysqlFullText => "mysql_fulltext"
  | mssqlFullText => "mssql_fulltext"

structure SearchFieldModel where
  fieldName : String
  columnName : String
  weight : SearchWeight
  «alias» : Option String := none
  policy : Option String := none
deriving DecidableEq

structure SearchJsonPathModel where
  fieldName : String
  columnName : String
  path : String
  weight : SearchWeight
  policy : Option String := none
deriving DecidableEq

structure SearchRelationFieldModel where
  relationField : String
  targetType : String
  fields : List String
  weight : SearchWeight
  maxItems : Nat
  policy : Option String := none
deriving DecidableEq

structure SearchIndexModel where
  name : String
  tableName : String
  entityName : String
  primaryKey : String
  strategy : SearchIndexStrategy
  language : String
  tokenizer : String
  minTokenLen : Nat
  fallbackEnabled : Bool
  fields : List SearchFieldModel := []
  jsonPaths : List SearchJsonPathModel := []
  relations : List SearchRelationFieldModel := []
  readinessTracked : Bool := false
deriving DecidableEq

/-! ### Tables and schemas -/

structure CheckConstraintModel where
  name : String
  expression : String
deriving DecidableEq

structure TableModel where
  entityName : String := ""
  tableName : String
  primaryKey : String
  primaryKeys : List String := []
  defaultSort : String := ""
  columns : List ColumnModel
  indexes : List IndexModel := []
  compositeUniqueIndexes : List (List String) := []
  foreignKeys : List ForeignKeyModel := []
  searchIndexes : List SearchIndexModel := []
  appendOnly : Bool := false
  retentionPurge : Bool := false
  checkConstraints : List CheckConstraintModel := []
deriving DecidableEq

/-- `TableRef::primary_keys`: the declared list, or the single compatibility key. -/
def TableModel.primaryKeyColumns (table : TableModel) : List String :=
  if table.primaryKeys.isEmpty then [table.primaryKey] else table.primaryKeys

structure SchemaModel where
  extensions : List String := []
  tables : List TableModel := []

/-! ### Index equality -/

theorem IndexModel.eq_self {index : IndexModel} (fits : index.directionsFit = true) :
    index.eq index = true := by
  simp [IndexModel.eq, fits]

end GraphqlOrm.Schema
