/-
  Relational databases.

  A schema lists tables with their columns, keys and foreign keys; a database adds the rows.  What the
  constraints say is said of projections (`select`), so that a change of the rows matters to a
  constraint only through the columns that it names.

  * `Schema.Wf`: a schema that makes sense, so every foreign key references a key;
  * `Table.Admits`: the rows meet the constraints of one table;
  * `Database.Valid`: both, for all tables.

  Names, types of columns, default expressions and values are parameters.
-/
import Mathlib

namespace Lib.Sql

/-! ## Schemas -/

structure Column (N T D : Type) where
  name : N
  type : T
  nullable : Bool
  default : Option D
deriving DecidableEq

/-- A unique constraint or a primary key; `none` is a name that is made of the table and the columns. -/
structure Unique (N : Type) where
  name : Option N
  columns : List N
  primary : Bool
deriving DecidableEq

structure ForeignKey (N : Type) where
  name : Option N
  columns : List N
  table : N
  refColumns : List N
deriving DecidableEq

structure Table (N T D : Type) where
  name : N
  columns : List (Column N T D)
  uniques : List (Unique N)
  foreignKeys : List (ForeignKey N)
deriving DecidableEq

abbrev Schema (N T D : Type) := List (Table N T D)

section
variable {N T D : Type} [DecidableEq N]

def Schema.names (s : Schema N T D) : List N := s.map (·.name)

def Table.columnNames (t : Table N T D) : List N := t.columns.map (·.name)

def Table.typeOf (t : Table N T D) (c : N) : Option T := (t.columns.find? (·.name = c)).map (·.type)

def Table.constraintNames (t : Table N T D) : List N :=
  t.uniques.filterMap (·.name) ++ t.foreignKeys.filterMap (·.name)

/-- A foreign key references a key, whose columns have the types of its own. -/
def ForeignKey.Wf (s : Schema N T D) (t : Table N T D) (fk : ForeignKey N) : Prop :=
  fk.columns ⊆ t.columnNames ∧ ∃ r ∈ s, r.name = fk.table ∧ (∃ u ∈ r.uniques, u.columns = fk.refColumns) ∧
    fk.columns.map t.typeOf = fk.refColumns.map r.typeOf

instance [DecidableEq T] (s : Schema N T D) (t : Table N T D) (fk : ForeignKey N) : Decidable (fk.Wf s t) :=
  inferInstanceAs (Decidable (_ ∧ _))

structure Table.Wf (s : Schema N T D) (t : Table N T D) : Prop where
  columns : t.columnNames.Nodup
  constraints : t.constraintNames.Nodup
  uniques : ∀ u ∈ t.uniques, u.columns ⊆ t.columnNames
  onePrimary : (t.uniques.filter (·.primary)).length ≤ 1
  primary : ∀ u ∈ t.uniques, u.primary → ∀ c ∈ t.columns, c.name ∈ u.columns → c.nullable = false
  foreignKeys : ∀ fk ∈ t.foreignKeys, fk.Wf s t

instance [DecidableEq T] (s : Schema N T D) (t : Table N T D) : Decidable (t.Wf s) :=
  decidable_of_iff (t.columnNames.Nodup ∧ t.constraintNames.Nodup ∧
      (∀ u ∈ t.uniques, u.columns ⊆ t.columnNames) ∧
      (t.uniques.filter (·.primary)).length ≤ 1 ∧
      (∀ u ∈ t.uniques, u.primary → ∀ c ∈ t.columns, c.name ∈ u.columns → c.nullable = false) ∧
      ∀ fk ∈ t.foreignKeys, fk.Wf s t)
    ⟨fun ⟨h1, h2, h3, h4, h5, h6⟩ => ⟨h1, h2, h3, h4, h5, h6⟩,
      fun ⟨h1, h2, h3, h4, h5, h6⟩ => ⟨h1, h2, h3, h4, h5, h6⟩⟩

/-- A table with no more constraints than another. -/
structure Table.Within (t' t : Table N T D) : Prop where
  name : t'.name = t.name
  columns : t'.columns ⊆ t.columns
  uniques : t'.uniques ⊆ t.uniques
  foreignKeys : t'.foreignKeys ⊆ t.foreignKeys

omit [DecidableEq N] in
theorem Table.Within.refl (t : Table N T D) : t.Within t :=
  ⟨rfl, fun _ h => h, fun _ h => h, fun _ h => h⟩

/-- A schema that makes sense. -/
structure Schema.Wf (s : Schema N T D) : Prop where
  names : s.names.Nodup
  tables : ∀ t ∈ s, t.Wf s

instance [DecidableEq T] (s : Schema N T D) : Decidable s.Wf :=
  decidable_of_iff (s.names.Nodup ∧ ∀ t ∈ s, t.Wf s) ⟨fun ⟨h1, h2⟩ => ⟨h1, h2⟩, fun ⟨h1, h2⟩ => ⟨h1, h2⟩⟩

variable {s : Schema N T D} {t : Table N T D}

theorem Schema.Wf.eq_of_name (h : s.Wf) {r : Table N T D} (hr : r ∈ s) (ht : t ∈ s) (he : r.name = t.name) :
    r = t :=
  List.inj_on_of_nodup_map h.names hr ht he

/-- A foreign key looks up columns of a table. -/
theorem Schema.Wf.refColumns (h : s.Wf) (ht : t ∈ s) {fk : ForeignKey N} (hf : fk ∈ t.foreignKeys) :
    ∃ r ∈ s, r.name = fk.table ∧ fk.refColumns ⊆ r.columnNames := by
  obtain ⟨-, r, hr, hn, ⟨u, hu, hc⟩, -⟩ := (h.tables t ht).foreignKeys fk hf
  exact ⟨r, hr, hn, hc ▸ (h.tables r hr).uniques u hu⟩

end

/-! ## Rows -/

section
variable {N T D V : Type} [DecidableEq N]

/-- The values of a row by column; `none` is null. -/
abbrev Row (N V : Type) := N → Option V

/-- The rows by table. -/
abbrev Rows (N V : Type) := N → List (Row N V)

/-- `SELECT columns FROM table` -/
def select (rows : Rows N V) (table : N) (columns : List N) : List (List (Option V)) :=
  (rows table).map columns.map

theorem select_update {rows : Rows N V} {n m : N} {l : List (Row N V)} {cs : List N} (h : m ≠ n) :
    select (Function.update rows n l) m cs = select rows m cs := by
  rw [select, Function.update_of_ne h, select]

theorem select_update_self {rows : Rows N V} {n : N} {l : List (Row N V)} {cs : List N} :
    select (Function.update rows n l) n cs = l.map cs.map := by
  rw [select, Function.update_self]

/-- The values that a type has. -/
class Typed (T V : Type) where
  hasType : T → V → Bool

variable [Typed T V]

def Column.Admits (c : Column N T D) : Option V → Prop
  | none => c.nullable = true
  | some v => Typed.hasType c.type v = true

instance (c : Column N T D) : ∀ v : Option V, Decidable (c.Admits v)
  | none => inferInstanceAs (Decidable (c.nullable = true))
  | some v => inferInstanceAs (Decidable (Typed.hasType c.type v = true))

/-- The rows of a table meet its constraints. A key with a null in it is neither equal to another nor
    looked up. -/
structure Table.Admits (rows : Rows N V) (t : Table N T D) : Prop where
  columns : ∀ c ∈ t.columns, ∀ vs ∈ select rows t.name [c.name], ∀ v ∈ vs, c.Admits v
  uniques : ∀ u ∈ t.uniques, (select rows t.name u.columns).Pairwise fun vs ws => none ∈ vs ∨ vs ≠ ws
  foreignKeys : ∀ fk ∈ t.foreignKeys, ∀ vs ∈ select rows t.name fk.columns,
    none ∈ vs ∨ vs ∈ select rows fk.table fk.refColumns

instance [DecidableEq V] (rows : Rows N V) (t : Table N T D) : Decidable (t.Admits rows) :=
  decidable_of_iff ((∀ c ∈ t.columns, ∀ vs ∈ select rows t.name [c.name], ∀ v ∈ vs, c.Admits v) ∧
      (∀ u ∈ t.uniques, (select rows t.name u.columns).Pairwise fun vs ws => none ∈ vs ∨ vs ≠ ws) ∧
      ∀ fk ∈ t.foreignKeys, ∀ vs ∈ select rows t.name fk.columns,
        none ∈ vs ∨ vs ∈ select rows fk.table fk.refColumns)
    ⟨fun ⟨h1, h2, h3⟩ => ⟨h1, h2, h3⟩, fun ⟨h1, h2, h3⟩ => ⟨h1, h2, h3⟩⟩

/-- The rows of a table within another, if they agree on the columns of the schema. -/
theorem Table.Admits.within {rows rows' : Rows N V} {s : Schema N T D} {t t' : Table N T D} (h : t.Admits rows)
    (hw : s.Wf) (ht : t' ∈ s) (hsub : t'.Within t)
    (hsel : ∀ r ∈ s, ∀ cs, cs ⊆ r.columnNames → select rows' r.name cs = select rows r.name cs) :
    t'.Admits rows' where
  columns c hm := by
    have hcs : [c.name] ⊆ t'.columnNames := by
      intro d hd
      rw [List.mem_singleton.1 hd]
      exact List.mem_map_of_mem hm
    rw [hsel t' ht _ hcs, hsub.name]
    exact h.columns c (hsub.columns hm)
  uniques u hm := by
    rw [hsel t' ht _ ((hw.tables t' ht).uniques u hm), hsub.name]
    exact h.uniques u (hsub.uniques hm)
  foreignKeys fk hm := by
    obtain ⟨r, hr, hrn, hrc⟩ := hw.refColumns ht hm
    have href := hsel r hr _ hrc
    rw [hrn] at href
    rw [hsel t' ht _ ((hw.tables t' ht).foreignKeys fk hm).1, href, hsub.name]
    exact h.foreignKeys fk (hsub.foreignKeys hm)

omit [DecidableEq N] in
theorem Table.Admits.refers {rows : Rows N V} {t : Table N T D} (h : t.Admits rows) {fk : ForeignKey N}
    (hf : fk ∈ t.foreignKeys) {row : Row N V} (hr : row ∈ rows t.name) :
    none ∈ fk.columns.map row ∨ ∃ ref ∈ rows fk.table, fk.refColumns.map ref = fk.columns.map row :=
  (h.foreignKeys fk hf _ (List.mem_map_of_mem hr)).imp_right List.mem_map.1

omit [DecidableEq N] in
theorem Table.Admits.not_null {rows : Rows N V} {t : Table N T D} (h : t.Admits rows) {c : Column N T D}
    (hc : c ∈ t.columns) (hn : c.nullable = false) {row : Row N V} (hr : row ∈ rows t.name) :
    ∃ v, row c.name = some v := by
  have ha : c.Admits (row c.name) := h.columns c hc _ (List.mem_map_of_mem hr) _ List.mem_cons_self
  cases hv : row c.name with
  | none =>
    rw [hv] at ha
    exact absurd (hn.symm.trans ha) (by decide)
  | some v => exact ⟨v, rfl⟩

/-- A schema and the rows of its tables; the rows under other names are not read. -/
structure Database (N T D V : Type) where
  schema : Schema N T D
  rows : Rows N V

structure Database.Valid (db : Database N T D V) : Prop where
  wf : db.schema.Wf
  admits : ∀ t ∈ db.schema, t.Admits db.rows

/-- Tables and constraints are taken away. -/
theorem Database.Valid.within {db : Database N T D V} {s' : Schema N T D} {rows' : Rows N V} (hv : db.Valid)
    (hw : s'.Wf) (hsub : ∀ t' ∈ s', ∃ t ∈ db.schema, t'.Within t)
    (hsel : ∀ r ∈ s', ∀ cs, cs ⊆ r.columnNames → Sql.select rows' r.name cs = Sql.select db.rows r.name cs) :
    ∀ t' ∈ s', t'.Admits rows' := by
  intro t' ht'
  obtain ⟨t, ht, hin⟩ := hsub t' ht'
  exact (hv.admits t ht).within hw ht' hin hsel

instance [DecidableEq T] [DecidableEq V] (db : Database N T D V) : Decidable db.Valid :=
  decidable_of_iff (db.schema.Wf ∧ ∀ t ∈ db.schema, t.Admits db.rows)
    ⟨fun ⟨h1, h2⟩ => ⟨h1, h2⟩, fun ⟨h1, h2⟩ => ⟨h1, h2⟩⟩

/-- `SELECT columns FROM table`; a table that does not exist has no rows. -/
def Database.select (db : Database N T D V) (table : N) (columns : List N) : List (List (Option V)) :=
  if table ∈ db.schema.names then Sql.select db.rows table columns else []

end

end Lib.Sql
