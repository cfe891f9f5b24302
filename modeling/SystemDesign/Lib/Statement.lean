/-
  Statements that change a relational database.

  A statement changes the schema (`Schema.alter`) and the rows (`Database.affect`).  It fails where it
  names what does not exist, where the schema that it leaves makes no sense, and where the rows that it
  leaves do not meet a constraint.

  * `execute_safe`, `exec_safe`: statements that demand nothing of the rows fail on no rows;
  * `execute_insert`, `execute_update`, `execute_alterColumn`, `execute_addUnique`,
    `execute_addForeignKey`: what the others demand;
  * `execute_keeps`, `exec_keeps`: what a statement does not name stays as it is.
-/
import SystemDesign.Lib.Relational
import SystemDesign.Lib.Run

namespace Lib.Sql

/-- `(SELECT column FROM table WHERE key = value)` as an expression. -/
structure Scalar (N V : Type) where
  column : N
  table : N
  key : N
  value : V

inductive Statement (N T D V : Type) where
  | createTable (t : Table N T D)
  | dropTable (n : N)
  | addColumn (n : N) (c : Column N T D)
  /-- The column of that name gets another definition and keeps its values. -/
  | alterColumn (n : N) (c : Column N T D)
  | dropColumn (n c : N)
  | addUnique (n : N) (u : Unique N)
  | dropUnique (n k : N)
  | addForeignKey (n : N) (fk : ForeignKey N)
  | dropForeignKey (n k : N)
  | insert (n : N) (values : List (N × V))
  /-- `UPDATE n SET c = q` -/
  | update (n c : N) (q : Scalar N V)

section
variable {N T D V : Type} [DecidableEq N]

/-! ## The schema -/

/-- Replace a table. -/
def Schema.onTable (s : Schema N T D) (n : N) (f : Table N T D → Option (Table N T D)) :
    Option (Schema N T D) :=
  (s.find? (·.name = n)).bind fun t => (f t).map fun t' => s.map fun r => if r.name = n then t' else r

/-- Whether a query makes sense. -/
def Scalar.Wf (s : Schema N T D) (q : Scalar N V) : Prop :=
  ∃ r ∈ s, r.name = q.table ∧ q.column ∈ r.columnNames ∧ q.key ∈ r.columnNames

instance (s : Schema N T D) (q : Scalar N V) : Decidable (q.Wf s) :=
  inferInstanceAs (Decidable (∃ r ∈ s, _))

def Table.dropColumn (t : Table N T D) (c : N) : Table N T D :=
  { t with
    columns := t.columns.filter (·.name ≠ c)
    uniques := t.uniques.filter (c ∉ ·.columns)
    foreignKeys := t.foreignKeys.filter (c ∉ ·.columns) }

/-- No key and no foreign key has the column. -/
def Schema.Free (s : Schema N T D) (n c : N) : Prop :=
  ∀ t ∈ s, (t.name = n → (∀ u ∈ t.uniques, c ∉ u.columns) ∧ ∀ fk ∈ t.foreignKeys, c ∉ fk.columns) ∧
    ∀ fk ∈ t.foreignKeys, fk.table = n → c ∉ fk.refColumns

instance (s : Schema N T D) (n c : N) : Decidable (s.Free n c) :=
  inferInstanceAs (Decidable (∀ t ∈ s, _))

local instance lawfulOption : LawfulBEq (Option N) := inferInstance

def Schema.alter (s : Schema N T D) : Statement N T D V → Option (Schema N T D)
  | .createTable t => some (s ++ [t])
  | .dropTable n => if n ∈ s.names then some (s.filter (·.name ≠ n)) else none
  | .addColumn n c => s.onTable n fun t => some { t with columns := t.columns ++ [c] }
  | .alterColumn n c => s.onTable n fun t =>
    if c.name ∈ t.columnNames then
      some { t with columns := t.columns.map fun d => if d.name = c.name then c else d }
    else none
  | .dropColumn n c => s.onTable n fun t => if c ∈ t.columnNames then some (t.dropColumn c) else none
  | .addUnique n u => s.onTable n fun t => some { t with uniques := t.uniques ++ [u] }
  | .dropUnique n k => s.onTable n fun t =>
    if some k ∈ t.uniques.map (·.name) then some { t with uniques := t.uniques.filter (·.name ≠ some k) }
    else none
  | .addForeignKey n fk => s.onTable n fun t => some { t with foreignKeys := t.foreignKeys ++ [fk] }
  | .dropForeignKey n k => s.onTable n fun t =>
    if some k ∈ t.foreignKeys.map (·.name) then
      some { t with foreignKeys := t.foreignKeys.filter (·.name ≠ some k) }
    else none
  | .insert n values => s.onTable n fun t => if values.map (·.1) ⊆ t.columnNames then some t else none
  | .update n c q => s.onTable n fun t => if c ∈ t.columnNames ∧ q.Wf s then some t else none

/-- The schema after a statement, if it makes sense. -/
def Schema.check [DecidableEq T] (s : Schema N T D) (st : Statement N T D V) : Option (Schema N T D) :=
  (s.alter st).bind fun s' => if s'.Wf then some s' else none

/-! ## The rows -/

/-- The value of the row, null for no row; more than one row is an error. -/
def Scalar.eval [DecidableEq V] (q : Scalar N V) (rows : Rows N V) : Option (Option V) :=
  match (rows q.table).filter fun row => row q.key = some q.value with
  | [] => some none
  | [row] => some (row q.column)
  | _ => none

def setColumn (rows : Rows N V) (n c : N) (v : Option V) : Rows N V :=
  Function.update rows n ((rows n).map fun row => Function.update row c v)

/-- A row of the given values and the defaults of the other columns. -/
def Table.newRow (eval : D → V) (t : Table N T D) (values : List (N × V)) : Row N V := fun c =>
  (values.lookup c).or ((t.columns.find? (·.name = c)).bind fun d => d.default.map eval)

variable [DecidableEq V]

/-- The rows after a statement; `eval` has the values of the default expressions. -/
def Database.affect (eval : D → V) (db : Database N T D V) : Statement N T D V → Option (Rows N V)
  | .createTable t => some (Function.update db.rows t.name [])
  | .dropTable n => some (Function.update db.rows n [])
  | .addColumn n c => some (setColumn db.rows n c.name (c.default.map eval))
  | .dropColumn n c => some (setColumn db.rows n c none)
  | .insert n values => (db.schema.find? (·.name = n)).map fun t =>
    Function.update db.rows n (db.rows n ++ [t.newRow eval values])
  | .update n c q => (q.eval db.rows).map (setColumn db.rows n c)
  | _ => some db.rows

variable [DecidableEq T] [Typed T V]

/-- **Execute a statement**; `none` where it fails. -/
def Database.execute (eval : D → V) (db : Database N T D V) (st : Statement N T D V) :
    Option (Database N T D V) :=
  (db.schema.check st).bind fun s => (db.affect eval st).bind fun rows =>
    if ∀ t ∈ s, t.Admits rows then some ⟨s, rows⟩ else none

end

/-! ## What a statement does -/

section
variable {N T D V : Type} [DecidableEq N] {s s' : Schema N T D} {t' : Table N T D} {rows : Rows N V} {n c : N}

theorem onTable_cases {f : Table N T D → Option (Table N T D)} (h : s.onTable n f = some s') :
    ∃ t t', t ∈ s ∧ t.name = n ∧ f t = some t' ∧ s' = s.map fun r => if r.name = n then t' else r := by
  obtain ⟨t, ht, h⟩ := Option.bind_eq_some_iff.1 h
  obtain ⟨t', hf, rfl⟩ := Option.map_eq_some_iff.1 h
  have hname : t.name = n := by simpa using List.find?_some ht
  exact ⟨t, t', List.mem_of_find?_eq_some ht, hname, hf, rfl⟩

theorem onTable_names {f : Table N T D → Option (Table N T D)} (h : s.onTable n f = some s')
    (hf : ∀ t t', f t = some t' → t'.name = t.name) : s'.names = s.names := by
  obtain ⟨t, t', -, hn, hft, rfl⟩ := onTable_cases h
  simp only [Schema.names, List.map_map]
  refine List.map_congr_left fun r _ => ?_
  simp only [Function.comp_apply]
  split_ifs with hr
  · rw [hf t t' hft, hn, hr]
  · rfl

/-- A table of a schema in which one was replaced. -/
theorem mem_replace {r' : Table N T D} (h : r' ∈ s.map fun r => if r.name = n then t' else r) :
    (r' ∈ s ∧ r'.name ≠ n) ∨ r' = t' := by
  obtain ⟨r, hr, rfl⟩ := List.mem_map.1 h
  split_ifs with hp
  · exact Or.inr rfl
  · exact Or.inl ⟨hr, hp⟩

theorem onTable_within {f : Table N T D → Option (Table N T D)} (h : s.onTable n f = some s')
    (hf : ∀ t t', f t = some t' → t'.Within t) : ∀ t' ∈ s', ∃ t ∈ s, t'.Within t := by
  intro r' hr'
  obtain ⟨t, t', ht, -, hft, rfl⟩ := onTable_cases h
  rcases mem_replace hr' with ⟨hr, -⟩ | rfl
  · exact ⟨r', hr, .refl r'⟩
  · exact ⟨t, ht, hf t r' hft⟩

/-- The table that was created has a new name. -/
theorem not_mem_names {t : Table N T D} (h : Schema.Wf (s ++ [t])) : t.name ∉ s.names := by
  have hnew := h.names
  simp only [Schema.names, List.map_append, List.nodup_append] at hnew
  exact fun hm => hnew.2.2 _ hm t.name (by simp) rfl

theorem onTable_admits [Typed T V] {f : Table N T D → Option (Table N T D)} (h : s.onTable n f = some s')
    (hold : ∀ t ∈ s, t.Admits rows)
    (hf : ∀ t t', t.Admits rows → t.name = n → f t = some t' → t'.Admits rows) : ∀ t ∈ s', t.Admits rows := by
  intro r hr
  obtain ⟨t, t', ht, hname, hft, rfl⟩ := onTable_cases h
  rcases mem_replace hr with ⟨hr, -⟩ | rfl
  · exact hold r hr
  · exact hf t r (hold t ht) hname hft

theorem select_setColumn {v : Option V} {m : N} {cs : List N} (h : m = n → c ∉ cs) :
    select (setColumn rows n c v) m cs = select rows m cs := by
  by_cases hm : m = n
  · subst hm
    rw [setColumn, select_update_self, List.map_map, select]
    refine List.map_congr_left fun row _ => List.map_congr_left fun d hd => Function.update_of_ne ?_ _ _
    rintro rfl
    exact h rfl hd
  · exact select_update hm

theorem select_insert {row : Row N V} {cs : List N} :
    select (Function.update rows n (rows n ++ [row])) n cs = select rows n cs ++ [cs.map row] := by
  rw [select_update_self, List.map_append, List.map_singleton, select]

theorem select_subset_insert {row : Row N V} {m : N} {cs : List N} :
    select rows m cs ⊆ select (Function.update rows n (rows n ++ [row])) m cs := by
  by_cases h : m = n
  · subst h
    rw [select_insert]
    exact List.subset_append_left _ _
  · rw [select_update h]
    exact List.Subset.refl _

theorem eq_of_mem_setColumn {v : Option V} {vs : List (Option V)}
    (h : vs ∈ select (setColumn rows n c v) n [c]) : vs = [v] := by
  rw [setColumn, select_update_self, List.map_map] at h
  obtain ⟨row, -, rfl⟩ := List.mem_map.1 h
  simp

end

section
variable {N T D V : Type} [DecidableEq N] [DecidableEq T] {s s' : Schema N T D} {st : Statement N T D V}

theorem check_eq_some : s.check st = some s' ↔ s.alter st = some s' ∧ s'.Wf := by
  constructor
  · intro h
    obtain ⟨s₁, hs, h⟩ := Option.bind_eq_some_iff.1 h
    split_ifs at h with hw
    cases h
    exact ⟨hs, hw⟩
  · rintro ⟨hs, hw⟩
    simp only [Schema.check, hs, Option.bind_some, if_pos hw]

variable [DecidableEq V] [Typed T V] {eval : D → V} {db db' : Database N T D V}

theorem execute_eq_some : db.execute eval st = some db' ↔ db.schema.check st = some db'.schema ∧
    db.affect eval st = some db'.rows ∧ ∀ t ∈ db'.schema, t.Admits db'.rows := by
  constructor
  · intro h
    obtain ⟨s, hs, h⟩ := Option.bind_eq_some_iff.1 h
    obtain ⟨rows, hr, h⟩ := Option.bind_eq_some_iff.1 h
    split_ifs at h with hd
    cases h
    exact ⟨hs, hr, hd⟩
  · rintro ⟨hs, hr, hd⟩
    simp only [Database.execute, hs, hr, Option.bind_some, if_pos hd]

theorem execute_valid (h : db.execute eval st = some db') : db'.Valid := by
  obtain ⟨hs, -, hd⟩ := execute_eq_some.1 h
  exact ⟨(check_eq_some.1 hs).2, hd⟩

/-! ## Statements that demand nothing of the rows -/

variable {t : Table N T D} {n c : N} {rows' : Rows N V}

theorem execute_createTable (hv : db.Valid) (hc : db.schema.check (.createTable (V := V) t) = some s') :
    db.execute eval (.createTable t) = some ⟨s', Function.update db.rows t.name []⟩ := by
  refine execute_eq_some.2 ⟨hc, rfl, fun r hr => ?_⟩
  obtain ⟨ha, hw⟩ := check_eq_some.1 hc
  cases ha
  rcases List.mem_append.1 hr with hr | hr
  · refine (hv.admits r hr).within hv.wf hr (.refl r) fun r' hr' cs _ => select_update fun he => ?_
    exact not_mem_names hw (he ▸ List.mem_map_of_mem hr')
  · rw [List.mem_singleton.1 hr]
    exact ⟨by simp [select_update_self], by simp [select_update_self], by simp [select_update_self]⟩

theorem execute_dropTable (hv : db.Valid) (hc : db.schema.check (.dropTable (V := V) n) = some s') :
    db.execute eval (.dropTable n) = some ⟨s', Function.update db.rows n []⟩ := by
  refine execute_eq_some.2 ⟨hc, rfl, ?_⟩
  obtain ⟨ha, hw⟩ := check_eq_some.1 hc
  simp only [Schema.alter] at ha
  split_ifs at ha
  cases ha
  refine hv.within hw (fun r hr => ⟨r, (List.mem_filter.1 hr).1, .refl r⟩) fun r hr cs _ => select_update ?_
  simpa using (List.mem_filter.1 hr).2

theorem execute_dropColumn (hv : db.Valid) (hc : db.schema.check (.dropColumn (V := V) n c) = some s') :
    db.execute eval (.dropColumn n c) = some ⟨s', setColumn db.rows n c none⟩ := by
  refine execute_eq_some.2 ⟨hc, rfl, ?_⟩
  obtain ⟨ha, hw⟩ := check_eq_some.1 hc
  refine hv.within hw (onTable_within ha ?_) fun r hr cs hcs => select_setColumn fun hn hm => ?_
  · intro t t' h
    split_ifs at h
    cases h
    exact ⟨rfl, fun _ h => (List.mem_filter.1 h).1, fun _ h => (List.mem_filter.1 h).1,
      fun _ h => (List.mem_filter.1 h).1⟩
  · obtain ⟨t, t', -, ht, h, rfl⟩ := onTable_cases ha
    split_ifs at h
    cases h
    rcases mem_replace hr with ⟨-, hne⟩ | rfl
    · exact hne hn
    · have hcol : c ∈ (t.dropColumn c).columnNames := hcs hm
      simp only [Table.columnNames, Table.dropColumn, List.mem_map, List.mem_filter, decide_eq_true_eq] at hcol
      obtain ⟨d, ⟨-, hne⟩, he⟩ := hcol
      exact hne he

theorem execute_dropUnique (hv : db.Valid) (hc : db.schema.check (.dropUnique (V := V) n c) = some s') :
    db.execute eval (.dropUnique n c) = some ⟨s', db.rows⟩ := by
  refine execute_eq_some.2 ⟨hc, rfl, ?_⟩
  obtain ⟨ha, hw⟩ := check_eq_some.1 hc
  refine hv.within hw (onTable_within ha fun t t' h => ?_) fun _ _ _ _ => rfl
  split_ifs at h
  cases h
  exact ⟨rfl, fun _ h => h, fun _ h => (List.mem_filter.1 h).1, fun _ h => h⟩

theorem execute_dropForeignKey (hv : db.Valid) (hc : db.schema.check (.dropForeignKey (V := V) n c) = some s') :
    db.execute eval (.dropForeignKey n c) = some ⟨s', db.rows⟩ := by
  refine execute_eq_some.2 ⟨hc, rfl, ?_⟩
  obtain ⟨ha, hw⟩ := check_eq_some.1 hc
  refine hv.within hw (onTable_within ha fun t t' h => ?_) fun _ _ _ _ => rfl
  split_ifs at h
  cases h
  exact ⟨rfl, fun _ h => h, fun _ h => h, fun _ h => (List.mem_filter.1 h).1⟩

/-- A new column holds null. -/
theorem execute_addColumn {col : Column N T D} (hn : col.nullable = true) (hd : col.default = none)
    (hv : db.Valid) (hc : db.schema.check (.addColumn (V := V) n col) = some s') :
    db.execute eval (.addColumn n col) = some ⟨s', setColumn db.rows n col.name none⟩ := by
  refine execute_eq_some.2 ⟨hc, by simp only [Database.affect, hd, Option.map_none], ?_⟩
  obtain ⟨ha, hw⟩ := check_eq_some.1 hc
  obtain ⟨t, t', ht, hname, h, rfl⟩ := onTable_cases ha
  cases h
  -- no table of the old schema has the column
  have hnew : col.name ∉ t.columnNames := by
    have hmem : { t with columns := t.columns ++ [col] } ∈
        db.schema.map fun r => if r.name = n then { t with columns := t.columns ++ [col] } else r :=
      List.mem_map.2 ⟨t, ht, if_pos hname⟩
    have hnd := (hw.tables _ hmem).columns
    simp only [Table.columnNames, List.map_append, List.map_cons, List.map_nil, List.nodup_append,
      List.mem_singleton] at hnd
    exact fun hm => hnd.2.2 _ hm _ rfl rfl
  have hold : ∀ r ∈ db.schema, r.Admits (setColumn db.rows n col.name none) := by
    intro r hr
    refine (hv.admits r hr).within hv.wf hr (.refl r) fun r' hr' cs hcs => select_setColumn fun he hm => ?_
    rw [hv.wf.eq_of_name hr' ht (he.trans hname.symm)] at hcs
    exact hnew (hcs hm)
  intro r hr
  rcases mem_replace hr with ⟨hr, -⟩ | rfl
  · exact hold r hr
  · refine ⟨fun d hdm vs hvs v hvm => ?_, (hold t ht).uniques, (hold t ht).foreignKeys⟩
    rcases List.mem_append.1 hdm with hdm | hdm
    · exact (hold t ht).columns d hdm vs hvs v hvm
    · rw [List.mem_singleton.1 hdm] at hvs ⊢
      rw [show t.name = n from hname] at hvs
      rw [eq_of_mem_setColumn hvs, List.mem_singleton] at hvm
      rw [hvm]
      exact hn

def Statement.Safe : Statement N T D V → Bool
  | .createTable _ | .dropTable _ | .dropColumn _ _ | .dropUnique _ _ | .dropForeignKey _ _ => true
  | .addColumn _ c => c.nullable && c.default.isNone
  | _ => false

theorem execute_safe (hs : st.Safe = true) (hv : db.Valid) (hc : db.schema.check st = some s') :
    ∃ rows', db.execute eval st = some ⟨s', rows'⟩ := by
  cases st with
  | createTable t => exact ⟨_, execute_createTable hv hc⟩
  | dropTable n => exact ⟨_, execute_dropTable hv hc⟩
  | addColumn n col =>
    simp only [Statement.Safe, Bool.and_eq_true, Option.isNone_iff_eq_none] at hs
    exact ⟨_, execute_addColumn hs.1 hs.2 hv hc⟩
  | dropColumn n c => exact ⟨_, execute_dropColumn hv hc⟩
  | dropUnique n k => exact ⟨_, execute_dropUnique hv hc⟩
  | dropForeignKey n k => exact ⟨_, execute_dropForeignKey hv hc⟩
  | _ => cases hs

/-! ## What the other statements demand -/

theorem execute_addUnique {u : Unique N}
    (h : (select db.rows n u.columns).Pairwise fun vs ws => none ∈ vs ∨ vs ≠ ws) (hv : db.Valid)
    (hc : db.schema.check (.addUnique (V := V) n u) = some s') :
    db.execute eval (.addUnique n u) = some ⟨s', db.rows⟩ := by
  refine execute_eq_some.2 ⟨hc, rfl, onTable_admits (check_eq_some.1 hc).1 hv.admits ?_⟩
  intro t t' ht hname he
  cases he
  refine ⟨ht.columns, fun u' hu => ?_, ht.foreignKeys⟩
  rcases List.mem_append.1 hu with hu | hu
  · exact ht.uniques u' hu
  · rw [List.mem_singleton.1 hu, show t.name = n from hname]
    exact h

theorem execute_addForeignKey {fk : ForeignKey N}
    (h : ∀ vs ∈ select db.rows n fk.columns, none ∈ vs ∨ vs ∈ select db.rows fk.table fk.refColumns)
    (hv : db.Valid) (hc : db.schema.check (.addForeignKey (V := V) n fk) = some s') :
    db.execute eval (.addForeignKey n fk) = some ⟨s', db.rows⟩ := by
  refine execute_eq_some.2 ⟨hc, rfl, onTable_admits (check_eq_some.1 hc).1 hv.admits ?_⟩
  intro t t' ht hname he
  cases he
  refine ⟨ht.columns, ht.uniques, fun fk' hf => ?_⟩
  rcases List.mem_append.1 hf with hf | hf
  · exact ht.foreignKeys fk' hf
  · rw [List.mem_singleton.1 hf, show t.name = n from hname]
    exact h

theorem execute_alterColumn {col : Column N T D}
    (h : ∀ vs ∈ select db.rows n [col.name], ∀ v ∈ vs, col.Admits v) (hv : db.Valid)
    (hc : db.schema.check (.alterColumn (V := V) n col) = some s') :
    db.execute eval (.alterColumn n col) = some ⟨s', db.rows⟩ := by
  refine execute_eq_some.2 ⟨hc, rfl, onTable_admits (check_eq_some.1 hc).1 hv.admits ?_⟩
  intro t t' ht hname he
  split_ifs at he
  cases he
  refine ⟨fun d hd => ?_, ht.uniques, ht.foreignKeys⟩
  obtain ⟨d', hd', rfl⟩ := List.mem_map.1 hd
  split_ifs with heq
  · rw [show t.name = n from hname]
    exact h
  · exact ht.columns d' hd'

omit [DecidableEq T] [DecidableEq V] in
theorem Table.Admits.insert_ne {rows : Rows N V} {row : Row N V} (h : t.Admits rows) (hne : t.name ≠ n) :
    t.Admits (Function.update rows n (rows n ++ [row])) where
  columns d hd := by
    rw [select_update hne]
    exact h.columns d hd
  uniques u hu := by
    rw [select_update hne]
    exact h.uniques u hu
  foreignKeys fk hf vs hvs := by
    rw [select_update hne] at hvs
    exact (h.foreignKeys fk hf vs hvs).imp_right fun hm => select_subset_insert hm

omit [DecidableEq T] [DecidableEq V] in
/-- A new row has values of the types, a new key, and refers to rows that exist. -/
theorem Table.Admits.insert {rows : Rows N V} {row : Row N V} (h : t.Admits rows)
    (hcol : ∀ d ∈ t.columns, d.Admits (row d.name))
    (hkey : ∀ u ∈ t.uniques, ∀ vs ∈ select rows t.name u.columns, none ∈ vs ∨ vs ≠ u.columns.map row)
    (hfk : ∀ fk ∈ t.foreignKeys, none ∈ fk.columns.map row ∨ fk.columns.map row ∈
      select (Function.update rows t.name (rows t.name ++ [row])) fk.table fk.refColumns) :
    t.Admits (Function.update rows t.name (rows t.name ++ [row])) where
  columns d hd vs hvs v hvm := by
    rw [select_insert] at hvs
    rcases List.mem_append.1 hvs with hvs | hvs
    · exact h.columns d hd vs hvs v hvm
    · rw [List.mem_singleton.1 hvs] at hvm
      rw [List.mem_singleton.1 hvm]
      exact hcol d hd
  uniques u hu := by
    rw [select_insert, List.pairwise_append]
    refine ⟨h.uniques u hu, List.pairwise_singleton _ _, fun vs hvs ws hws => ?_⟩
    rw [List.mem_singleton.1 hws]
    exact hkey u hu vs hvs
  foreignKeys fk hf vs hvs := by
    rw [select_insert] at hvs
    rcases List.mem_append.1 hvs with hvs | hvs
    · exact (h.foreignKeys fk hf vs hvs).imp_right fun hm => select_subset_insert hm
    · rw [List.mem_singleton.1 hvs]
      exact hfk fk hf

theorem execute_insert {values : List (N × V)} {row : Row N V} (ht : db.schema.find? (·.name = n) = some t)
    (hrow : t.newRow eval values = row) (hcol : ∀ d ∈ t.columns, d.Admits (row d.name))
    (hkey : ∀ u ∈ t.uniques, ∀ vs ∈ select db.rows n u.columns, none ∈ vs ∨ vs ≠ u.columns.map row)
    (hfk : ∀ fk ∈ t.foreignKeys, none ∈ fk.columns.map row ∨
      fk.columns.map row ∈ select (Function.update db.rows n (db.rows n ++ [row])) fk.table fk.refColumns)
    (hv : db.Valid) (hc : db.schema.check (.insert (D := D) n values) = some s') :
    db.execute eval (.insert n values) = some ⟨s', Function.update db.rows n (db.rows n ++ [row])⟩ := by
  refine execute_eq_some.2 ⟨hc, by simp only [Database.affect, ht, hrow, Option.map_some], fun r hr => ?_⟩
  obtain ⟨t₁, t', ht₁, hname, he, rfl⟩ := onTable_cases (check_eq_some.1 hc).1
  split_ifs at he
  cases he
  have htn : t.name = n := by simpa using List.find?_some ht
  have htm := List.mem_of_find?_eq_some ht
  rcases mem_replace hr with ⟨hr, hne⟩ | rfl
  · exact (hv.admits r hr).insert_ne hne
  · obtain rfl := hv.wf.eq_of_name ht₁ htm (hname.trans htn.symm)
    subst hname
    exact (hv.admits r htm).insert hcol hkey hfk

/-- A column that no constraint names gets a value of its type. -/
theorem execute_update {q : Scalar N V} {v : Option V} (hq : q.eval db.rows = some v)
    (hfree : db.schema.Free n c)
    (hcol : ∀ t ∈ db.schema, t.name = n → ∀ d ∈ t.columns, d.name = c → d.Admits v) (hv : db.Valid)
    (hc : db.schema.check (.update (D := D) n c q) = some s') :
    db.execute eval (.update n c q) = some ⟨s', setColumn db.rows n c v⟩ := by
  refine execute_eq_some.2 ⟨hc, by simp only [Database.affect, hq, Option.map_some], fun r hr => ?_⟩
  obtain ⟨t, t', ht, hname, he, rfl⟩ := onTable_cases (check_eq_some.1 hc).1
  split_ifs at he
  cases he
  have hr : r ∈ db.schema := by
    rcases mem_replace hr with ⟨hr, -⟩ | rfl
    · exact hr
    · exact ht
  have hold := hv.admits r hr
  obtain ⟨hown, href⟩ := hfree r hr
  refine ⟨fun d hd vs hvs x hx => ?_, fun u hu => ?_, fun fk hf vs hvs => ?_⟩
  · by_cases hsame : r.name = n ∧ d.name = c
    · obtain ⟨hn, hdc⟩ := hsame
      rw [hn, hdc] at hvs
      rw [eq_of_mem_setColumn hvs, List.mem_singleton] at hx
      rw [hx]
      exact hcol r hr hn d hd hdc
    · rw [select_setColumn fun hn hm => hsame ⟨hn, (List.mem_singleton.1 hm).symm⟩] at hvs
      exact hold.columns d hd vs hvs x hx
  · rw [select_setColumn fun hn => (hown hn).1 u hu]
    exact hold.uniques u hu
  · rw [select_setColumn fun hn => (hown hn).2 fk hf] at hvs
    rw [select_setColumn (href fk hf)]
    exact hold.foreignKeys fk hf vs hvs

/-! ## What stays -/

/-- The statement leaves the columns of the table alone. -/
def Statement.Keeps (n : N) (cs : List N) : Statement N T D V → Prop
  | .dropTable m | .insert m _ => m ≠ n
  | .addColumn m c => m = n → c.name ∉ cs
  | .dropColumn m c | .update m c _ => m = n → c ∉ cs
  | _ => True

instance (n : N) (cs : List N) : ∀ st : Statement N T D V, Decidable (st.Keeps n cs)
  | .dropTable m | .insert m _ => inferInstanceAs (Decidable (m ≠ n))
  | .addColumn m c => inferInstanceAs (Decidable (m = n → c.name ∉ cs))
  | .dropColumn m c | .update m c _ => inferInstanceAs (Decidable (m = n → c ∉ cs))
  | .createTable _ | .alterColumn _ _ | .addUnique _ _ | .dropUnique _ _ | .addForeignKey _ _
  | .dropForeignKey _ _ => isTrue trivial

theorem execute_keeps {cs : List N} (hk : st.Keeps n cs) (h : db.execute eval st = some db') :
    db'.select n cs = db.select n cs := by
  obtain ⟨hc, hr, -⟩ := execute_eq_some.1 h
  obtain ⟨ha, hw⟩ := check_eq_some.1 hc
  obtain ⟨schema', rows'⟩ := db'
  simp only at ha hr hw
  simp only [Database.select]
  cases st with
  | createTable t =>
    cases ha
    cases hr
    by_cases hn : n = t.name
    · -- the table is new and has no rows
      subst hn
      rw [if_neg (not_mem_names hw), select_update_self, List.map_nil, ite_self]
    · have hnames : n ∈ Schema.names (db.schema ++ [t]) ↔ n ∈ db.schema.names := by
        simp [Schema.names, hn]
      simp only [hnames, select_update hn]
  | dropTable m =>
    cases hr
    simp only [Schema.alter] at ha
    split_ifs at ha
    cases ha
    have hne : n ≠ m := fun he => hk he.symm
    have hnames : n ∈ Schema.names (db.schema.filter (·.name ≠ m)) ↔ n ∈ db.schema.names := by
      simp only [Schema.names, List.mem_map, List.mem_filter, decide_eq_true_eq]
      constructor
      · rintro ⟨t, ⟨ht, -⟩, hn⟩
        exact ⟨t, ht, hn⟩
      · rintro ⟨t, ht, rfl⟩
        exact ⟨t, ⟨ht, hne⟩, rfl⟩
    simp only [hnames, select_update hne]
  | addColumn m c =>
    cases hr
    rw [onTable_names ha fun t t' h => by cases h; rfl, select_setColumn fun he => hk he.symm]
  | dropColumn m c =>
    cases hr
    rw [onTable_names ha fun t t' h => by split_ifs at h; cases h; rfl, select_setColumn fun he => hk he.symm]
  | insert m values =>
    obtain ⟨t, -, rfl⟩ := Option.map_eq_some_iff.1 hr
    rw [onTable_names ha fun t t' h => by split_ifs at h; cases h; rfl, select_update fun he => hk he.symm]
  | update m c q =>
    obtain ⟨v, -, rfl⟩ := Option.map_eq_some_iff.1 hr
    rw [onTable_names ha fun t t' h => by split_ifs at h; cases h; rfl, select_setColumn fun he => hk he.symm]
  | addUnique m u | addForeignKey m fk =>
    cases hr
    rw [onTable_names ha fun t t' h => by cases h; rfl]
  | alterColumn m c | dropUnique m k | dropForeignKey m k =>
    cases hr
    rw [onTable_names ha fun t t' h => by split_ifs at h; cases h; rfl]

/-! ## Several statements -/

theorem exec_check {sts : List (Statement N T D V)} (h : exec (Database.execute eval) db sts = some db') :
    exec Schema.check db.schema sts = some db'.schema := by
  induction sts generalizing db with
  | nil =>
    cases h
    rfl
  | cons st sts ih =>
    obtain ⟨db₁, h1, h2⟩ := Option.bind_eq_some_iff.1 h
    rw [exec_cons, (execute_eq_some.1 h1).1, Option.bind_some]
    exact ih h2

theorem exec_valid {sts : List (Statement N T D V)} (hv : db.Valid)
    (h : exec (Database.execute eval) db sts = some db') : db'.Valid :=
  exec_inv (I := Database.Valid) (fun _ _ _ _ => execute_valid) hv h

theorem exec_keeps {cs : List N} {sts : List (Statement N T D V)} (hk : ∀ st ∈ sts, st.Keeps n cs)
    (h : exec (Database.execute eval) db sts = some db') : db'.select n cs = db.select n cs := by
  induction sts generalizing db with
  | nil =>
    cases h
    rfl
  | cons st sts ih =>
    obtain ⟨db₁, h1, h2⟩ := Option.bind_eq_some_iff.1 h
    rw [ih (fun st' hm => hk st' (List.mem_cons_of_mem _ hm)) h2]
    exact execute_keeps (hk st List.mem_cons_self) h1

/-- **Statements that demand nothing of the rows fail on no rows**, if the schemas make sense. -/
theorem exec_safe {sts : List (Statement N T D V)} (hs : ∀ st ∈ sts, st.Safe = true) (hv : db.Valid)
    (hc : exec Schema.check db.schema sts = some s') :
    ∃ db', exec (Database.execute eval) db sts = some db' := by
  induction sts generalizing db with
  | nil => exact ⟨db, rfl⟩
  | cons st sts ih =>
    obtain ⟨s₁, h1, h2⟩ := Option.bind_eq_some_iff.1 hc
    obtain ⟨rows₁, he⟩ : ∃ rows₁, db.execute eval st = some ⟨s₁, rows₁⟩ :=
      execute_safe (hs st List.mem_cons_self) hv h1
    obtain ⟨db', h'⟩ := ih (fun st' hm => hs st' (List.mem_cons_of_mem _ hm)) (execute_valid he) h2
    exact ⟨db', by rw [exec_cons, he, Option.bind_some, h']⟩

end

end Lib.Sql
