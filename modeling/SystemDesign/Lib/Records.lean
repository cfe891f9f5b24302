/-
  Tables read as lists of records.

  A program sees the rows of a table as records: it reads some of the columns and does not care about
  the order.  `Shows cs val rows l`: the columns `cs` of the rows hold the values of the records `l`.

  * `shows_of_forall`: rows that each are a record show a list of records;
  * `Shows.column_iff`, `Shows.unique_iff`, `Shows.refers_iff`: what a constraint says of the rows, said
    of the records;
  * `Selects`, `Shows.selects_iff`: one row that meets a condition, and the record that it holds;
  * `Shows.insert`, `Shows.update`: writes of rows as writes of records;
  * `Write`, `Database.write`: an INSERT, and an UPDATE of the rows with a key.
-/
import SystemDesign.Lib.Statement

namespace Lib.Sql

section
variable {N V α β κ : Type}

/-- The rows, in some order, hold the values of the records in these columns. -/
def Shows (cs : List N) (val : α → Row N V) (rows : List (Row N V)) (l : List α) : Prop :=
  ∃ l', l'.Perm l ∧ List.Forall₂ (fun row x => ∀ c ∈ cs, row c = val x c) rows l'

variable {cs ks : List N} {val : α → Row N V} {rows : List (Row N V)} {l : List α}

@[simp] theorem shows_nil : Shows cs val [] [] := ⟨[], List.Perm.refl _, .nil⟩

/-- **Rows that each are a record** show a list of records. -/
theorem shows_of_forall (h : ∀ row ∈ rows, ∃ x, ∀ c ∈ cs, row c = val x c) : ∃ l, Shows cs val rows l := by
  induction rows with
  | nil => exact ⟨[], shows_nil⟩
  | cons row rows ih =>
    obtain ⟨x, hx⟩ := h row List.mem_cons_self
    obtain ⟨l, l', hp, hl⟩ := ih fun r hr => h r (List.mem_cons_of_mem _ hr)
    exact ⟨x :: l, x :: l', hp.cons x, .cons hx hl⟩

/-- Some columns of the rows are those of the records, in some order. -/
theorem Shows.select (h : Shows cs val rows l) (hks : ks ⊆ cs) :
    (rows.map ks.map).Perm (l.map fun x => ks.map (val x)) := by
  obtain ⟨l', hp, hl⟩ := h
  have he : rows.map ks.map = l'.map fun x => ks.map (val x) := by
    clear hp
    induction hl with
    | nil => rfl
    | cons hx _ ih =>
      rw [List.map_cons, List.map_cons, ih]
      exact congrArg (· :: _) (List.map_congr_left fun c hc => hx c (hks hc))
  rw [he]
  exact hp.map _

/-! ## Constraints -/

/-- The constraints of a table, one after the other. -/
theorem admits_iff {T D : Type} [DecidableEq N] [Typed T V] {R : Rows N V} {t : Table N T D} :
    t.Admits R ↔
      (∀ c ∈ t.columns, ∀ vs ∈ Sql.select R t.name [c.name], ∀ v ∈ vs, c.Admits v) ∧
        (∀ u ∈ t.uniques, (Sql.select R t.name u.columns).Pairwise fun vs ws => none ∈ vs ∨ vs ≠ ws) ∧
          ∀ fk ∈ t.foreignKeys, ∀ vs ∈ Sql.select R t.name fk.columns,
            none ∈ vs ∨ vs ∈ Sql.select R fk.table fk.refColumns :=
  ⟨fun h => ⟨h.columns, h.uniques, h.foreignKeys⟩, fun ⟨h1, h2, h3⟩ => ⟨h1, h2, h3⟩⟩

/-- **A constraint of one column.** -/
theorem Shows.column_iff (h : Shows cs val rows l) {c : N} (hc : c ∈ cs) {P : Option V → Prop} :
    (∀ vs ∈ rows.map [c].map, ∀ v ∈ vs, P v) ↔ ∀ x ∈ l, P (val x c) := by
  have hp := h.select (List.cons_subset.2 ⟨hc, List.nil_subset cs⟩)
  constructor
  · intro hall x hx
    exact hall [val x c] (hp.mem_iff.2 (List.mem_map.2 ⟨x, hx, rfl⟩)) _ List.mem_cons_self
  · intro hall vs hvs v hv
    obtain ⟨x, hx, rfl⟩ := List.mem_map.1 (hp.mem_iff.1 hvs)
    rw [List.mem_singleton.1 hv]
    exact hall x hx

/-- **A key whose columns are not null**: the records differ in it. -/
theorem Shows.unique_iff (h : Shows cs val rows l) (hks : ks ⊆ cs) {key : α → κ}
    (hkey : ∀ x y, ks.map (val x) = ks.map (val y) ↔ key x = key y) (hnn : ∀ x, none ∉ ks.map (val x)) :
    (rows.map ks.map).Pairwise (fun vs ws => none ∈ vs ∨ vs ≠ ws) ↔ (l.map key).Nodup := by
  have hsymm : ∀ {vs ws : List (Option V)}, (none ∈ vs ∨ vs ≠ ws) → none ∈ ws ∨ ws ≠ vs := by
    intro vs ws h
    by_cases he : ws = vs
    · subst he
      exact Or.inl (h.resolve_right fun hne => hne rfl)
    · exact Or.inr he
  rw [(h.select hks).pairwise_iff hsymm, List.pairwise_map, List.Nodup, List.pairwise_map]
  exact List.Pairwise.iff fun x y => (or_iff_right (hnn x)).trans (not_congr (hkey x y))

/-- **A foreign key**: each record has none, or that of another. -/
theorem Shows.refers_iff (h : Shows cs val rows l) (hks : ks ⊆ cs) {ds js : List N} {val' : β → Row N V}
    {rows' : List (Row N V)} {l' : List β} (h' : Shows ds val' rows' l') (hjs : js ⊆ ds) :
    (∀ vs ∈ rows.map ks.map, none ∈ vs ∨ vs ∈ rows'.map js.map) ↔
      ∀ x ∈ l, none ∈ ks.map (val x) ∨ ∃ y ∈ l', js.map (val' y) = ks.map (val x) := by
  have hp := h.select hks
  have hp' := h'.select hjs
  constructor
  · intro hall x hx
    refine (hall _ (hp.mem_iff.2 (List.mem_map_of_mem hx))).imp_right fun hm => ?_
    exact List.mem_map.1 (hp'.mem_iff.1 hm)
  · intro hall vs hvs
    obtain ⟨x, hx, rfl⟩ := List.mem_map.1 (hp.mem_iff.1 hvs)
    exact (hall x hx).imp_right fun hy => hp'.mem_iff.2 (List.mem_map.2 hy)

/-! ## Reads -/

/-- A query for one row that meets a condition, in any order, may return a row that holds this record; or
    none, where no row meets it. -/
def Selects (cs : List N) (val : α → Row N V) (rows : List (Row N V)) (p : Row N V → Prop) : Option α → Prop
  | none => ∀ row ∈ rows, ¬ p row
  | some x => ∃ row ∈ rows, p row ∧ ∀ c ∈ cs, row c = val x c

theorem forall₂_left {R : α → β → Prop} {l : List α} {l' : List β} (h : List.Forall₂ R l l') {a : α}
    (ha : a ∈ l) : ∃ b ∈ l', R a b := by
  induction h with
  | nil => cases ha
  | cons hab _ ih =>
    rcases List.mem_cons.1 ha with rfl | ha
    · exact ⟨_, List.mem_cons_self, hab⟩
    · obtain ⟨b, hb, hr⟩ := ih ha
      exact ⟨b, List.mem_cons_of_mem _ hb, hr⟩

/-- **A query by a key** returns the one record that has it. -/
theorem Shows.selects_iff (h : Shows cs val rows l) {p : Row N V → Prop} {q : α → Bool}
    (hpq : ∀ row x, (∀ c ∈ cs, row c = val x c) → (p row ↔ q x = true))
    (hval : ∀ x y, (∀ c ∈ cs, val x c = val y c) → x = y)
    (hone : ∀ x ∈ l, ∀ y ∈ l, q x = true → q y = true → x = y) {r : Option α} :
    Selects cs val rows p r ↔ r = l.find? q := by
  obtain ⟨l', hp, hl⟩ := h
  have rec_of : ∀ row ∈ rows, ∃ x ∈ l, ∀ c ∈ cs, row c = val x c := fun row hr => by
    obtain ⟨x, hx, he⟩ := forall₂_left hl hr
    exact ⟨x, hp.mem_iff.1 hx, he⟩
  have row_of : ∀ x ∈ l, ∃ row ∈ rows, ∀ c ∈ cs, row c = val x c := fun x hx => by
    obtain ⟨row, hr, he⟩ := forall₂_left hl.flip (hp.mem_iff.2 hx)
    exact ⟨row, hr, he⟩
  cases r with
  | none =>
    rw [eq_comm, List.find?_eq_none]
    constructor
    · intro hno x hx hq
      obtain ⟨row, hr, he⟩ := row_of x hx
      exact hno row hr ((hpq row x he).2 hq)
    · intro hno row hr hpr
      obtain ⟨x, hx, he⟩ := rec_of row hr
      exact hno x hx ((hpq row x he).1 hpr)
  | some x =>
    constructor
    · rintro ⟨row, hr, hpr, he⟩
      obtain ⟨y, hy, he'⟩ := rec_of row hr
      obtain rfl : x = y := hval x y fun c hc => (he c hc).symm.trans (he' c hc)
      have hq := (hpq row x he).1 hpr
      obtain ⟨z, hz⟩ := Option.isSome_iff_exists.1 (List.find?_isSome.2 ⟨x, hy, hq⟩)
      rw [hz, hone x hy z (List.mem_of_find?_eq_some hz) hq (List.find?_some hz)]
    · intro hf
      obtain ⟨row, hr, he⟩ := row_of x (List.mem_of_find?_eq_some hf.symm)
      exact ⟨row, hr, (hpq row x he).2 (List.find?_some hf.symm), he⟩

/-! ## Writes -/

/-- **A row inserted** is a record more. -/
theorem Shows.insert (h : Shows cs val rows l) {row : Row N V} {x : α} (hx : ∀ c ∈ cs, row c = val x c) :
    Shows cs val (rows ++ [row]) (x :: l) := by
  obtain ⟨l', hp, hl⟩ := h
  refine ⟨l' ++ [x], ?_, List.rel_append hl (.cons hx .nil)⟩
  exact (List.perm_append_singleton x l').trans (hp.cons x)

/-- **Rows updated** are records updated. -/
theorem Shows.update (h : Shows cs val rows l) {f : Row N V → Row N V} {g : α → α}
    (hf : ∀ row x, (∀ c ∈ cs, row c = val x c) → ∀ c ∈ cs, f row c = val (g x) c) :
    Shows cs val (rows.map f) (l.map g) := by
  obtain ⟨l', hp, hl⟩ := h
  refine ⟨l'.map g, hp.map g, ?_⟩
  clear hp
  induction hl with
  | nil => exact .nil
  | cons hx _ ih => exact .cons (hf _ _ hx) ih

/-- A table without foreign keys minds its own rows only. -/
theorem admits_of_rows {T D : Type} [DecidableEq N] [Typed T V] {R R' : Rows N V} {t : Table N T D}
    (h : t.Admits R) (hfk : t.foreignKeys = []) (hrows : R' t.name = R t.name) : t.Admits R' := by
  obtain ⟨hc, hu, -⟩ := admits_iff.1 h
  refine admits_iff.2 ⟨?_, ?_, by rw [hfk]; nofun⟩
  · simpa only [Sql.select, hrows] using hc
  · simpa only [Sql.select, hrows] using hu

end

/-! ## Writing rows -/

/-- A statement that changes rows. -/
inductive Write (N V : Type) where
  | insert (n : N) (values : List (N × V))
  /-- `UPDATE n SET values WHERE key = value` -/
  | update (n : N) (values : List (N × V)) (key : N) (value : V)

section
variable {N T D V : Type} [DecidableEq N] [DecidableEq T] [DecidableEq V] [Typed T V]

/-- The row with some values set. -/
def Row.set (row : Row N V) (values : List (N × V)) : Row N V := fun c => (values.lookup c).or (row c)

/-- The rows after an UPDATE. -/
def updateRows (rows : Rows N V) (n : N) (values : List (N × V)) (key : N) (value : V) : Rows N V :=
  Function.update rows n ((rows n).map fun row => if row key = some value then row.set values else row)

/-- **Execute a write**; `none` where it fails. -/
def Database.write (eval : D → V) (db : Database N T D V) : Write N V → Option (Database N T D V)
  | .insert n values => db.execute eval (.insert n values)
  | .update n values key value =>
    if (∃ t ∈ db.schema, t.name = n ∧ values.map (·.1) ⊆ t.columnNames ∧ key ∈ t.columnNames) ∧
        ∀ t ∈ db.schema, t.Admits (updateRows db.rows n values key value) then
      some ⟨db.schema, updateRows db.rows n values key value⟩
    else none

variable {eval : D → V} {db : Database N T D V} {n key : N} {values : List (N × V)} {value : V}
  {t : Table N T D}

/-- **An INSERT into a table that has the columns** fails only where it leaves rows that are not valid. -/
theorem write_insert (hw : db.schema.Wf) (ht : db.schema.find? (·.name = n) = some t)
    (hc : values.map (·.1) ⊆ t.columnNames) :
    db.write eval (.insert n values) =
      if Database.Valid ⟨db.schema, Function.update db.rows n (db.rows n ++ [t.newRow eval values])⟩ then
        some ⟨db.schema, Function.update db.rows n (db.rows n ++ [t.newRow eval values])⟩
      else none := by
  have hname : t.name = n := by simpa using List.find?_some ht
  have hself : db.schema.map (fun r => if r.name = n then t else r) = db.schema := by
    refine (List.map_congr_left fun r hr => ?_).trans (List.map_id _)
    split_ifs with he
    · exact hw.eq_of_name (List.mem_of_find?_eq_some ht) hr (hname.trans he.symm)
    · rfl
  have hcheck : db.schema.check (.insert (D := D) n values) = some db.schema := by
    refine check_eq_some.2 ⟨?_, hw⟩
    simp only [Schema.alter, Schema.onTable, ht, Option.bind_some, if_pos hc, Option.map_some, hself]
  simp only [Database.write, Database.execute, hcheck, Database.affect, ht, Option.map_some, Option.bind_some]
  refine if_congr ⟨fun h => ⟨hw, h⟩, fun h => h.admits⟩ rfl rfl

/-- **An UPDATE of columns that the table has** fails only where it leaves rows that are not valid. -/
theorem write_update (hw : db.schema.Wf) (ht : t ∈ db.schema) (hname : t.name = n)
    (hc : values.map (·.1) ⊆ t.columnNames) (hk : key ∈ t.columnNames) :
    db.write eval (.update n values key value) =
      if Database.Valid ⟨db.schema, updateRows db.rows n values key value⟩ then
        some ⟨db.schema, updateRows db.rows n values key value⟩
      else none := by
  rw [Database.write]
  exact if_congr ⟨fun h => ⟨hw, h.2⟩, fun h => ⟨⟨t, ht, hname, hc, hk⟩, h.admits⟩⟩ rfl rfl

end

end Lib.Sql
