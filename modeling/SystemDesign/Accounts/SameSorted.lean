/-
  The change test of `ensureRole`.

  It compares the JSON texts of the sorted permissions.  Sorting by code units is canonical for
  lists that are permutations of each other, and the text of a list determines it: the test is
  equality of multisets (`sameSorted_iff`).  It sorts copies, so that the arrays it compares stay as
  they are (`sameSortedAt_eq`), and `ensureRole` saves an existing role iff the test fails.
-/
import SystemDesign.Accounts.System

namespace SystemDesign.Accounts

open Lib

namespace Seed

/-! ## The order of the strings -/

theorem le_cons {u v : UInt16} {s t : JsString} :
    le (u :: s) (v :: t) = true ↔ u.toNat < v.toNat ∨ u = v ∧ le s t = true := by
  simp only [le, Bool.or_eq_true, decide_eq_true_eq, UInt16.lt_iff_toNat_lt, Bool.and_eq_true, beq_iff_eq]

theorem le_total (s t : JsString) : le s t = true ∨ le t s = true := by
  induction s generalizing t with
  | nil => exact Or.inl rfl
  | cons u s ih =>
    cases t with
    | nil => exact Or.inr rfl
    | cons v t =>
      rw [le_cons, le_cons]
      rcases lt_trichotomy u.toNat v.toNat with h | h | h
      · exact Or.inl (Or.inl h)
      · have huv : u = v := UInt16.toNat_inj.1 h
        exact (ih t).imp (fun h => Or.inr ⟨huv, h⟩) fun h => Or.inr ⟨huv.symm, h⟩
      · exact Or.inr (Or.inl h)

theorem le_trans {s t r : JsString} (h : le s t = true) (h' : le t r = true) : le s r = true := by
  induction s generalizing t r with
  | nil => rfl
  | cons u s ih =>
    cases t with
    | nil => cases h
    | cons v t =>
      cases r with
      | nil => cases h'
      | cons w r =>
        rw [le_cons] at h h' ⊢
        rcases h with h | ⟨rfl, h⟩
        · rcases h' with h' | ⟨rfl, -⟩
          · exact Or.inl (h.trans h')
          · exact Or.inl h
        · rcases h' with h' | ⟨rfl, h'⟩
          · exact Or.inl h'
          · exact Or.inr ⟨rfl, ih h h'⟩

theorem le_antisymm {s t : JsString} (h : le s t = true) (h' : le t s = true) : s = t := by
  induction s generalizing t with
  | nil =>
    cases t with
    | nil => rfl
    | cons v t => cases h'
  | cons u s ih =>
    cases t with
    | nil => cases h
    | cons v t =>
      rw [le_cons] at h h'
      rcases h with h | ⟨rfl, h⟩
      · rcases h' with h' | ⟨rfl, -⟩
        · omega
        · omega
      · rcases h' with h' | ⟨-, h'⟩
        · omega
        · rw [ih h h']

instance : Std.Total fun s t : JsString => le s t = true := ⟨le_total⟩

instance : IsTrans JsString fun s t => le s t = true := ⟨fun _ _ _ => le_trans⟩

/-! ## The sorted list -/

theorem sort_perm (a : List JsString) : (sort a).Perm a := List.perm_insertionSort _ a

/-- A list in order that has the strings of `a` is the sorted `a`. -/
theorem eq_sort_of_pairwise {a b : List JsString} (h : b.Pairwise fun s t => le s t = true) (hp : b.Perm a) :
    b = sort a := by
  have hs : (sort a).Pairwise fun s t => le s t = true := List.pairwise_insertionSort _ a
  exact List.Perm.eq_of_pairwise (fun _ _ _ _ => le_antisymm) h hs (hp.trans (sort_perm a).symm)

/-- **The sorted list is canonical.** -/
theorem sort_eq_iff {a b : List JsString} : sort a = sort b ↔ a.Perm b := by
  constructor
  · intro h
    exact (sort_perm a).symm.trans (h ▸ sort_perm b)
  · intro h
    exact eq_sort_of_pairwise (List.pairwise_insertionSort _ a) ((sort_perm a).trans h)

theorem stringify_sort_iff {a b : List JsString} :
    Json.stringifyStrings (sort a) = Json.stringifyStrings (sort b) ↔ a.Perm b := by
  rw [← sort_eq_iff]
  exact ⟨fun h => Json.stringifyStrings_injective h, fun h => congrArg _ h⟩

/-- **The test is equality of multisets.** -/
theorem sameSorted_iff {a b : List JsString} : sameSorted a b = true ↔ a.Perm b := by
  rw [sameSorted, beq_iff_eq, stringify_sort_iff]

/-! ## The arrays

An array is a reference, and `sort` sorts it in place. -/

/-- The arrays of the program, by their references. -/
abbrev Arrays := List (List JsString)

/-- `[...a]`, a new array. -/
def spread (a : ℕ) : StateM Arrays ℕ := fun h => (h.length, h ++ [h[a]?.getD []])

/-- `a.sort()` -/
def sortAt (a : ℕ) : StateM Arrays ℕ := fun h => (a, h.set a (sort (h[a]?.getD [])))

/-- `JSON.stringify(a)` -/
def stringifyAt (a : ℕ) : StateM Arrays JsString := fun h => (Json.stringifyStrings (h[a]?.getD []), h)

/-- `JSON.stringify([...a].sort()) === JSON.stringify([...b].sort())` of two references. -/
def sameSortedAt (a b : ℕ) : StateM Arrays Bool := do
  let s ← stringifyAt (← sortAt (← spread a))
  let t ← stringifyAt (← sortAt (← spread b))
  return s == t

/-- The text of a sorted copy; the copy is a new array. -/
theorem stringify_spread {h : Arrays} {i : ℕ} {a : List JsString} (ha : h[i]? = some a) :
    (do stringifyAt (← sortAt (← spread i)) : StateM Arrays JsString) h =
      (Json.stringifyStrings (sort a), h ++ [sort a]) := by
  have hcopy : (h ++ [a])[h.length]? = some a := List.getElem?_concat_length
  have hsorted : (h ++ [a]).set h.length (sort a) = h ++ [sort a] := by simp
  have hread : (h ++ [sort a])[h.length]? = some (sort a) := List.getElem?_concat_length
  have hcode : (do stringifyAt (← sortAt (← spread i)) : StateM Arrays JsString) h =
    stringifyAt h.length ((h ++ [h[i]?.getD []]).set h.length
      (sort ((h ++ [h[i]?.getD []])[h.length]?.getD []))) := rfl
  rw [hcode, ha, Option.getD_some, hcopy, Option.getD_some, hsorted, stringifyAt, hread, Option.getD_some]

/-- **The test leaves every array as it is**; its two copies are new. -/
theorem sameSortedAt_eq {h : Arrays} {i j : ℕ} {a b : List JsString} (ha : h[i]? = some a)
    (hb : h[j]? = some b) : sameSortedAt i j h = (sameSorted a b, h ++ [sort a, sort b]) := by
  have hb' : (h ++ [sort a])[j]? = some b := by
    rw [List.getElem?_append_left (List.getElem?_eq_some_iff.1 hb).1, hb]
  have hcode : sameSortedAt i j h =
    let x := (do stringifyAt (← sortAt (← spread i)) : StateM Arrays JsString) h
    let y := (do stringifyAt (← sortAt (← spread j)) : StateM Arrays JsString) x.2
    (x.1 == y.1, y.2) := rfl
  rw [hcode, stringify_spread ha]
  dsimp only
  rw [stringify_spread hb', sameSorted, List.append_assoc, List.singleton_append]

end Seed

/-! ## What `ensureRole` writes -/

/-- The operations of `save`. -/
def AOp.saves : AOp → Bool
  | .selectRole _ | .insertRole _ _ _ _ | .updateRole _ _ => true
  | _ => false

/-- An UPDATE of a role. -/
def AOp.updates : AOp → Bool
  | .updateRole _ _ => true
  | _ => false

section
variable {bcrypt : Bcrypt} {t : Tables} {r : RoleRow} {tenantId name : JsString} {permissions : List JsString}

/-- The operations done, where the others do what they like in between and the lookup succeeds:
    they include one of `save` iff the permissions differ. -/
theorem ensureRole_saves_iff (hfind : t.findRole tenantId name = some (some r.load)) {c : Choice}
    (hc : c.outcome = .ok) {x : Tables} {cs : List (Choice × Tables)} (hcs : cs ≠ []) {os : List (AOp × Tables)}
    (h : Async.runAmong (AOp.step bcrypt) (fun _ _ => True) (Seed.ensureRole tenantId name permissions)
      ((c, x) :: cs) t = some os) :
    (∃ o ∈ os, o.1.saves = true) ↔ ¬ r.load.permissions.Perm permissions := by
  have hread : (AOp.findRole tenantId name).answer bcrypt c t = (.ok (some r.load), t) := by
    rw [AOp.answer, hfind, reading, hc]
    rfl
  simp only [Seed.ensureRole, perform, Async.call, Async.await_bind, Async.runAmong, AOp.step, hread,
    Option.bind_some, ↓reduceIte, Async.ret_bind] at h
  obtain ⟨os', h', rfl⟩ := Option.map_eq_some_iff.1 h
  rw [← Seed.sameSorted_iff]
  by_cases hs : Seed.sameSorted r.load.permissions permissions = true
  · simp only [hs, ↓reduceIte, Async.pure_eq, Async.runAmong, Option.some.injEq] at h'
    subst h'
    simp [hs, AOp.saves]
  · obtain ⟨y, cs', rfl⟩ := List.exists_cons_of_ne_nil hcs
    simp only [hs, ↓reduceIte, Bool.false_eq_true, Seed.save, perform, Async.call, Async.await_bind,
      Async.runAmong] at h'
    obtain ⟨z, -, h'⟩ := Option.bind_eq_some_iff.1 h'
    obtain ⟨os'', -, rfl⟩ := Option.map_eq_some_iff.1 h'
    exact ⟨fun _ => hs, fun _ => ⟨_, List.mem_cons_of_mem _ List.mem_cons_self, rfl⟩⟩

/-- The columns that the script's `save` sets: none iff the joined permissions are one text. -/
theorem changes_eq_none_iff :
    r.load.changes { r.load with permissions := permissions } = some ⟨none, none, none⟩ ↔
      joinBy comma r.load.permissions = joinBy comma permissions := by
  simp only [Role.changes, change, ↓reduceIte, Option.bind_some]
  by_cases hj : joinBy comma r.load.permissions = joinBy comma permissions
  · simp [hj]
  · simp only [hj, ↓reduceIte, iff_false]
    cases Text.ofJs (joinBy comma permissions) <;> simp

/-- Alone, where no operation fails by itself, an UPDATE is sent iff the permissions differ, for a list
    that the column can hold. -/
theorem ensureRole_updates_iff (hr : r ∈ t.roles) (hfind : t.findRole tenantId name = some (some r.load))
    (hp : Separable comma permissions) {cs : ℕ → Choice} (hcs : ∀ i, (cs i).outcome = .ok) :
    (∃ o ∈ (Async.runToEnd (AOp.answer bcrypt) (Seed.ensureRole tenantId name permissions) cs t).1,
      o.updates = true) ↔ ¬ r.load.permissions.Perm permissions := by
  have hread : (AOp.findRole tenantId name).answer bcrypt (cs 0) t = (.ok (some r.load), t) := by
    rw [AOp.answer, hfind, reading, hcs]
    rfl
  have hid : Uuid.ofText r.load.id = some r.id := Uuid.ofText_toText r.id
  have hselect : (AOp.selectRole r.load.id).answer bcrypt (cs 1) t = (.ok (some r.load), t) := by
    rw [AOp.answer, Tables.findRoleById_of_mem hr hid, reading, hcs]
    rfl
  simp only [Seed.ensureRole, perform, Async.call, Async.await_bind, Async.runToEnd, hread, Async.ret_bind]
  rw [← Seed.sameSorted_iff]
  by_cases hs : Seed.sameSorted r.load.permissions permissions = true
  · simp [hs, Async.runToEnd, AOp.updates]
  · -- two separable lists with one joined text are the same
    have hj : ¬ joinBy comma r.load.permissions = joinBy comma permissions := by
      intro hj
      have he : r.load.permissions = permissions := by
        rw [← splitBy_joinBy hp, ← hj]
        exact (splitBy_joinBy (separable_splitBy _)).symm
      exact hs (Seed.sameSorted_iff.2 (he ▸ List.Perm.refl _))
    have hch := mt changes_eq_none_iff.1 hj
    simp only [hs, ↓reduceIte, Bool.false_eq_true, Seed.save, perform, Async.call, Async.await_bind,
      Async.runToEnd, hselect, Async.ret_bind, hch]
    simp [AOp.updates]

end

/-- What the change test decides, and what `ensureRole` does by it. -/
structure ChangeTest (bcrypt : Bcrypt) : Prop where
  /-- The two texts are equal for permutations only. -/
  canonical : ∀ a b, Json.stringifyStrings (Seed.sort a) = Json.stringifyStrings (Seed.sort b) ↔ a.Perm b
  /-- Of two references to arrays, be they the same or not: the arrays stay, with two new ones after them. -/
  arrays : ∀ (h : Seed.Arrays) i j a b, h[i]? = some a → h[j]? = some b →
    Seed.sameSortedAt i j h = (decide (a.Perm b), h ++ [Seed.sort a, Seed.sort b])
  /-- Whatever the others do between its operations, an existing role is given to `roleRepo.save` iff it
      differs.  Its SELECT tells that `save` was called, whether a column then differs or not. -/
  saves : ∀ (t : Tables), ∀ r ∈ t.roles, ∀ tenantId name permissions, Uuid.ofText tenantId = some r.tenantId →
    Text.ofJs name = some r.name → ∀ c : Choice, c.outcome = .ok → ∀ x cs os, cs ≠ [] →
    Async.runAmong (AOp.step bcrypt) (fun _ _ => True) (Seed.ensureRole tenantId name permissions)
      ((c, x) :: cs) t = some os →
    ((∃ o ∈ os, o.1.saves = true) ↔ ¬ r.load.permissions.Perm permissions)
  /-- Alone, it is updated iff it differs, for permissions that the column can hold: other lists may have the
      column's text already, and `save` sees no difference. -/
  updates : ∀ (t : Tables), ∀ r ∈ t.roles, ∀ tenantId name permissions,
    Uuid.ofText tenantId = some r.tenantId → Text.ofJs name = some r.name → Separable comma permissions →
    ∀ cs : ℕ → Choice, (∀ i, (cs i).outcome = .ok) →
    ((∃ o ∈ (Async.runToEnd (AOp.answer bcrypt) (Seed.ensureRole tenantId name permissions) cs t).1,
      o.updates = true) ↔ ¬ r.load.permissions.Perm permissions)

/-- **The change test is exactly equality of multisets**, and decides whether a role is written. -/
theorem changeTest_exact (bcrypt : Bcrypt) : ChangeTest bcrypt where
  canonical a b := Seed.stringify_sort_iff
  arrays h i j a b ha hb := by
    have hs : Seed.sameSorted a b = decide (a.Perm b) := by
      rw [Bool.eq_iff_iff, Seed.sameSorted_iff, decide_eq_true_eq]
    rw [Seed.sameSortedAt_eq ha hb, hs]
  saves t r hr tenantId name permissions htid hn c hc x cs os hcs h :=
    ensureRole_saves_iff (Tables.findRole_of_mem hr htid hn) hc hcs h
  updates t r hr tenantId name permissions htid hn hp cs hcs :=
    ensureRole_updates_iff hr (Tables.findRole_of_mem hr htid hn) hp hcs

/-- The requester's role, with its permissions in the other order. -/
def reorderedRole : RoleRow where
  id := Uuid.ofNat 2
  tenantId := Uuid.ofNat 1
  name := ⟨js "admin", by decide, by decide⟩
  permissions := ⟨js "po.read,po.create", by decide, by decide⟩

def reorderedTables : Tables where
  tenants := (migrated (Uuid.ofNat 1)).tenants
  users := []
  roles := [reorderedRole]
  valid := by decide

/-- The role is left as it is where the script requests its permissions, and is saved for others. -/
theorem changeTest_exact_reordered :
    Json.stringifyStrings (Seed.sort [js "po.read", js "po.create"]) =
      Json.stringifyStrings (Seed.sort Seed.REQUESTER_PERMISSIONS) ∧
    Seed.sameSortedAt 0 0 [[js "b", js "a"]] =
      (true, [[js "b", js "a"], Seed.sort [js "b", js "a"], Seed.sort [js "b", js "a"]]) ∧
    (∃ os, Async.runAmong (AOp.step sampleBcrypt) (fun _ _ => True)
      (Seed.ensureRole (Uuid.ofNat 1).toText (js "admin") Seed.APPROVER_PERMISSIONS)
      [(sampleChoice 3, reorderedTables), (sampleChoice 3, reorderedTables)] reorderedTables = some os ∧
      ∃ o ∈ os, o.1.saves = true) ∧
    ¬ ∃ o ∈ (Async.runToEnd (AOp.answer sampleBcrypt)
      (Seed.ensureRole (Uuid.ofNat 1).toText (js "admin") Seed.REQUESTER_PERMISSIONS)
      (fun _ => sampleChoice 3) reorderedTables).1, o.updates = true := by
  have htest : ChangeTest sampleBcrypt := changeTest_exact sampleBcrypt
  have htid : Uuid.ofText (Uuid.ofNat 1).toText = some reorderedRole.tenantId := Uuid.ofText_toText _
  have hr : reorderedRole ∈ reorderedTables.roles := List.mem_singleton.2 rfl
  refine ⟨(htest.canonical _ _).2 (by decide), ?_, ?_, ?_⟩
  · rw [htest.arrays _ 0 0 _ _ rfl rfl]
    rfl
  · have hrun : (Async.runAmong (AOp.step sampleBcrypt) (fun _ _ => True)
        (Seed.ensureRole (Uuid.ofNat 1).toText (js "admin") Seed.APPROVER_PERMISSIONS)
        [(sampleChoice 3, reorderedTables), (sampleChoice 3, reorderedTables)]
        reorderedTables).isSome = true := by
      decide +kernel
    obtain ⟨os, hos⟩ := Option.isSome_iff_exists.1 hrun
    refine ⟨os, hos, (htest.saves _ _ hr _ _ _ htid (by decide) _ rfl _ _ _ (by simp) hos).2 ?_⟩
    decide
  · refine mt (htest.updates _ _ hr _ _ _ htid (by decide) (by decide) _ fun _ => rfl).1 ?_
    decide

end SystemDesign.Accounts
