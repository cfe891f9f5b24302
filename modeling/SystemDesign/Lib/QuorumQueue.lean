/-
  A quorum queue with a delivery limit and a dead-letter queue behind it.

  Each copy of a message in the queue has its own number.  A copy is ready, delivered on a channel
  and not yet settled, dead-lettered or acked; what a copy does is move between these places.

  * `placed_enqueue`, `placed_deliver`, …: no operation adds, drops or changes a copy, except that
    `enqueue` adds one;
  * `QQueue.Sound`: the copies are told apart by their numbers, and `places_eq_one`: then each is
    in exactly one place.
-/
import Mathlib

namespace Lib

/-- A copy of a message, and how often it was given back to the queue. -/
structure Copy (μ : Type) where
  cid : ℕ
  msg : μ
  count : ℕ

/-- What no move changes of a copy. -/
def Copy.key {μ : Type} (c : Copy μ) : ℕ × μ := (c.cid, c.msg)

/-- A queue with its dead-letter queue.  `unacked` has the channel of each delivery; the copies in
    `acked` have left the broker. -/
structure QQueue (μ : Type) where
  nextId : ℕ
  ready : List (Copy μ)
  unacked : List (ℕ × Copy μ)
  dead : List (Copy μ)
  acked : List (Copy μ)

namespace QQueue

variable {μ : Type} (q : QQueue μ)

def empty : QQueue μ := ⟨0, [], [], [], []⟩

/-- A message is routed to the queue. -/
def enqueue (m : μ) : QQueue μ :=
  { q with nextId := q.nextId + 1, ready := q.ready ++ [⟨q.nextId, m, 0⟩] }

/-- The ready copy `cid` is delivered on the channel `ch`. -/
def deliver (ch cid : ℕ) : Option (Copy μ × QQueue μ) :=
  (q.ready.find? (·.cid == cid)).map fun c =>
    (c, { q with ready := q.ready.eraseP (·.cid == cid), unacked := (ch, c) :: q.unacked })

/-- `x` is the delivery of the copy `cid` on the channel `ch`. -/
def isDelivery (ch cid : ℕ) (x : ℕ × Copy μ) : Bool := x.1 == ch && x.2.cid == cid

/-- The delivery is acked; without effect where it is not outstanding. -/
def ack (ch cid : ℕ) : QQueue μ :=
  match q.unacked.find? (isDelivery ch cid) with
  | none => q
  | some x => { q with unacked := q.unacked.eraseP (isDelivery ch cid), acked := x.2 :: q.acked }

/-- A copy goes back to the queue, or to the dead-letter queue once it was given back more than
    `limit` times. -/
def giveBack (limit : ℕ) (c : Copy μ) : QQueue μ :=
  if limit < c.count + 1 then { q with dead := q.dead ++ [{ c with count := c.count + 1 }] }
  else { q with ready := { c with count := c.count + 1 } :: q.ready }

/-- The delivery is nacked; without effect where it is not outstanding. -/
def nack (limit ch cid : ℕ) (requeue : Bool) : QQueue μ :=
  match q.unacked.find? (isDelivery ch cid) with
  | none => q
  | some x =>
    let q' := { q with unacked := q.unacked.eraseP (isDelivery ch cid) }
    if requeue then q'.giveBack limit x.2 else { q' with dead := q'.dead ++ [x.2] }

/-- The channels `gone` are lost: what was delivered on them is given back. -/
def dropChannels (limit : ℕ) (gone : ℕ → Bool) : QQueue μ :=
  (q.unacked.filter fun x => gone x.1).foldl (fun q x => q.giveBack limit x.2)
    { q with unacked := q.unacked.filter fun x => !gone x.1 }

/-! ## Where the copies are -/

/-- All copies there ever were. -/
def placed : List (ℕ × μ) :=
  (q.ready ++ q.unacked.map Prod.snd ++ q.dead ++ q.acked).map Copy.key

theorem find?_perm {α : Type} {p : α → Bool} {l : List α} {a : α} (h : l.find? p = some a) :
    l.Perm (a :: l.eraseP p) := by
  induction l with
  | nil => cases h
  | cons b l ih =>
    cases hb : p b with
    | true =>
      rw [List.find?_cons_of_pos hb] at h; cases h
      rw [List.eraseP_cons_of_pos hb]
    | false =>
      rw [List.find?_cons_of_neg (by simp [hb])] at h
      rw [List.eraseP_cons_of_neg (by simp [hb])]
      exact ((ih h).cons b).trans (List.Perm.swap a b _)

theorem placed_cons_unacked (x : ℕ × Copy μ) :
    (placed { q with unacked := x :: q.unacked }).Perm (x.2.key :: q.placed) := by
  simp only [placed, List.map_cons, List.append_assoc, List.cons_append]
  exact List.Perm.map _ List.perm_middle

theorem placed_dead (c : Copy μ) :
    (placed { q with dead := q.dead ++ [c] }).Perm (c.key :: q.placed) := by
  have h1 : (q.ready ++ q.unacked.map Prod.snd ++ q.dead ++ c :: q.acked).Perm
      (c :: (q.ready ++ q.unacked.map Prod.snd ++ q.dead ++ q.acked)) := List.perm_middle
  simpa [placed] using h1.map Copy.key

theorem placed_cons_acked (c : Copy μ) :
    (placed { q with acked := c :: q.acked }).Perm (c.key :: q.placed) :=
  List.Perm.map _ List.perm_middle

/-- Taking a ready copy away. -/
theorem placed_take {p : Copy μ → Bool} {c : Copy μ} (h : q.ready.find? p = some c) :
    q.placed.Perm (c.key :: placed { q with ready := q.ready.eraseP p }) := by
  simp only [placed, List.append_assoc]
  exact List.Perm.map _ ((find?_perm h).append_right _)

/-- Taking a delivery away. -/
theorem placed_settle {p : ℕ × Copy μ → Bool} {x : ℕ × Copy μ} (h : q.unacked.find? p = some x) :
    q.placed.Perm (x.2.key :: placed { q with unacked := q.unacked.eraseP p }) := by
  refine List.Perm.trans ?_ (placed_cons_unacked { q with unacked := q.unacked.eraseP p } x)
  simp only [placed, List.append_assoc]
  exact List.Perm.map _ ((((find?_perm h).map Prod.snd).append_right _).append_left _)

theorem placed_enqueue (m : μ) : (q.enqueue m).placed.Perm ((q.nextId, m) :: q.placed) := by
  simp only [placed, enqueue, List.append_assoc, List.singleton_append]
  exact List.Perm.map _ List.perm_middle

theorem placed_deliver {q q' : QQueue μ} {ch cid : ℕ} {c : Copy μ}
    (h : q.deliver ch cid = some (c, q')) : q'.placed.Perm q.placed := by
  obtain ⟨c', hc, he⟩ := Option.map_eq_some_iff.1 h
  cases he
  exact (placed_cons_unacked _ (ch, c)).trans (placed_take q hc).symm

theorem placed_ack (ch cid : ℕ) : (q.ack ch cid).placed.Perm q.placed := by
  unfold ack
  cases hx : q.unacked.find? (isDelivery ch cid) with
  | none => exact List.Perm.refl _
  | some x => exact (placed_cons_acked _ x.2).trans (placed_settle q hx).symm

theorem placed_giveBack (limit : ℕ) (c : Copy μ) :
    (q.giveBack limit c).placed.Perm (c.key :: q.placed) := by
  unfold giveBack
  split_ifs
  · exact placed_dead q _
  · exact List.Perm.refl _

theorem placed_nack (limit ch cid : ℕ) (requeue : Bool) :
    (q.nack limit ch cid requeue).placed.Perm q.placed := by
  unfold nack
  cases hx : q.unacked.find? (isDelivery ch cid) with
  | none => exact List.Perm.refl _
  | some x =>
    cases requeue with
    | true => exact (placed_giveBack _ limit x.2).trans (placed_settle q hx).symm
    | false => exact (placed_dead _ x.2).trans (placed_settle q hx).symm

theorem placed_foldl (limit : ℕ) (xs : List (ℕ × Copy μ)) :
    (xs.foldl (fun q x => q.giveBack limit x.2) q).placed.Perm
      (xs.map (fun x => x.2.key) ++ q.placed) := by
  induction xs generalizing q with
  | nil => exact List.Perm.refl _
  | cons x xs ih =>
    exact (ih _).trans (((placed_giveBack q limit x.2).append_left _).trans List.perm_middle)

theorem placed_filter (p : ℕ × Copy μ → Bool) :
    ((q.unacked.filter p).map (fun x => x.2.key) ++
      placed { q with unacked := q.unacked.filter fun x => !p x }).Perm q.placed := by
  have h1 := (List.filter_append_perm p q.unacked).map fun x => x.2.key
  simp only [placed, List.map_append, List.append_assoc, List.map_map] at h1 ⊢
  refine (List.perm_append_comm_assoc _ _ _).trans (List.Perm.append_left _ ?_)
  rw [← List.append_assoc]
  exact h1.append_right _

theorem placed_dropChannels (limit : ℕ) (gone : ℕ → Bool) :
    (q.dropChannels limit gone).placed.Perm q.placed :=
  (placed_foldl _ limit _).trans (placed_filter q fun x => gone x.1)

/-! ## Each copy is in one place -/

/-- The copies are told apart by their numbers, all given out before `nextId`. -/
structure Sound : Prop where
  nodup : (q.placed.map Prod.fst).Nodup
  lt : ∀ x ∈ q.placed, x.1 < q.nextId

theorem sound_empty : (empty : QQueue μ).Sound :=
  ⟨List.nodup_nil, fun _ h => absurd h List.not_mem_nil⟩

/-- What moves copies between their places keeps them apart. -/
theorem Sound.of_perm {q q' : QQueue μ} (h : q.Sound) (hp : q'.placed.Perm q.placed)
    (hn : q'.nextId = q.nextId) : q'.Sound :=
  ⟨(hp.map Prod.fst).nodup_iff.2 h.nodup, fun x hx => hn ▸ h.lt x (hp.mem_iff.1 hx)⟩

theorem Sound.enqueue {q : QQueue μ} (h : q.Sound) (m : μ) : (q.enqueue m).Sound := by
  have hp := placed_enqueue q m
  refine ⟨(hp.map Prod.fst).nodup_iff.2 (List.nodup_cons.2 ⟨fun hm => ?_, h.nodup⟩), fun x hx => ?_⟩
  · obtain ⟨x, hx, he⟩ := List.mem_map.1 hm
    exact absurd (h.lt x hx) (by rw [he]; exact Nat.lt_irrefl _)
  · rcases List.mem_cons.1 (hp.mem_iff.1 hx) with rfl | hx
    · exact Nat.lt_succ_self _
    · exact (h.lt x hx).trans (Nat.lt_succ_self _)

/-- A copy has one message. -/
theorem Sound.msg_eq {q : QQueue μ} (h : q.Sound) {cid : ℕ} {m m' : μ} (h1 : (cid, m) ∈ q.placed)
    (h2 : (cid, m') ∈ q.placed) : m = m' :=
  congrArg Prod.snd (List.inj_on_of_nodup_map h.nodup h1 h2 rfl)

/-- How many times the copy `cid` is in a place. -/
def copies (cid : ℕ) (l : List (Copy μ)) : ℕ := l.countP (·.cid == cid)

/-- **Each copy is in exactly one place**: ready, delivered, dead-lettered or acked. -/
theorem places_eq_one {q : QQueue μ} (h : q.Sound) {cid : ℕ} {m : μ} (hm : (cid, m) ∈ q.placed) :
    copies cid q.ready + copies cid (q.unacked.map Prod.snd) + copies cid q.dead +
      copies cid q.acked = 1 := by
  have h1 := List.count_eq_one_of_mem h.nodup (List.mem_map_of_mem (f := Prod.fst) hm)
  rw [placed, List.map_map, List.count, List.countP_map] at h1
  simp only [copies, ← List.countP_append]
  exact h1

/-! ## What the operations leave alone -/

section
variable (limit ch cid : ℕ)

@[simp] theorem enqueue_unacked (m : μ) : (q.enqueue m).unacked = q.unacked := rfl
@[simp] theorem enqueue_acked (m : μ) : (q.enqueue m).acked = q.acked := rfl

@[simp] theorem giveBack_nextId (c : Copy μ) : (q.giveBack limit c).nextId = q.nextId := by
  unfold giveBack; split_ifs <;> rfl

@[simp] theorem giveBack_unacked (c : Copy μ) : (q.giveBack limit c).unacked = q.unacked := by
  unfold giveBack; split_ifs <;> rfl

@[simp] theorem giveBack_acked (c : Copy μ) : (q.giveBack limit c).acked = q.acked := by
  unfold giveBack; split_ifs <;> rfl

@[simp] theorem ack_nextId : (q.ack ch cid).nextId = q.nextId := by
  unfold ack; split <;> rfl

theorem ack_unacked : (q.ack ch cid).unacked.Sublist q.unacked := by
  unfold ack
  split
  · exact List.Sublist.refl _
  · exact List.eraseP_sublist

/-- An ack moves the copy of its delivery only. -/
theorem mem_ack_acked {c : Copy μ} (h : c ∈ (q.ack ch cid).acked) :
    c ∈ q.acked ∨ (ch, c) ∈ q.unacked ∧ c.cid = cid := by
  unfold ack at h
  split at h
  · exact Or.inl h
  · next x hx =>
    rcases List.mem_cons.1 h with rfl | h
    · have hd := List.find?_some hx
      simp only [isDelivery, Bool.and_eq_true, beq_iff_eq] at hd
      obtain ⟨rfl, hc⟩ := hd
      exact Or.inr ⟨List.mem_of_find?_eq_some hx, hc⟩
    · exact Or.inl h

@[simp] theorem nack_nextId (rq : Bool) : (q.nack limit ch cid rq).nextId = q.nextId := by
  unfold nack; split <;> [rfl; cases rq <;> simp]

theorem nack_unacked (rq : Bool) : (q.nack limit ch cid rq).unacked.Sublist q.unacked := by
  unfold nack
  split
  · exact List.Sublist.refl _
  · cases rq <;> simp [List.eraseP_sublist]

@[simp] theorem nack_acked (rq : Bool) : (q.nack limit ch cid rq).acked = q.acked := by
  unfold nack; split <;> [rfl; cases rq <;> simp]

theorem foldl_giveBack (xs : List (ℕ × Copy μ)) :
    let q' := xs.foldl (fun q x => q.giveBack limit x.2) q
    q'.nextId = q.nextId ∧ q'.unacked = q.unacked ∧ q'.acked = q.acked := by
  induction xs generalizing q with
  | nil => exact ⟨rfl, rfl, rfl⟩
  | cons x xs ih => simpa using ih (q.giveBack limit x.2)

variable (gone : ℕ → Bool)

@[simp] theorem dropChannels_nextId : (q.dropChannels limit gone).nextId = q.nextId :=
  (foldl_giveBack _ limit _).1

@[simp] theorem dropChannels_unacked :
    (q.dropChannels limit gone).unacked = q.unacked.filter fun x => !gone x.1 :=
  (foldl_giveBack _ limit _).2.1

@[simp] theorem dropChannels_acked : (q.dropChannels limit gone).acked = q.acked :=
  (foldl_giveBack _ limit _).2.2

end

/-- What a delivery takes from where and puts where. -/
theorem deliver_some {q q' : QQueue μ} {ch cid : ℕ} {c : Copy μ}
    (h : q.deliver ch cid = some (c, q')) :
    c ∈ q.ready ∧ c.cid = cid ∧ q'.unacked = (ch, c) :: q.unacked ∧ q'.acked = q.acked ∧
      q'.nextId = q.nextId := by
  obtain ⟨c', hc, he⟩ := Option.map_eq_some_iff.1 h
  cases he
  exact ⟨List.mem_of_find?_eq_some hc, by simpa using List.find?_some hc, rfl, rfl, rfl⟩

theorem mem_placed_ready {c : Copy μ} (h : c ∈ q.ready) : (c.cid, c.msg) ∈ q.placed :=
  List.mem_map.2 ⟨c, by simp [h], rfl⟩

theorem mem_placed_unacked {x : ℕ × Copy μ} (h : x ∈ q.unacked) : (x.2.cid, x.2.msg) ∈ q.placed := by
  have h1 := List.mem_map_of_mem (f := Prod.snd) h
  exact List.mem_map.2 ⟨x.2, by simp only [List.mem_append]; simp [h1], rfl⟩

end QQueue

end Lib
