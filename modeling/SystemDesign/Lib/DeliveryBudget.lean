/-
  How many deliveries a queue with a delivery limit has left.

  A ready copy that was given back `n` times can be delivered `limit + 1 - n` times, and one that
  is delivered once less.  `QQueue.budget` adds this up: giving back costs nothing, each delivery
  costs one, and only a new message adds to it.

  A copy that has left the queue is `Settled`.
-/
import SystemDesign.Lib.Redelivery

namespace Lib.QQueue

variable {μ : Type} (limit : ℕ) (q : QQueue μ)

/-- The deliveries left for a copy in the queue. -/
def left (c : Copy μ) : ℕ := limit + 1 - c.count

/-- The deliveries left for a copy that is delivered. -/
def leftOut (x : ℕ × Copy μ) : ℕ := limit - x.2.count

/-- All deliveries left. -/
def budget : ℕ := (q.ready.map (left limit)).sum + (q.unacked.map (leftOut limit)).sum

@[simp] theorem budget_empty : (empty : QQueue μ).budget limit = 0 := rfl

theorem sum_eraseP {α : Type} {p : α → Bool} {l : List α} {a : α} (f : α → ℕ) (h : l.find? p = some a) :
    (l.map f).sum = f a + ((l.eraseP p).map f).sum := by
  rw [((find?_perm h).map f).sum_eq, List.map_cons, List.sum_cons]

variable {limit q}

theorem budget_enqueue (m : μ) : (q.enqueue m).budget limit = q.budget limit + (limit + 1) := by
  simp only [budget, enqueue, List.map_append, List.sum_append, List.map_cons, List.map_nil,
    List.sum_cons, List.sum_nil, left]
  omega

/-- **A delivery costs one.** -/
theorem budget_deliver {q' : QQueue μ} {ch cid : ℕ} {c : Copy μ} (h : q.deliver ch cid = some (c, q'))
    (hc : c.count ≤ limit) : q'.budget limit + 1 = q.budget limit := by
  obtain ⟨c', hf, he⟩ := Option.map_eq_some_iff.1 h
  cases he
  have hr := sum_eraseP (left limit) hf
  simp only [budget, List.map_cons, List.sum_cons, left, leftOut] at hr ⊢
  omega

theorem budget_giveBack (c : Copy μ) :
    (q.giveBack limit c).budget limit = q.budget limit + (limit - c.count) := by
  unfold giveBack
  split_ifs with h
  · simp only [budget]
    omega
  · simp only [budget, List.map_cons, List.sum_cons, left]
    omega

/-- **Giving back costs nothing.** -/
theorem budget_dropChannels (gone : ℕ → Bool) :
    (q.dropChannels limit gone).budget limit = q.budget limit := by
  have fold : ∀ (xs : List (ℕ × Copy μ)) (q : QQueue μ),
      (xs.foldl (fun q x => q.giveBack limit x.2) q).budget limit =
        q.budget limit + (xs.map (leftOut limit)).sum := by
    intro xs
    induction xs with
    | nil => intro q; rfl
    | cons x xs ih =>
      intro q
      rw [List.foldl_cons, ih, budget_giveBack, List.map_cons, List.sum_cons, leftOut]
      omega
  have hp := (List.filter_append_perm (fun x => gone x.1) q.unacked).map (leftOut limit)
  have hs := hp.sum_eq
  rw [List.map_append, List.sum_append] at hs
  rw [dropChannels, fold]
  simp only [budget]
  omega

theorem budget_ack_le (ch cid : ℕ) : (q.ack ch cid).budget limit ≤ q.budget limit := by
  unfold ack
  cases hf : q.unacked.find? (isDelivery ch cid) with
  | none => exact le_rfl
  | some x =>
    have hr := sum_eraseP (leftOut limit) hf
    simp only [budget]
    omega

theorem budget_nack_le (ch cid : ℕ) (requeue : Bool) :
    (q.nack limit ch cid requeue).budget limit ≤ q.budget limit := by
  unfold nack
  cases hf : q.unacked.find? (isDelivery ch cid) with
  | none => exact le_rfl
  | some x =>
    have hr := sum_eraseP (leftOut limit) hf
    cases requeue with
    | false =>
      simp only [budget, Bool.false_eq_true, if_false]
      omega
    | true =>
      simp only [if_true, budget_giveBack]
      simp only [budget, leftOut] at hr ⊢
      omega

/-! ## Copies that have left the queue -/

variable (q)

/-- The copy `cid` is dead-lettered or acked. -/
def Settled (cid : ℕ) : Prop := ∃ c, (c ∈ q.dead ∨ c ∈ q.acked) ∧ c.cid = cid

/-- The copy `cid` is ready. -/
def Waiting (cid : ℕ) : Prop := ∃ c ∈ q.ready, c.cid = cid

variable {q} {cid : ℕ}

/-- A copy that is neither ready nor delivered has left the queue. -/
theorem settled_of_placed {m : μ} (h : (cid, m) ∈ q.placed) (hr : q.ready = []) (hu : q.unacked = []) :
    q.Settled cid := by
  obtain ⟨c, hc, he⟩ := List.mem_map.1 h
  rw [hr, hu] at hc
  refine ⟨c, ?_, congrArg Prod.fst he⟩
  simpa using hc

end Lib.QQueue
