/-
  How often a copy is given back, and how often it is delivered.

  * `QQueue.GivesBack`: which copies a negative acknowledgement or the loss of channels takes to
    the queue, and which to the dead-letter queue;
  * `QQueue.Tally`: a copy is delivered at most once more than it was given back, and
    `Tally.le`: so at most `limit + 1` times.
-/
import SystemDesign.Lib.QuorumQueue

namespace Lib

namespace QQueue

variable {μ : Type} (q : QQueue μ)

/-! ## Copies with their counts -/

/-- All copies there ever were, with their counts. -/
def all : List (Copy μ) := q.ready ++ q.unacked.map Prod.snd ++ q.dead ++ q.acked

theorem mem_all {c : Copy μ} :
    c ∈ q.all ↔ c ∈ q.ready ∨ (∃ ch, (ch, c) ∈ q.unacked) ∨ c ∈ q.dead ∨ c ∈ q.acked := by
  simp [all]

theorem mem_cids {cid : ℕ} : cid ∈ q.placed.map Prod.fst ↔ ∃ c ∈ q.all, c.cid = cid := by
  rw [placed, List.map_map]
  exact List.mem_map

variable {q}

/-- A delivery moves a copy as it is. -/
theorem all_deliver {q' : QQueue μ} {ch cid : ℕ} {c : Copy μ} (h : q.deliver ch cid = some (c, q')) :
    ∀ x ∈ q'.all, x ∈ q.all := by
  obtain ⟨c', hf, he⟩ := Option.map_eq_some_iff.1 h
  cases he
  intro x hx
  rw [mem_all] at hx ⊢
  rcases hx with hx | ⟨ch', hx⟩ | hx
  · exact Or.inl (List.eraseP_subset hx)
  · rcases List.mem_cons.1 hx with he | hx
    · cases he; exact Or.inl (List.mem_of_find?_eq_some hf)
    · exact Or.inr (Or.inl ⟨ch', hx⟩)
  · exact Or.inr (Or.inr hx)

theorem Sound.all_nodup (h : q.Sound) : (q.all.map Copy.cid).Nodup := by
  have hn := h.nodup
  rwa [placed, List.map_map] at hn

/-- A copy has one count. -/
theorem Sound.eq_of_cid (h : q.Sound) {c c' : Copy μ} (hc : c ∈ q.all) (hc' : c' ∈ q.all)
    (he : c.cid = c'.cid) : c = c' :=
  List.inj_on_of_nodup_map h.all_nodup hc hc' he

/-- A copy is delivered once at a time. -/
theorem Sound.unacked_nodup (h : q.Sound) : (q.unacked.map fun x => x.2.cid).Nodup := by
  have hn := h.all_nodup
  simp only [all, List.map_append, List.map_map] at hn
  exact hn.of_append_left.of_append_left.of_append_right

/-- A ready copy is not delivered. -/
theorem Sound.ready_not_unacked (h : q.Sound) {c : Copy μ} (hc : c ∈ q.ready) {x : ℕ × Copy μ}
    (hx : x ∈ q.unacked) : x.2.cid ≠ c.cid := by
  have hn := h.all_nodup
  simp only [all, List.map_append, List.map_map] at hn
  intro he
  exact List.disjoint_of_nodup_append hn.of_append_left.of_append_left (List.mem_map_of_mem hc)
    (List.mem_map.2 ⟨x, hx, he⟩)

/-- A dead-lettered copy is neither ready nor delivered. -/
theorem Sound.dead_not_live (h : q.Sound) {c c' : Copy μ} (hc : c ∈ q.dead)
    (hc' : c' ∈ q.ready ∨ ∃ ch, (ch, c') ∈ q.unacked) : c'.cid ≠ c.cid := by
  have hn := h.all_nodup
  simp only [all, List.map_append, List.map_map] at hn
  have hl : c'.cid ∈ q.ready.map Copy.cid ++ q.unacked.map (Copy.cid ∘ Prod.snd) := by
    rcases hc' with hc' | ⟨ch, hc'⟩
    · exact List.mem_append_left _ (List.mem_map_of_mem hc')
    · exact List.mem_append_right _ (List.mem_map.2 ⟨_, hc', rfl⟩)
  intro he
  exact List.disjoint_of_nodup_append hn.of_append_left hl (he ▸ List.mem_map_of_mem hc)

end QQueue

/-- The copy, given back once more. -/
def Copy.again {μ : Type} (c : Copy μ) : Copy μ := { c with count := c.count + 1 }

namespace QQueue

variable {μ : Type} {q : QQueue μ} {limit : ℕ}

/-! ## Giving back -/

/-- The deliveries `gone` are given back, and nothing else changes its place. -/
structure GivesBack (limit : ℕ) (gone : ℕ × Copy μ → Prop) (q q' : QQueue μ) : Prop where
  ready : ∀ c, c ∈ q'.ready ↔
    c ∈ q.ready ∨ ∃ x ∈ q.unacked, gone x ∧ x.2.count < limit ∧ c = x.2.again
  dead : ∀ c, c ∈ q'.dead ↔
    c ∈ q.dead ∨ ∃ x ∈ q.unacked, gone x ∧ limit ≤ x.2.count ∧ c = x.2.again
  unacked : ∀ x, x ∈ q'.unacked ↔ x ∈ q.unacked ∧ ¬ gone x
  acked : q'.acked = q.acked

theorem giveBack_ready (limit : ℕ) (c x : Copy μ) :
    c ∈ (q.giveBack limit x).ready ↔ c ∈ q.ready ∨ (x.count < limit ∧ c = x.again) := by
  unfold giveBack
  split_ifs with h
  · simp [show ¬ x.count < limit by omega]
  · simp [show x.count < limit by omega, Copy.again, or_comm]

theorem giveBack_dead (limit : ℕ) (c x : Copy μ) :
    c ∈ (q.giveBack limit x).dead ↔ c ∈ q.dead ∨ (limit ≤ x.count ∧ c = x.again) := by
  unfold giveBack
  split_ifs with h
  · simp [show limit ≤ x.count by omega, Copy.again]
  · simp [show ¬ limit ≤ x.count by omega]

theorem foldl_giveBack_mem (xs : List (ℕ × Copy μ)) (q : QQueue μ) (c : Copy μ) :
    (c ∈ (xs.foldl (fun q x => q.giveBack limit x.2) q).ready ↔
        c ∈ q.ready ∨ ∃ x ∈ xs, x.2.count < limit ∧ c = x.2.again) ∧
      (c ∈ (xs.foldl (fun q x => q.giveBack limit x.2) q).dead ↔
        c ∈ q.dead ∨ ∃ x ∈ xs, limit ≤ x.2.count ∧ c = x.2.again) := by
  induction xs generalizing q with
  | nil => simp
  | cons x xs ih =>
    obtain ⟨hr, hd⟩ := ih (q.giveBack limit x.2)
    constructor
    · rw [List.foldl_cons, hr, giveBack_ready, List.exists_mem_cons_iff, or_assoc]
    · rw [List.foldl_cons, hd, giveBack_dead, List.exists_mem_cons_iff, or_assoc]

/-- **The loss of channels gives back what was delivered on them.** -/
theorem givesBack_dropChannels (q : QQueue μ) (limit : ℕ) (gone : ℕ → Bool) :
    GivesBack limit (fun x => gone x.1 = true) q (q.dropChannels limit gone) where
  ready c := by
    refine (foldl_giveBack_mem _ _ c).1.trans ?_
    simp only [List.mem_filter, and_assoc]
  dead c := by
    refine (foldl_giveBack_mem _ _ c).2.trans ?_
    simp only [List.mem_filter, and_assoc]
  unacked x := by simp
  acked := dropChannels_acked q limit gone

/-- Where at most one element satisfies `p`, erasing the first leaves those that do not. -/
theorem mem_eraseP_iff {α : Type} {p : α → Bool} {l : List α}
    (h : l.Pairwise fun a b => p a = true → p b = false) (x : α) : x ∈ l.eraseP p ↔ x ∈ l ∧ ¬ p x = true := by
  induction l with
  | nil => simp
  | cons a l ih =>
    obtain ⟨ha, hl⟩ := List.pairwise_cons.1 h
    cases hp : p a with
    | true =>
      rw [List.eraseP_cons_of_pos hp]
      constructor
      · exact fun hx => ⟨List.mem_cons_of_mem _ hx, by simp [ha x hx hp]⟩
      · rintro ⟨hx, hn⟩
        rcases List.mem_cons.1 hx with rfl | hx
        · exact absurd hp hn
        · exact hx
    | false =>
      rw [List.eraseP_cons_of_neg (by simp [hp]), List.mem_cons, List.mem_cons, ih hl]
      constructor
      · rintro (rfl | ⟨hx, hn⟩)
        · exact ⟨Or.inl rfl, by simp [hp]⟩
        · exact ⟨Or.inr hx, hn⟩
      · rintro ⟨rfl | hx, hn⟩
        · exact Or.inl rfl
        · exact Or.inr ⟨hx, hn⟩

theorem Sound.one_delivery (h : q.Sound) (ch cid : ℕ) :
    q.unacked.Pairwise fun x y => isDelivery ch cid x = true → isDelivery ch cid y = false := by
  refine (List.pairwise_map.1 h.unacked_nodup).imp fun {x y} hne hx => ?_
  simp only [isDelivery, Bool.and_eq_true, beq_iff_eq] at hx
  simp only [isDelivery, Bool.and_eq_false_iff, beq_eq_false_iff_ne]
  exact Or.inr fun hy => hne (hx.2.trans hy.symm)

theorem Sound.eq_of_delivery (h : q.Sound) {ch cid : ℕ} {x y : ℕ × Copy μ} (hx : x ∈ q.unacked)
    (hy : y ∈ q.unacked) (hdx : isDelivery ch cid x = true) (hdy : isDelivery ch cid y = true) :
    x = y := by
  simp only [isDelivery, Bool.and_eq_true, beq_iff_eq] at hdx hdy
  exact List.inj_on_of_nodup_map h.unacked_nodup hx hy (hdx.2.trans hdy.2.symm)

/-- **A negative acknowledgement with requeue gives back its delivery.** -/
theorem Sound.givesBack_nack (h : q.Sound) (limit ch cid : ℕ) :
    GivesBack limit (fun x => isDelivery ch cid x = true) q (q.nack limit ch cid true) := by
  unfold nack
  cases hf : q.unacked.find? (isDelivery ch cid) with
  | none =>
    have hno := List.find?_eq_none.1 hf
    refine ⟨fun c => ?_, fun c => ?_, fun x => ?_, rfl⟩
    · exact ⟨Or.inl, fun hc => hc.resolve_right fun ⟨x, hx, hg, _⟩ => hno x hx hg⟩
    · exact ⟨Or.inl, fun hc => hc.resolve_right fun ⟨x, hx, hg, _⟩ => hno x hx hg⟩
    · exact ⟨fun hx => ⟨hx, hno x hx⟩, And.left⟩
  | some y =>
    have hy := List.mem_of_find?_eq_some hf
    have hdy := List.find?_some hf
    have only : ∀ x ∈ q.unacked, isDelivery ch cid x = true → x = y := fun x hx hdx =>
      h.eq_of_delivery hx hy hdx hdy
    have one : ∀ P : ℕ × Copy μ → Prop,
        (∃ x ∈ q.unacked, isDelivery ch cid x = true ∧ P x) ↔ P y := by
      intro P
      constructor
      · rintro ⟨x, hx, hd, hP⟩
        exact only x hx hd ▸ hP
      · exact fun hP => ⟨y, hy, hdy, hP⟩
    refine ⟨fun c => ?_, fun c => ?_, fun x => ?_, ?_⟩
    · exact (giveBack_ready ..).trans (or_congr Iff.rfl (one fun x => x.2.count < limit ∧ c = x.2.again).symm)
    · exact (giveBack_dead ..).trans (or_congr Iff.rfl (one fun x => limit ≤ x.2.count ∧ c = x.2.again).symm)
    · simp only [if_true, giveBack_unacked]
      exact mem_eraseP_iff (h.one_delivery ch cid) x
    · simp

/-! ## Taking a delivery away -/

/-- What is delivered goes to the dead-lettered or the acked, or stays; no count changes. -/
structure Settles (gone : ℕ × Copy μ → Prop) (q q' : QQueue μ) : Prop where
  ready : q'.ready = q.ready
  unacked : ∀ x, x ∈ q'.unacked ↔ x ∈ q.unacked ∧ ¬ gone x
  settled : ∀ c, c ∈ q'.dead ∨ c ∈ q'.acked →
    (c ∈ q.dead ∨ c ∈ q.acked) ∨ ∃ x ∈ q.unacked, gone x ∧ c = x.2

theorem Settles.all {gone : ℕ × Copy μ → Prop} {q' : QQueue μ} (h : Settles gone q q') :
    ∀ c ∈ q'.all, c ∈ q.all := by
  intro c hc
  rw [mem_all] at hc ⊢
  rcases hc with hc | ⟨ch, hc⟩ | hc
  · exact Or.inl (h.ready ▸ hc)
  · exact Or.inr (Or.inl ⟨ch, ((h.unacked _).1 hc).1⟩)
  · rcases h.settled c hc with hc | ⟨x, hx, -, rfl⟩
    · exact Or.inr (Or.inr hc)
    · exact Or.inr (Or.inl ⟨x.1, hx⟩)

/-- **An acknowledgement settles its delivery.** -/
theorem Sound.settles_ack (h : q.Sound) (ch cid : ℕ) :
    Settles (fun x => isDelivery ch cid x = true) q (q.ack ch cid) ∧ (q.ack ch cid).dead = q.dead := by
  unfold ack
  cases hf : q.unacked.find? (isDelivery ch cid) with
  | none =>
    have hno := List.find?_eq_none.1 hf
    exact ⟨⟨rfl, fun x => ⟨fun hx => ⟨hx, hno x hx⟩, And.left⟩, fun c hc => Or.inl hc⟩, rfl⟩
  | some y =>
    refine ⟨⟨rfl, mem_eraseP_iff (h.one_delivery ch cid), fun c hc => ?_⟩, rfl⟩
    rcases hc with hc | hc
    · exact Or.inl (Or.inl hc)
    · rcases List.mem_cons.1 hc with rfl | hc
      · exact Or.inr ⟨y, List.mem_of_find?_eq_some hf, List.find?_some hf, rfl⟩
      · exact Or.inl (Or.inr hc)

/-- **A negative acknowledgement without requeue settles its delivery**, which it dead-letters. -/
theorem Sound.settles_nack (h : q.Sound) (limit ch cid : ℕ) :
    Settles (fun x => isDelivery ch cid x = true) q (q.nack limit ch cid false) ∧
      ∀ c ∈ (q.nack limit ch cid false).dead, c ∈ q.dead ∨ c.cid = cid := by
  unfold nack
  cases hf : q.unacked.find? (isDelivery ch cid) with
  | none =>
    have hno := List.find?_eq_none.1 hf
    exact ⟨⟨rfl, fun x => ⟨fun hx => ⟨hx, hno x hx⟩, And.left⟩, fun c hc => Or.inl hc⟩, fun c hc => Or.inl hc⟩
  | some y =>
    have hy := List.mem_of_find?_eq_some hf
    have hdy := List.find?_some hf
    have hdead : ∀ c ∈ q.dead ++ [y.2], c ∈ q.dead ∨ c = y.2 := fun c hc => by simpa using hc
    refine ⟨⟨rfl, mem_eraseP_iff (h.one_delivery ch cid), fun c hc => ?_⟩, fun c hc => ?_⟩
    · rcases hc with hc | hc
      · rcases hdead c hc with hc | rfl
        · exact Or.inl (Or.inl hc)
        · exact Or.inr ⟨y, hy, hdy, rfl⟩
      · exact Or.inl (Or.inr hc)
    · rcases hdead c hc with hc | rfl
      · exact Or.inl hc
      · simp only [isDelivery, Bool.and_eq_true, beq_iff_eq] at hdy
        exact Or.inr hdy.2

/-! ## Counting deliveries -/

/-- `n` copies were delivered at most once more than they were given back. -/
structure Tally (limit : ℕ) (n : ℕ → ℕ) (q : QQueue μ) : Prop where
  all : ∀ c ∈ q.all, n c.cid ≤ c.count + 1 ∧ n c.cid ≤ limit + 1
  ready : ∀ c ∈ q.ready, n c.cid ≤ c.count
  live : ∀ c, (c ∈ q.ready ∨ ∃ ch, (ch, c) ∈ q.unacked) → c.count ≤ limit
  none : ∀ cid, cid ∉ q.placed.map Prod.fst → n cid = 0

variable {n : ℕ → ℕ}

/-- **A copy is delivered at most `limit + 1` times.** -/
theorem Tally.le (h : Tally limit n q) (cid : ℕ) : n cid ≤ limit + 1 := by
  by_cases hc : cid ∈ q.placed.map Prod.fst
  · obtain ⟨c, hmem, rfl⟩ := (mem_cids q).1 hc
    exact (h.all c hmem).2
  · rw [h.none cid hc]
    exact Nat.zero_le _

/-- Copies given back fewer than `limit` times were delivered at most `limit` times. -/
theorem Tally.le_of_count (h : Tally limit n q) (hc : ∀ c ∈ q.all, c.count < limit) (cid : ℕ) :
    n cid ≤ limit := by
  by_cases hm : cid ∈ q.placed.map Prod.fst
  · obtain ⟨c, hmem, rfl⟩ := (mem_cids q).1 hm
    exact (h.all c hmem).1.trans (hc c hmem)
  · rw [h.none cid hm]
    exact Nat.zero_le _

theorem tally_empty (limit : ℕ) : Tally limit (fun _ => 0) (empty : QQueue μ) where
  all c hc := absurd hc List.not_mem_nil
  ready c hc := absurd hc List.not_mem_nil
  live c hc := by simp [empty] at hc
  none _ _ := rfl

theorem Tally.enqueue (h : Tally limit n q) (hs : q.Sound) (m : μ) : Tally limit n (q.enqueue m) := by
  have hid : n q.nextId = 0 := h.none _ fun hm => by
    obtain ⟨x, hx, he⟩ := List.mem_map.1 hm
    exact absurd (hs.lt x hx) (by rw [he]; exact Nat.lt_irrefl _)
  have hnew : ∀ c ∈ (q.enqueue m).ready, c ∈ q.ready ∨ c = ⟨q.nextId, m, 0⟩ := fun c hc => by
    simpa [QQueue.enqueue] using hc
  refine ⟨fun c hc => ?_, fun c hc => ?_, fun c hc => ?_, fun cid hc => h.none cid fun hm => hc ?_⟩
  · rcases (mem_all _).1 hc with hc | hc
    · rcases hnew c hc with hc | rfl
      · exact h.all c ((mem_all q).2 (Or.inl hc))
      · simp [hid]
    · exact h.all c ((mem_all q).2 (Or.inr hc))
  · rcases hnew c hc with hc | rfl
    · exact h.ready c hc
    · simp [hid]
  · rcases hc with hc | hc
    · rcases hnew c hc with hc | rfl
      · exact h.live c (Or.inl hc)
      · exact Nat.zero_le _
    · exact h.live c (Or.inr hc)
  · exact ((placed_enqueue q m).map Prod.fst).mem_iff.2 (List.mem_cons_of_mem _ hm)

/-- A delivery that is not counted. -/
theorem Tally.deliver {q' : QQueue μ} {ch cid : ℕ} {c : Copy μ} (h : Tally limit n q)
    (hd : q.deliver ch cid = some (c, q')) : Tally limit n q' := by
  have hp := placed_deliver hd
  obtain ⟨c', hf, he⟩ := Option.map_eq_some_iff.1 hd
  cases he
  have old : ∀ x, (x ∈ q.ready.eraseP (·.cid == cid) ∨ ∃ ch', (ch', x) ∈ (ch, c) :: q.unacked) →
      x ∈ q.ready ∨ ∃ ch', (ch', x) ∈ q.unacked := by
    rintro x (hx | ⟨ch', hx⟩)
    · exact Or.inl (List.eraseP_subset hx)
    · rcases List.mem_cons.1 hx with he | hx
      · cases he; exact Or.inl (List.mem_of_find?_eq_some hf)
      · exact Or.inr ⟨ch', hx⟩
  exact ⟨fun x hx => h.all x (all_deliver hd x hx), fun x hx => h.ready x (List.eraseP_subset hx),
    fun x hx => h.live x (old x hx), fun k hk => h.none k fun hm => hk ((hp.map Prod.fst).mem_iff.2 hm)⟩

/-- A delivery that is counted. -/
theorem Tally.deliver_counted {q' : QQueue μ} {ch cid : ℕ} {c : Copy μ} (h : Tally limit n q)
    (hs : q'.Sound) (hd : q.deliver ch cid = some (c, q')) :
    Tally limit (fun k => n k + if k = cid then 1 else 0) q' := by
  have h' := h.deliver hd
  obtain ⟨hc, hcid, hu, -⟩ := deliver_some hd
  have hlast : (ch, c) ∈ q'.unacked := hu ▸ List.mem_cons_self
  have hca : c ∈ q'.all := (mem_all q').2 (Or.inr (Or.inl ⟨ch, hlast⟩))
  refine ⟨fun x hx => ?_, fun x hx => ?_, h'.live, fun k hk => ?_⟩
  · by_cases he : x.cid = cid
    · obtain rfl : x = c := hs.eq_of_cid hx hca (he.trans hcid.symm)
      have h1 := h.ready x hc
      have h2 := h.live x (Or.inl hc)
      simp only [if_pos he]
      omega
    · simpa [he] using h'.all x hx
  · have hne : x.cid ≠ cid := hcid ▸ Ne.symm (hs.ready_not_unacked hx hlast)
    simpa [hne] using h'.ready x hx
  · have hne : k ≠ cid := by
      rintro rfl
      exact hk ((mem_cids q').2 ⟨c, hca, hcid⟩)
    simpa [hne] using h'.none k hk

/-- What is settled keeps its count. -/
theorem Tally.settles {gone : ℕ × Copy μ → Prop} {q' : QQueue μ} (h : Tally limit n q)
    (hp : q'.placed.Perm q.placed) (hs : Settles gone q q') : Tally limit n q' where
  all c hc := h.all c (hs.all c hc)
  ready c hc := h.ready c (hs.ready ▸ hc)
  live c hc := h.live c (hc.imp (hs.ready ▸ ·) fun ⟨ch, hx⟩ => ⟨ch, ((hs.unacked _).1 hx).1⟩)
  none k hk := h.none k fun hm => hk ((hp.map Prod.fst).mem_iff.2 hm)

/-- What is given back counts once more. -/
theorem Tally.givesBack {gone : ℕ × Copy μ → Prop} {q' : QQueue μ} (h : Tally limit n q)
    (hp : q'.placed.Perm q.placed) (hg : GivesBack limit gone q q') : Tally limit n q' := by
  have back : ∀ x ∈ q.unacked, n x.2.again.cid ≤ x.2.again.count ∧ n x.2.again.cid ≤ limit + 1 := fun x hx =>
    h.all x.2 ((mem_all q).2 (Or.inr (Or.inl ⟨x.1, hx⟩)))
  refine ⟨fun c hc => ?_, fun c hc => ?_, fun c hc => ?_,
    fun k hk => h.none k fun hm => hk ((hp.map Prod.fst).mem_iff.2 hm)⟩
  · rcases (mem_all q').1 hc with hc | ⟨ch, hc⟩ | hc | hc
    · rcases (hg.ready c).1 hc with hc | ⟨x, hx, -, -, rfl⟩
      · exact h.all c ((mem_all q).2 (Or.inl hc))
      · exact ⟨(back x hx).1.trans (Nat.le_succ _), (back x hx).2⟩
    · exact h.all c ((mem_all q).2 (Or.inr (Or.inl ⟨ch, ((hg.unacked _).1 hc).1⟩)))
    · rcases (hg.dead c).1 hc with hc | ⟨x, hx, -, -, rfl⟩
      · exact h.all c ((mem_all q).2 (Or.inr (Or.inr (Or.inl hc))))
      · exact ⟨(back x hx).1.trans (Nat.le_succ _), (back x hx).2⟩
    · exact h.all c ((mem_all q).2 (Or.inr (Or.inr (Or.inr (hg.acked ▸ hc)))))
  · rcases (hg.ready c).1 hc with hc | ⟨x, hx, -, -, rfl⟩
    · exact h.ready c hc
    · exact (back x hx).1
  · rcases hc with hc | ⟨ch, hc⟩
    · rcases (hg.ready c).1 hc with hc | ⟨x, -, -, hlt, rfl⟩
      · exact h.live c (Or.inl hc)
      · exact hlt
    · exact h.live c (Or.inr ⟨ch, ((hg.unacked _).1 hc).1⟩)

end QQueue

end Lib
