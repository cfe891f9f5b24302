/-
  Rate limiters.

  A limiter decides on a hit of a key by the hits before it, which it was given one after the other,
  latest first.  It `Keeps` a policy if, whatever the hits, it admits at most `limit` of a key within
  any `ttl`, and admits those of a key that are the first ones.  `slidingWindow` is such a limiter.
-/
import Mathlib

namespace Lib

/-- How many hits of a key are admitted, within which time. -/
structure Policy where
  limit : ℕ
  ttl : ℕ
deriving DecidableEq

/-- A hit of a key, at a time. -/
structure Hit (κ : Type) where
  key : κ
  time : ℕ
deriving DecidableEq

/-- Whether the next hit is admitted, by the earlier ones, latest first. -/
abbrev Limiter (κ : Type) := List (Hit κ) → Hit κ → Bool

namespace Limiter

variable {κ : Type}

/-- The hits that were admitted. -/
def admitted (L : Limiter κ) : List (Hit κ) → List (Hit κ)
  | [] => []
  | h :: past => if L past h then h :: admitted L past else admitted L past

/-- The hits are given in the order of their times, latest first. -/
def Ordered (hs : List (Hit κ)) : Prop := hs.Pairwise fun h h' => h'.time ≤ h.time

theorem admitted_cons {L : Limiter κ} {h : Hit κ} {past : List (Hit κ)} :
    L.admitted (h :: past) = if L past h then h :: L.admitted past else L.admitted past := rfl

theorem admitted_sublist {L : Limiter κ} {past : List (Hit κ)} : (L.admitted past).Sublist past := by
  induction past with
  | nil => exact .slnil
  | cons h past ih =>
    rw [admitted_cons]
    split_ifs
    · exact ih.cons_cons h
    · exact ih.cons h

variable [DecidableEq κ]

/-- The hits of a key from the time `w` on, for as long as `ttl`. -/
def countWithin (k : κ) (w ttl : ℕ) (hs : List (Hit κ)) : ℕ :=
  hs.countP fun h => h.key = k ∧ w ≤ h.time ∧ h.time < w + ttl

/-- The limiter keeps the policy of each key. -/
structure Keeps (policy : κ → Policy) (L : Limiter κ) : Prop where
  bounded : ∀ hs, Ordered hs → ∀ k w,
    countWithin k w (policy k).ttl (L.admitted hs) ≤ (policy k).limit
  fresh : ∀ past h, past.countP (fun x => x.key = h.key) < (policy h.key).limit → L past h = true

variable {L : Limiter κ} {policy : κ → Policy} {k : κ} {w ttl : ℕ} {h : Hit κ} {past : List (Hit κ)}

@[simp] theorem countWithin_nil : countWithin k w ttl ([] : List (Hit κ)) = 0 := rfl

theorem countWithin_cons : countWithin k w ttl (h :: past) =
    countWithin k w ttl past + if h.key = k ∧ w ≤ h.time ∧ h.time < w + ttl then 1 else 0 := by
  simp [countWithin, List.countP_cons]

/-- A hit more is admitted or not. -/
theorem countWithin_admitted : countWithin k w ttl (L.admitted (h :: past)) =
    countWithin k w ttl (L.admitted past) +
      if L past h = true ∧ h.key = k ∧ w ≤ h.time ∧ h.time < w + ttl then 1 else 0 := by
  rw [admitted_cons]
  by_cases hL : L past h = true
  · simp [hL, countWithin_cons]
  · simp [hL]

/-! ## What follows from keeping a policy -/

/-- The first hits of a key are admitted. -/
theorem Keeps.admitted_replicate (hL : L.Keeps policy) (hno : past.countP (fun x => x.key = h.key) = 0)
    {n : ℕ} (hn : n ≤ (policy h.key).limit) :
    L.admitted (List.replicate n h ++ past) = List.replicate n h ++ L.admitted past := by
  induction n with
  | zero => rfl
  | succ n ih =>
    rw [List.replicate_succ, List.cons_append, admitted_cons, if_pos, ih (by omega)]
    · rfl
    · refine hL.fresh _ h ?_
      rw [List.countP_append, hno, List.countP_replicate, if_pos (by simp)]
      omega

/-- **As many hits as the limit use it up.** -/
theorem Keeps.exhausted (hL : L.Keeps policy) (hord : Ordered (h :: past)) (httl : 0 < (policy h.key).ttl)
    (hno : past.countP (fun x => x.key = h.key) = 0) :
    L (List.replicate (policy h.key).limit h ++ past) h = false := by
  by_contra hne
  have hL' : L (List.replicate (policy h.key).limit h ++ past) h = true := by simpa using hne
  have hord' : Ordered (h :: (List.replicate (policy h.key).limit h ++ past)) := by
    obtain ⟨h1, h2⟩ := List.pairwise_cons.1 hord
    refine List.pairwise_cons.2 ⟨fun x hx => ?_, List.pairwise_append.2 ⟨?_, h2, fun x hx y hy => ?_⟩⟩
    · rcases List.mem_append.1 hx with hx | hx
      · rw [List.eq_of_mem_replicate hx]
      · exact h1 x hx
    · exact List.pairwise_replicate.2 (Or.inr le_rfl)
    · rw [List.eq_of_mem_replicate hx]
      exact h1 y hy
  have hle := hL.bounded _ hord' h.key h.time
  rw [countWithin_admitted, if_pos ⟨hL', rfl, le_rfl, by omega⟩, hL.admitted_replicate hno le_rfl] at hle
  have hcount : (policy h.key).limit ≤ countWithin h.key h.time (policy h.key).ttl
      (List.replicate (policy h.key).limit h ++ L.admitted past) := by
    rw [countWithin, List.countP_append, List.countP_replicate, if_pos (by simp [httl])]
    omega
  omega

/-! ## Sliding windows -/

/-- The hits of the key of `h` that still count at its time. -/
def recent (policy : κ → Policy) (h : Hit κ) (hs : List (Hit κ)) : ℕ :=
  hs.countP fun x => x.key = h.key ∧ h.time < x.time + (policy h.key).ttl

/-- The hits that a sliding window admits: those before which fewer than `limit` still count. -/
def slidingAdmitted (policy : κ → Policy) : List (Hit κ) → List (Hit κ)
  | [] => []
  | h :: past =>
    if recent policy h (slidingAdmitted policy past) < (policy h.key).limit then
      h :: slidingAdmitted policy past
    else slidingAdmitted policy past

def slidingWindow (policy : κ → Policy) : Limiter κ := fun past h =>
  recent policy h (slidingAdmitted policy past) < (policy h.key).limit

theorem admitted_slidingWindow (hs : List (Hit κ)) :
    (slidingWindow policy).admitted hs = slidingAdmitted policy hs := by
  induction hs with
  | nil => rfl
  | cons h past ih => simp only [admitted_cons, ih, slidingWindow, slidingAdmitted, decide_eq_true_eq]

/-- What lies with a hit in a window still counts at its time. -/
theorem countWithin_le_recent (hs : List (Hit κ)) (hlt : h.time < w + (policy h.key).ttl) :
    countWithin h.key w (policy h.key).ttl hs ≤ recent policy h hs := by
  refine List.countP_mono_left fun x _ hx => ?_
  simp only [decide_eq_true_eq] at hx ⊢
  obtain ⟨hk, hw, -⟩ := hx
  exact ⟨hk, by omega⟩

/-- **A sliding window keeps its policy.** -/
theorem slidingWindow_keeps (policy : κ → Policy) : (slidingWindow policy).Keeps policy := by
  constructor
  · intro hs hord k w
    clear hord
    induction hs with
    | nil => simp [admitted]
    | cons h past ih =>
      rw [countWithin_admitted]
      split_ifs with hc
      · obtain ⟨hL, rfl, -, hlt⟩ := hc
        have hle := countWithin_le_recent ((slidingWindow policy).admitted past) hlt
        rw [slidingWindow, decide_eq_true_eq, ← admitted_slidingWindow] at hL
        omega
      · simpa using ih
  · intro past h hlt
    rw [slidingWindow, decide_eq_true_eq, ← admitted_slidingWindow]
    have h1 : recent policy h ((slidingWindow policy).admitted past) ≤
        ((slidingWindow policy).admitted past).countP fun x => x.key = h.key := by
      refine List.countP_mono_left fun x _ hx => ?_
      simp only [decide_eq_true_eq] at hx ⊢
      exact hx.1
    have h2 : ((slidingWindow policy).admitted past).countP (fun x => x.key = h.key) ≤
        past.countP fun x => x.key = h.key := admitted_sublist.countP_le
    omega

end Limiter

end Lib
