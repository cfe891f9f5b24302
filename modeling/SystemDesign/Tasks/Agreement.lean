/-
  The write path and the event path agree.

  `Inv` says for each call of `create` in which stage it is and what its save and its publish
  did, that a task and a publish belong to one call, and that what the event path holds was
  issued by it.  `inTime` keeps the timers.  `write_and_event_agree` puts the results together.
-/
import SystemDesign.Queue.Provenance
import SystemDesign.Tasks.Create

namespace SystemDesign.Tasks

open Lib

/-- The publish of a call is on its instance and about its task. -/
def Published (s : State) (call : Call) (saved : Task) (pub : ℕ) : Prop :=
  ∃ began e, call.race = some (pub, began) ∧ s.queue.keys[pub]? = some (call.inst, e) ∧
    e.taskId = saved.id

/-- What is known of a call in a stage. -/
def Fits (s : State) (call : Call) : Stage → Prop
  | .saving => call.answer = none ∧ call.race = none
  | .publishing saved => call.answer = some (.ok saved) ∧ saved ∈ s.tasks ∧ call.race = none
  | .racing saved pub => call.answer = some (.ok saved) ∧ saved ∈ s.tasks ∧ Published s call saved pub
  | .returned saved => call.answer = some (.ok saved) ∧ saved ∈ s.tasks ∧ ∃ pub, Published s call saved pub
  | .threw err => call.answer = some (.error err) ∧ call.race = none

/-- The call is in some stage. -/
def Placed (s : State) (call : Call) : Prop :=
  ∃ st : Stage, call.prog = st.code call.title ∧ Fits s call st

theorem Published.mono {s s' : State} {call : Call} {saved : Task} {pub : ℕ}
    (h : Published s call saved pub) (hk : s.queue.keys <+: s'.queue.keys) :
    Published s' call saved pub := by
  obtain ⟨began, key, hr, hkey, ht⟩ := h
  obtain ⟨rest, hk⟩ := hk
  refine ⟨began, key, hr, ?_, ht⟩
  rw [← hk, List.getElem?_append_left (List.getElem?_eq_some_iff.1 hkey).1, hkey]

theorem Placed.mono {s s' : State} {call : Call} (h : Placed s call)
    (ht : ∀ t ∈ s.tasks, t ∈ s'.tasks) (hk : s.queue.keys <+: s'.queue.keys) : Placed s' call := by
  obtain ⟨st, hp, hf⟩ := h
  refine ⟨st, hp, ?_⟩
  cases st with
  | saving | threw => exact hf
  | publishing saved => exact ⟨hf.1, ht _ hf.2.1, hf.2.2⟩
  | racing saved pub => exact ⟨hf.1, ht _ hf.2.1, hf.2.2.mono hk⟩
  | returned saved => exact ⟨hf.1, ht _ hf.2.1, hf.2.2.imp fun pub h => h.mono hk⟩

/-! ## The stage of a call by what it awaits -/

section
variable {s : State} {call : Call}

theorem Placed.of_save {title : JsString} {k : Except JsString Task → Creating Task}
    (h : Placed s call) (hp : call.prog = .await (.save title) k) :
    call.answer = none ∧ call.race = none ∧
      (∀ saved, k (.ok saved) = (Stage.publishing saved).code call.title) ∧
      ∀ err, k (.error err) = (Stage.threw err).code call.title := by
  obtain ⟨st, hcode, hf⟩ := h
  rw [hp] at hcode
  cases st with
  | saving =>
    rw [saving_code] at hcode
    cases hcode
    exact ⟨hf.1, hf.2, fun _ => rfl, fun _ => rfl⟩
  | publishing saved => rw [publishing_code] at hcode; cases hcode
  | racing saved pub => rw [racing_code] at hcode; cases hcode
  | returned | threw => cases hcode

theorem Placed.of_publish {taskId : Uuid} {k : Except JsString ℕ → Creating Task}
    (h : Placed s call) (hp : call.prog = .await (.publish taskId) k) :
    ∃ saved, call.answer = some (.ok saved) ∧ saved ∈ s.tasks ∧ call.race = none ∧
      saved.id = taskId ∧ ∀ pub, k (.ok pub) = (Stage.racing saved pub).code call.title := by
  obtain ⟨st, hcode, hf⟩ := h
  rw [hp] at hcode
  cases st with
  | saving => rw [saving_code] at hcode; cases hcode
  | publishing saved =>
    rw [publishing_code] at hcode
    cases hcode
    exact ⟨saved, hf.1, hf.2.1, hf.2.2, rfl, fun _ => rfl⟩
  | racing saved pub => rw [racing_code] at hcode; cases hcode
  | returned | threw => cases hcode

theorem Placed.of_race {pub : ℕ} {k : Except JsString Unit → Creating Task}
    (h : Placed s call) (hp : call.prog = .await (.race pub) k) :
    ∃ saved, call.answer = some (.ok saved) ∧ saved ∈ s.tasks ∧ Published s call saved pub ∧
      ∀ a, k a = (Stage.returned saved).code call.title := by
  obtain ⟨st, hcode, hf⟩ := h
  rw [hp] at hcode
  cases st with
  | saving => rw [saving_code] at hcode; cases hcode
  | publishing saved => rw [publishing_code] at hcode; cases hcode
  | racing saved pub' =>
    rw [racing_code] at hcode
    cases hcode
    exact ⟨saved, hf.1, hf.2.1, hf.2.2, fun _ => rfl⟩
  | returned | threw => cases hcode

end

/-! ## The invariant -/

structure Inv (s : State) : Prop where
  calls : ∀ call ∈ s.calls, Placed s call
  ids : (s.tasks.map (·.id)).Nodup
  /-- A task belongs to one call. -/
  taskOwner : ∀ (i j : ℕ) (ci cj : Call) (t t' : Task), s.calls[i]? = some ci → s.calls[j]? = some cj →
    ci.answer = some (.ok t) → cj.answer = some (.ok t') → t.id = t'.id → i = j
  /-- A publish belongs to a call. -/
  pubOwner : ∀ (p : ℕ) (key : ℕ × Event), s.queue.keys[p]? = some key →
    ∃ (i : ℕ) (call : Call) (began : ℕ), s.calls[i]? = some call ∧ call.race = some (p, began)
  fresh : (s.queue.keys.map (·.2.eventId)).Nodup
  issued : Queue.Issued s.queue

theorem inv_init : Inv init where
  calls := nofun
  ids := List.nodup_nil
  taskOwner := fun i j ci cj t t' h => by simp [init] at h
  pubOwner := fun p key h => by simp [init, Queue.State.keys, Queue.init] at h
  fresh := List.nodup_nil
  issued := Queue.issued_init

/-- Only the queue changes, which issues nothing. -/
theorem Inv.queue {s : State} {q : Queue.State} {a : Queue.Action} (h : Inv s)
    (hq : Queue.step s.queue a = some q) (hp : a.published = []) (hi : ∀ content, a ≠ .inject content) :
    Inv { s with queue := q } := by
  have hk : q.keys = s.queue.keys := by rw [Queue.step_pubs hq, hp, List.append_nil]
  refine ⟨fun call hc => ?_, h.ids, h.taskOwner, ?_, ?_, Queue.step_issued h.issued hi hq⟩
  · exact (h.calls call hc).mono (fun _ ht => ht) (hk ▸ List.prefix_refl _)
  · exact fun p key hkey => h.pubOwner p key (hk ▸ hkey)
  · exact (congrArg (fun l => (l.map (·.2.eventId)).Nodup) hk).mpr h.fresh

/-- Each call has a counterpart before a step that leaves the answer to the save. -/
theorem set_answer {s : State} {i j : ℕ} {call call' c : Call} (hi : s.calls[i]? = some call)
    (hj : (s.calls.set i call')[j]? = some c) (ha : call'.answer = call.answer) :
    ∃ c₀, s.calls[j]? = some c₀ ∧ c.answer = c₀.answer := by
  rcases set_cases hj with ⟨rfl, rfl⟩ | ⟨-, hj⟩
  · exact ⟨call, hi, ha⟩
  · exact ⟨c, hj, rfl⟩

/-- A publish stays with its call where another one, without a publish, changes. -/
theorem Inv.pubOwner_set {s : State} {i : ℕ} {call : Call} (h : Inv s) (hi : s.calls[i]? = some call)
    (hnone : call.race = none) (call' : Call) {p : ℕ} {key : ℕ × Event} (hkey : s.queue.keys[p]? = some key) :
    ∃ (j : ℕ) (c : Call) (began : ℕ), (s.calls.set i call')[j]? = some c ∧ c.race = some (p, began) := by
  obtain ⟨j, c, began, hj, hrace⟩ := h.pubOwner p key hkey
  refine ⟨j, c, began, (List.getElem?_set_ne ?_).trans hj, hrace⟩
  rintro rfl
  obtain rfl : c = call := Option.some.inj (hj.symm.trans hi)
  rw [hnone] at hrace
  cases hrace

/-- The call `i` goes on, with the same answer to its save and the same publish. -/
theorem Inv.set {s : State} {i : ℕ} {call call' : Call} (h : Inv s) (hi : s.calls[i]? = some call)
    (ha : call'.answer = call.answer) (hr : call'.race = call.race) (hp : Placed s call') :
    Inv { s with calls := s.calls.set i call' } := by
  have hlt := (List.getElem?_eq_some_iff.1 hi).1
  refine ⟨?_, h.ids, ?_, ?_, h.fresh, h.issued⟩
  · intro c hc
    rcases List.mem_or_eq_of_mem_set hc with hc | rfl
    · exact h.calls c hc
    · exact hp
  · intro j₁ j₂ c₁ c₂ t t' h₁ h₂ a₁ a₂
    obtain ⟨d₁, hd₁, e₁⟩ := set_answer hi h₁ ha
    obtain ⟨d₂, hd₂, e₂⟩ := set_answer hi h₂ ha
    exact h.taskOwner j₁ j₂ d₁ d₂ t t' hd₁ hd₂ (e₁ ▸ a₁) (e₂ ▸ a₂)
  · intro p key hkey
    obtain ⟨j, c, began, hj, hrace⟩ := h.pubOwner p key hkey
    by_cases hji : j = i
    · subst hji
      obtain rfl : c = call := Option.some.inj (hj.symm.trans hi)
      exact ⟨j, call', began, List.getElem?_set_self hlt, hr.trans hrace⟩
    · exact ⟨j, c, began, (List.getElem?_set_ne (Ne.symm hji)).trans hj, hrace⟩

/-- The save of the call `i` is answered. -/
theorem Inv.answer {s : State} {i : ℕ} {call : Call} (h : Inv s) (hi : s.calls[i]? = some call)
    (hnone : call.race = none) {a : Except JsString Task} {tasks : List Task} {prog : Creating Task}
    (hsub : ∀ t ∈ s.tasks, t ∈ tasks) (hids : (tasks.map (·.id)).Nodup)
    (hnew : ∀ t, a = .ok t → ∀ t' ∈ s.tasks, t.id ≠ t'.id)
    (hp : Placed { s with tasks := tasks } { call with answer := some a, prog := prog }) :
    Inv { s with
      tasks := tasks
      calls := s.calls.set i { call with answer := some a, prog := prog } } := by
  -- the answers of the other calls are tasks that were there before
  have hmem : ∀ {j : ℕ} {c : Call} {t : Task}, s.calls[j]? = some c → c.answer = some (.ok t) →
      t ∈ s.tasks := by
    intro j c t hj hc
    obtain ⟨st, -, hf⟩ := h.calls c (List.mem_of_getElem? hj)
    cases st with
    | saving => rw [hf.1] at hc; cases hc
    | threw err => rw [hf.1] at hc; cases hc
    | publishing | racing | returned => have := hf.1.symm.trans hc; cases this; exact hf.2.1
  refine ⟨?_, hids, ?_, ?_, h.fresh, h.issued⟩
  · intro c hc
    rcases List.mem_or_eq_of_mem_set hc with hc | rfl
    · exact (h.calls c hc).mono hsub (List.prefix_refl _)
    · exact hp
  · intro j₁ j₂ c₁ c₂ t t' h₁ h₂ a₁ a₂ he
    rcases set_cases h₁ with ⟨rfl, rfl⟩ | ⟨hne₁, h₁⟩ <;> rcases set_cases h₂ with ⟨e₂, rfl⟩ | ⟨hne₂, h₂⟩
    · exact e₂.symm
    · exact absurd he (hnew t (Option.some.inj a₁) t' (hmem h₂ a₂))
    · exact absurd he.symm (hnew t' (Option.some.inj a₂) t (hmem h₁ a₁))
    · exact h.taskOwner j₁ j₂ c₁ c₂ t t' h₁ h₂ a₁ a₂ he
  · exact fun p key hkey => h.pubOwner_set hi hnone _ hkey

/-- The call `i` starts its publish. -/
theorem Inv.publish {s : State} {i : ℕ} {call : Call} {saved : Task} {q : Queue.State} {e : Event}
    {prog : Creating Task} (h : Inv s) (hi : s.calls[i]? = some call)
    (ha : call.answer = some (.ok saved)) (hmem : saved ∈ s.tasks) (hr : call.race = none)
    (hid : saved.id = e.taskId) (hf : e.eventId ∉ s.queue.keys.map (·.2.eventId))
    (hq : Queue.step s.queue (.publish call.inst e) = some q)
    (hp : prog = (Stage.racing saved s.queue.keys.length).code call.title) :
    Inv { s with
      queue := q
      calls := s.calls.set i { call with race := some (s.queue.keys.length, s.now), prog := prog } } := by
  have hk : q.keys = s.queue.keys ++ [(call.inst, e)] := Queue.step_pubs hq
  have hpre : s.queue.keys <+: q.keys := hk ▸ List.prefix_append _ _
  have hlast : q.keys[s.queue.keys.length]? = some (call.inst, e) := by rw [hk]; simp
  have hlt := (List.getElem?_eq_some_iff.1 hi).1
  refine ⟨?_, h.ids, ?_, ?_, ?_, Queue.step_issued h.issued (fun _ h => by cases h) hq⟩
  · intro c hc
    rcases List.mem_or_eq_of_mem_set hc with hc | rfl
    · exact (h.calls c hc).mono (fun _ ht => ht) hpre
    · exact ⟨.racing saved s.queue.keys.length, hp, ha, hmem, s.now, _, rfl, hlast, hid.symm⟩
  · intro j₁ j₂ c₁ c₂ t t' h₁ h₂ a₁ a₂
    obtain ⟨d₁, hd₁, e₁⟩ := set_answer hi h₁ rfl
    obtain ⟨d₂, hd₂, e₂⟩ := set_answer hi h₂ rfl
    exact h.taskOwner j₁ j₂ d₁ d₂ t t' hd₁ hd₂ (e₁ ▸ a₁) (e₂ ▸ a₂)
  · intro p key hkey
    replace hkey : (s.queue.keys ++ [(call.inst, e)])[p]? = some key := hk ▸ hkey
    rcases snoc_cases hkey with ⟨rfl, rfl⟩ | hkey
    · exact ⟨i, _, s.now, List.getElem?_set_self hlt, rfl⟩
    · exact h.pubOwner_set hi hr _ hkey
  · show (q.keys.map (·.2.eventId)).Nodup
    rw [hk, List.map_append]
    refine List.nodup_append.2 ⟨h.fresh, List.nodup_singleton _, fun a ha b hb hab => hf ?_⟩
    have he : a = e.eventId := hab.trans (List.mem_singleton.1 hb)
    exact he ▸ ha

/-- **The step lemma.** -/
theorem step_inv {s s' : State} {a : Action} (h : Inv s) (ha : step s a = some s') : Inv s' := by
  cases step_cases ha with
  | post =>
    refine ⟨fun c hc => ?_, h.ids, ?_, ?_, h.fresh, h.issued⟩
    · rcases List.mem_append.1 hc with hc | hc
      · exact h.calls c hc
      · obtain rfl := List.mem_singleton.1 hc
        exact ⟨.saving, rfl, rfl, rfl⟩
    · intro j₁ j₂ c₁ c₂ t t' h₁ h₂ a₁ a₂ he
      rcases snoc_cases h₁ with ⟨-, rfl⟩ | h₁
      · cases a₁
      · rcases snoc_cases h₂ with ⟨-, rfl⟩ | h₂
        · cases a₂
        · exact h.taskOwner j₁ j₂ c₁ c₂ t t' h₁ h₂ a₁ a₂ he
    · intro p key hkey
      obtain ⟨j, c, began, hj, hrace⟩ := h.pubOwner p key hkey
      exact ⟨j, c, began, getElem?_snoc hj, hrace⟩
  | commit hi hp hid =>
    obtain ⟨-, hr, hk, -⟩ := (h.calls _ (List.mem_of_getElem? hi)).of_save hp
    refine h.answer hi hr (fun t ht => List.mem_cons_of_mem _ ht) (List.nodup_cons.2 ⟨hid, h.ids⟩) ?_
      ⟨.publishing _, hk _, rfl, List.mem_cons_self, hr⟩
    intro t he t' ht' hidt
    cases he
    exact hid (List.mem_map.2 ⟨t', ht', hidt.symm⟩)
  | rejectSave hi hp =>
    obtain ⟨-, hr, -, hk⟩ := (h.calls _ (List.mem_of_getElem? hi)).of_save hp
    exact h.answer hi hr (fun _ ht => ht) h.ids nofun ⟨.threw _, hk _, rfl, hr⟩
  | @publish i call taskId k eventId timestamp q hi hp _ hf hq =>
    obtain ⟨saved, ha, hmem, hr, hid, hk⟩ := (h.calls _ (List.mem_of_getElem? hi)).of_publish hp
    have hlen : s.queue.pubs.length = s.queue.keys.length := by simp [Queue.State.keys]
    rw [hlen]
    refine h.publish hi ha hmem hr hid ?_ hq (hk _)
    simpa [Queue.State.keys, Queue.Publish.key, Function.comp_def] using hf
  | settle hi hp =>
    obtain ⟨saved, ha, hmem, hpub, hk⟩ := (h.calls _ (List.mem_of_getElem? hi)).of_race hp
    exact h.set hi rfl rfl ⟨.returned saved, hk _, ha, hmem, _, hpub⟩
  | tick => exact ⟨fun c hc => h.calls c hc, h.ids, h.taskOwner, h.pubOwner, h.fresh, h.issued⟩
  | shutdown hq | crash hq => exact h.queue hq rfl fun _ h => by cases h
  | @queue a q hin hq =>
    refine h.queue hq ?_ ?_
    · cases a <;> first | rfl | cases hin
    · rintro content rfl
      cases hin

theorem reachable_inv {as : List Action} {s : State} (h : run init as = some s) : Inv s :=
  exec_inv (fun _ _ _ => step_inv) inv_init h

/-! ## Timers -/

theorem inTime_iff {s : State} {t : ℕ} {call : Call} : s.inTime t call = true ↔
    ∀ pub k n began, call.prog = .await (.race pub) k → call.race = some (n, began) →
      s.live call.inst = true → t ≤ began + publishTimeout := by
  unfold State.inTime
  constructor
  · intro h pub k n began hp hr hl
    simpa [hp, hr, hl] using h
  · intro h
    split
    · next pub k n began hp hr =>
      have := h pub k n began hp hr
      cases hl : s.live call.inst with
      | false => rfl
      | true => simpa using this hl
    · rfl

/-- No race is past its deadline. -/
def TimersKept (s : State) : Prop := ∀ call ∈ s.calls, s.inTime s.now call = true

theorem TimersKept.queue {s : State} {q : Queue.State} {a : Queue.Action} (h : TimersKept s)
    (hq : Queue.step s.queue a = some q) : TimersKept { s with queue := q } := by
  intro call hc
  refine inTime_iff.2 fun pub k n began hp hr hl => inTime_iff.1 (h call hc) pub k n began hp hr ?_
  by_contra hd
  simp only [State.live, Bool.not_eq_true, Bool.not_eq_false', List.contains_iff_mem] at hd hl
  simp [Queue.step_crashed hq hd] at hl

theorem TimersKept.set {s : State} {i : ℕ} {call : Call} (h : TimersKept s)
    (hc : call.race = none ∨ (∃ r, call.prog = .ret r) ∨ ∃ n, call.race = some (n, s.now)) :
    TimersKept { s with calls := s.calls.set i call } := by
  intro c hmem
  rcases List.mem_or_eq_of_mem_set hmem with hmem | rfl
  · exact h c hmem
  · refine inTime_iff.2 fun pub k n began hp hr _ => ?_
    rcases hc with hnone | ⟨r, hret⟩ | ⟨n', hnow⟩
    · rw [hnone] at hr; cases hr
    · rw [hret] at hp; cases hp
    · rw [hnow] at hr; cases hr; exact Nat.le_add_right _ _

theorem step_timers {s s' : State} {a : Action} (hinv : Inv s) (h : TimersKept s)
    (ha : step s a = some s') : TimersKept s' := by
  cases step_cases ha with
  | post =>
    intro c hc
    rcases List.mem_append.1 hc with hc | hc
    · exact h c hc
    · obtain rfl := List.mem_singleton.1 hc
      exact inTime_iff.2 fun _ _ _ _ _ hr => nomatch hr
  | commit hi hp =>
    obtain ⟨-, hr, -⟩ := (hinv.calls _ (List.mem_of_getElem? hi)).of_save hp
    exact h.set (Or.inl hr)
  | rejectSave hi hp =>
    obtain ⟨-, hr, -⟩ := (hinv.calls _ (List.mem_of_getElem? hi)).of_save hp
    exact h.set (Or.inl hr)
  | publish _ _ _ _ hq => exact (h.queue hq).set (Or.inr (Or.inr ⟨_, rfl⟩))
  | settle hi hp =>
    obtain ⟨saved, -, -, -, hk⟩ := (hinv.calls _ (List.mem_of_getElem? hi)).of_race hp
    exact h.set (Or.inr (Or.inl ⟨saved, hk _⟩))
  | tick ht => exact ht
  | shutdown hq | crash hq | queue _ hq => exact h.queue hq

theorem reachable_timers {as : List Action} {s : State} (h : run init as = some s) : TimersKept s :=
  exec_hist (P := fun _ s => TimersKept s) (fun _ hc => absurd hc List.not_mem_nil)
    (fun _ _ _ _ hr ht ha => step_timers (reachable_inv hr) ht ha) as s h

/-! ## What a publish follows -/

/-- A step issues an event only where a call stands before the publish of its task. -/
theorem step_issued {s s' : State} {a : Action} {e : Event} (ha : step s a = some s')
    (he : s'.queue.issued e) : s.queue.issued e ∨ ∃ i call k,
      a = .publish i e.eventId e.timestamp ∧ s.calls[i]? = some call ∧
        call.prog = .await (.publish e.taskId) k := by
  have silent : ∀ {b : Queue.Action} {q : Queue.State}, Queue.step s.queue b = some q →
      b.published = [] → q.issued e → s.queue.issued e := by
    intro b q hq hb hi
    rwa [Queue.State.issued, Queue.step_pubs hq, hb, List.append_nil] at hi
  cases step_cases ha with
  | post | commit | rejectSave | settle | tick => exact Or.inl he
  | publish hi hp _ _ hq =>
    replace he : e ∈ _ := he
    rw [Queue.step_pubs hq, List.map_append] at he
    rcases List.mem_append.1 he with he | he
    · exact Or.inl he
    · obtain rfl := List.mem_singleton.1 he
      exact Or.inr ⟨_, _, _, rfl, hi, hp⟩
  | shutdown hq | crash hq => exact Or.inl (silent hq rfl he)
  | @queue a q hin hq =>
    refine Or.inl (silent hq ?_ he)
    cases a <;> first | rfl | cases hin

/-- In the run `as`, the event was issued by a publish at which the row of its task had been
    committed. -/
def CommittedBefore (as : List Action) (e : Event) : Prop :=
  ∃ as₁ i as₂ s₁ s₂, as = as₁ ++ .publish i e.eventId e.timestamp :: as₂ ∧ run init as₁ = some s₁ ∧
    step s₁ (.publish i e.eventId e.timestamp) = some s₂ ∧ s₂.queue.issued e ∧
    ¬ s₁.queue.issued e ∧ ∃ t ∈ s₁.tasks, t.id = e.taskId

theorem issued_committed {as : List Action} {s : State} (h : run init as = some s) :
    ∀ e, s.queue.issued e → CommittedBefore as e := by
  refine exec_hist (P := fun as s => ∀ e, s.queue.issued e → CommittedBefore as e) ?_ ?_ as s h
  · exact fun e he => nomatch he
  · intro as s a s' hrun ih ha e he
    by_cases hold : s.queue.issued e
    · obtain ⟨as₁, i, as₂, s₁, s₂, rfl, h1⟩ := ih e hold
      exact ⟨as₁, i, as₂ ++ [a], s₁, s₂, by simp, h1⟩
    · rcases step_issued ha he with hi | ⟨i, call, k, rfl, hi, hp⟩
      · exact absurd hi hold
      · obtain ⟨saved, -, hmem, -, hid, -⟩ :=
          ((reachable_inv hrun).calls call (List.mem_of_getElem? hi)).of_publish hp
        exact ⟨as, i, [], s, s', rfl, hrun, ha, he, hold, saved, hmem, hid⟩

/-! ## The agreement -/

/-- The call `i`, whose instance is up and whose save committed `saved`, has returned it; or it
    can start its publish; or its publish began at most two seconds ago, and when these are over
    the call can time out and return `saved`. -/
def ReturnsInTime (s : State) (i : ℕ) (call : Call) (saved : Task) : Prop :=
  call.prog = .ret saved ∨
    (call.race = none ∧ ∀ eventId timestamp, eventId ∉ s.queue.pubs.map (·.event.eventId) →
      (step s (.publish i eventId timestamp)).isSome = true) ∨
    ∃ pub began, call.race = some (pub, began) ∧ s.now ≤ began + publishTimeout ∧
      (began + publishTimeout ≤ s.now → ∃ s' call', step s (.timeout i) = some s' ∧
        s'.calls[i]? = some call' ∧ call'.prog = .ret saved)

/-- A timer that is due can fire. -/
theorem step_timeout {s : State} {i : ℕ} {call : Call} {pub n began : ℕ}
    {k : Except JsString Unit → Creating Task} (hi : s.calls[i]? = some call)
    (hp : call.prog = .await (.race pub) k) (hr : call.race = some (n, began))
    (hl : s.live call.inst = true) (hdue : began + publishTimeout ≤ s.now) :
    step s (.timeout i) = some { s with
      calls := s.calls.set i { call with prog := k (.error (js "RabbitMQ publish timed out")) } } := by
  obtain ⟨inst, title, answer, race, prog⟩ := call
  dsimp only at hp hr hl
  subst hp hr
  simp only [step, State.settleRace, hi, Option.bind_some]
  exact if_pos ⟨hl, by simpa using hdue⟩

theorem returnsInTime {s : State} (hinv : Inv s) (ht : TimersKept s) {i : ℕ} {call : Call}
    {saved : Task} (hi : s.calls[i]? = some call) (ha : call.answer = some (.ok saved))
    (hl : s.live call.inst = true) : ReturnsInTime s i call saved := by
  have hmem := List.mem_of_getElem? hi
  obtain ⟨st, hp, hf⟩ := hinv.calls call hmem
  cases st with
  | saving => rw [hf.1] at ha; cases ha
  | threw err => rw [hf.1] at ha; cases ha
  | returned t =>
    rw [hf.1] at ha; cases ha
    exact Or.inl hp
  | publishing t =>
    rw [hf.1] at ha; cases ha
    refine Or.inr (Or.inl ⟨hf.2.2, fun eventId timestamp hfresh => ?_⟩)
    have hcr : call.inst ∉ s.queue.crashed := by simpa [State.live] using hl
    rw [publishing_code] at hp
    simp only [step, hi, Option.bind_some, hp, if_pos (And.intro hl hfresh), Queue.step, if_neg hcr]
    rfl
  | racing t pub =>
    rw [hf.1] at ha; cases ha
    obtain ⟨began, key, hr, -⟩ := hf.2.2
    rw [racing_code] at hp
    refine Or.inr (Or.inr ⟨pub, began, hr, inTime_iff.1 (ht call hmem) _ _ _ _ hp hr hl, fun hdue => ?_⟩)
    exact ⟨_, _, step_timeout hi hp hr hl hdue, List.getElem?_set_self (List.getElem?_eq_some_iff.1 hi).1, rfl⟩

/-- A publish belongs to a call whose save committed its task. -/
theorem Inv.published {s : State} (h : Inv s) {p : ℕ} {key : ℕ × Event}
    (hk : s.queue.keys[p]? = some key) :
    ∃ call ∈ s.calls, ∃ saved, call.answer = some (.ok saved) ∧ Published s call saved p := by
  obtain ⟨i, call, began, hi, hr⟩ := h.pubOwner p key hk
  obtain ⟨st, -, hf⟩ := h.calls call (List.mem_of_getElem? hi)
  have same : ∀ {saved pub}, Published s call saved pub → Published s call saved p := by
    rintro saved pub ⟨began', key', hr', hrest⟩
    rw [hr] at hr'
    cases hr'
    exact ⟨began, key', hr, hrest⟩
  cases st with
  | saving => rw [hf.2] at hr; cases hr
  | threw err => rw [hf.2] at hr; cases hr
  | publishing saved => rw [hf.2.2] at hr; cases hr
  | racing saved pub => exact ⟨call, List.mem_of_getElem? hi, saved, hf.1, same hf.2.2⟩
  | returned saved =>
    obtain ⟨pub, hpub⟩ := hf.2.2
    exact ⟨call, List.mem_of_getElem? hi, saved, hf.1, same hpub⟩

/-- Publishes of one task, or with one event id, are one publish. -/
theorem Inv.publish_unique {s : State} (h : Inv s) {p q : ℕ} {kp kq : ℕ × Event}
    (hp : s.queue.keys[p]? = some kp) (hq : s.queue.keys[q]? = some kq)
    (he : kp.2.taskId = kq.2.taskId ∨ kp.2.eventId = kq.2.eventId) : p = q := by
  rcases he with he | he
  · obtain ⟨ci, hi, t, ha, _, _, hr, hkey, ht⟩ := h.published hp
    obtain ⟨cj, hj, t', ha', _, _, hr', hkey', ht'⟩ := h.published hq
    obtain rfl : kp = _ := Option.some.inj (hp.symm.trans hkey)
    obtain rfl : kq = _ := Option.some.inj (hq.symm.trans hkey')
    obtain ⟨i, hi⟩ := List.mem_iff_getElem?.1 hi
    obtain ⟨j, hj⟩ := List.mem_iff_getElem?.1 hj
    obtain rfl := h.taskOwner i j ci cj t t' hi hj ha ha' (by rw [← ht, ← ht', he])
    obtain rfl : ci = cj := Option.some.inj (hi.symm.trans hj)
    rw [hr] at hr'
    cases hr'; rfl
  · obtain ⟨hlt, rfl⟩ := List.getElem?_eq_some_iff.1 hp
    obtain ⟨hlt', rfl⟩ := List.getElem?_eq_some_iff.1 hq
    have hlt₁ : p < (s.queue.keys.map (·.2.eventId)).length := by simpa
    have hlt₂ : q < (s.queue.keys.map (·.2.eventId)).length := by simpa
    have he' : (s.queue.keys.map (·.2.eventId))[p] = (s.queue.keys.map (·.2.eventId))[q] := by simpa
    exact h.fresh.getElem_inj_iff.1 he'

/-- A call whose save was rejected. -/
theorem Inv.rejected {s : State} (h : Inv s) {call : Call} (hc : call ∈ s.calls) {err : JsString}
    (ha : call.answer = some (.error err)) : call.prog = .throw err ∧ call.race = none := by
  obtain ⟨st, hp, hf⟩ := h.calls call hc
  cases st with
  | threw err' =>
    rw [hf.1] at ha; cases ha
    exact ⟨hp, hf.2⟩
  | saving | publishing | racing | returned => rw [hf.1] at ha; cases ha

/-- A call whose save committed. -/
theorem Inv.committed {s : State} (h : Inv s) {call : Call} (hc : call ∈ s.calls) {saved : Task}
    (ha : call.answer = some (.ok saved)) : saved ∈ s.tasks ∧ (∀ err, call.prog ≠ .throw err) ∧
      ∀ t, call.prog = .ret t → t = saved := by
  obtain ⟨st, hp, hf⟩ := h.calls call hc
  cases st with
  | saving | threw => rw [hf.1] at ha; cases ha
  | publishing t =>
    rw [hf.1] at ha; cases ha
    rw [hp, publishing_code]
    exact ⟨hf.2.1, nofun, nofun⟩
  | racing t pub =>
    rw [hf.1] at ha; cases ha
    rw [hp, racing_code]
    exact ⟨hf.2.1, nofun, nofun⟩
  | returned t =>
    rw [hf.1] at ha; cases ha
    rw [hp]
    exact ⟨hf.2.1, nofun, fun t' ht => by cases ht; rfl⟩

/-- **Write path and event path agree**, in every state of every run.
    What is or was in the queue, is processed, or entered the side-effect block is an event whose
    task had been committed before it was published.
    A call whose save was rejected throws that error, and every publish is one of a call whose
    save committed its task.
    A call whose save committed returns the saved row, if it ends; where its instance is up, at
    the latest when the timeout is over.
    A task has one publish and so has an event id. -/
theorem write_and_event_agree {as : List Action} {s : State} (h : run init as = some s) :
    ((∀ x ∈ s.queue.broker.placed, ∃ e, x.2 = e.content ∧ CommittedBefore as e) ∧
      (∀ r ∈ s.queue.rows, ∃ e, r.eventId = e.eventId ∧ CommittedBefore as e) ∧
      ∀ p ∈ s.queue.effects, ∃ e, p = e.json ∧ CommittedBefore as e) ∧
    ((∀ call ∈ s.calls, ∀ err, call.answer = some (.error err) →
        call.prog = .throw err ∧ call.race = none) ∧
      ∀ (p : ℕ) (key : ℕ × Event), s.queue.keys[p]? = some key → ∃ call ∈ s.calls, ∃ saved,
        call.answer = some (.ok saved) ∧ Published s call saved p) ∧
    (∀ (i : ℕ) (call : Call) (saved : Task), s.calls[i]? = some call → call.answer = some (.ok saved) →
      saved ∈ s.tasks ∧ (∀ err, call.prog ≠ .throw err) ∧ (∀ t, call.prog = .ret t → t = saved) ∧
        (s.live call.inst = true → ReturnsInTime s i call saved)) ∧
    ∀ (p q : ℕ) (kp kq : ℕ × Event), s.queue.keys[p]? = some kp → s.queue.keys[q]? = some kq →
      (kp.2.taskId = kq.2.taskId ∨ kp.2.eventId = kq.2.eventId) → p = q := by
  have hinv := reachable_inv h
  have hcom := issued_committed h
  refine ⟨⟨fun x hx => ?_, fun r hr => ?_, fun p hp => ?_⟩,
    ⟨fun call hc err => hinv.rejected hc, fun p key => hinv.published⟩,
    fun i call saved hi ha => ?_, fun p q kp kq hp hq => hinv.publish_unique hp hq⟩
  · obtain ⟨e, he, hx⟩ := hinv.issued.placed x hx
    exact ⟨e, hx, hcom e he⟩
  · obtain ⟨e, he, hr⟩ := hinv.issued.rows r hr
    exact ⟨e, hr, hcom e he⟩
  · obtain ⟨e, he, hp⟩ := hinv.issued.effects p hp
    exact ⟨e, hp, hcom e he⟩
  · obtain ⟨hmem, hthrow, hret⟩ := hinv.committed (List.mem_of_getElem? hi) ha
    exact ⟨hmem, hthrow, hret, returnsInTime hinv (reachable_timers h) hi ha⟩

/-- One task is published after its timeout, the save of another is rejected. -/
theorem write_and_event_agree_late :
    ∃ s, run init [.post 0 (js "a"), .post 0 (js "b"), .commit 0 (Uuid.ofNat 2) ⟨2026, 0, 0, 0, 0, 0, 0⟩,
      .rejectSave 1 (js "down"), .publish 0 (Uuid.ofNat 1) ⟨2026, 0, 0, 0, 0, 0, 0⟩, .tick 2000,
      .timeout 0, .queue (.send 0)] = some s ∧
      (∀ x ∈ s.queue.broker.placed, ∃ e, x.2 = e.content ∧ CommittedBefore [.post 0 (js "a"),
        .post 0 (js "b"), .commit 0 (Uuid.ofNat 2) ⟨2026, 0, 0, 0, 0, 0, 0⟩, .rejectSave 1 (js "down"),
        .publish 0 (Uuid.ofNat 1) ⟨2026, 0, 0, 0, 0, 0, 0⟩, .tick 2000, .timeout 0,
        .queue (.send 0)] e) ∧ s.queue.broker.placed.length = 1 := by
  have hrun : (run init [.post 0 (js "a"), .post 0 (js "b"),
    .commit 0 (Uuid.ofNat 2) ⟨2026, 0, 0, 0, 0, 0, 0⟩, .rejectSave 1 (js "down"),
    .publish 0 (Uuid.ofNat 1) ⟨2026, 0, 0, 0, 0, 0, 0⟩, .tick 2000, .timeout 0,
    .queue (.send 0)]).map (·.queue.broker.placed.length) = some 1 := by decide +kernel
  obtain ⟨s, h, hs⟩ := Option.map_eq_some_iff.1 hrun
  exact ⟨s, h, (write_and_event_agree h).1.1, hs⟩

end SystemDesign.Tasks
