/-
  Shutting down while tasks are created.

  `onModuleDestroy` closes the channel wrapper, which rejects what is not confirmed yet, while
  requests still come in; and a failed publish does not fail `create`.  So an event is dropped
  where the wrapper is closed before a publish is confirmed, or before one begins.  `graceful`
  excludes these two; along such runs `returned_confirmed`.
-/
import SystemDesign.Tasks.Agreement

namespace SystemDesign.Tasks

open Lib

/-- The broker rejects no message, and a publish times out only where its wrapper is closed. -/
def healthy (s : State) : Action → Bool
  | .queue (.reject _) => false
  | .timeout i => s.calls[i]?.all fun call => s.queue.closed.contains call.inst
  | _ => true

/-- A publish begins with its wrapper open, and a wrapper is closed when all its publishes are
    confirmed. -/
def graceful (s : State) : Action → Bool
  | .publish i _ _ => s.calls[i]?.all fun call => !s.queue.closed.contains call.inst
  | .shutdown inst => s.queue.pubs.all fun pub => pub.inst != inst || pub.status == .confirmed
  | _ => true

/-! ## The publishes -/

/-- No publish is rejected, and those of a closed wrapper are confirmed. -/
structure Drained (q : Queue.State) : Prop where
  kept : ∀ pub ∈ q.pubs, pub.status ≠ .rejected
  closed : ∀ pub ∈ q.pubs, pub.inst ∈ q.closed → pub.status = .confirmed

theorem Drained.set {q q' : Queue.State} (h : Drained q) {p : ℕ} {pub : Queue.Publish}
    (hpubs : q'.pubs = q.pubs.set p pub) (hc : q'.closed = q.closed) (hk : pub.status ≠ .rejected)
    (hcl : pub.inst ∈ q.closed → pub.status = .confirmed) : Drained q' := by
  refine ⟨fun x hx => ?_, fun x hx hin => ?_⟩ <;> rw [hpubs] at hx <;>
    rcases List.mem_or_eq_of_mem_set hx with hx | rfl
  · exact h.kept x hx
  · exact hk
  · exact h.closed x hx (hc ▸ hin)
  · exact hcl (hc ▸ hin)

theorem open_of_canSend {q : Queue.State} {inst : ℕ} (h : q.canSend inst = true) : inst ∉ q.closed := by
  simp only [Queue.State.canSend, Bool.and_eq_true, Bool.not_eq_true', List.contains_eq_mem,
    decide_eq_false_iff_not] at h
  exact h.1

theorem Drained.step {q q' : Queue.State} {a : Queue.Action} (h : Drained q)
    (ha : Queue.step q a = some q') (hr : ∀ p, a ≠ .reject p)
    (hp : ∀ inst e, a = .publish inst e → inst ∉ q.closed)
    (hc : ∀ inst, a = .close inst → ∀ pub ∈ q.pubs, pub.inst = inst → pub.status = .confirmed) :
    Drained q' := by
  cases Queue.step_cases ha with
  | @publish inst e =>
    refine ⟨fun x hx => ?_, fun x hx hin => ?_⟩ <;> rcases List.mem_append.1 hx with hx | hx
    · exact h.kept x hx
    · rw [List.mem_singleton.1 hx]; exact nofun
    · exact h.closed x hx hin
    · rw [List.mem_singleton.1 hx] at hin
      exact absurd hin (hp inst e rfl)
  | send _ _ hs | unsend _ _ hs =>
    exact h.set rfl rfl nofun fun hin => absurd hin (open_of_canSend hs)
  | confirm => exact h.set rfl rfl nofun fun _ => rfl
  | reject => exact absurd rfl (hr _)
  | @close inst =>
    have same : ∀ pub ∈ q.pubs, Queue.Publish.close inst pub = pub := by
      intro pub hpub
      rw [Queue.Publish.close, if_neg]
      rintro ⟨he, hw | hw⟩ <;> rw [hc inst rfl pub hpub he] at hw <;> cases hw
    have hpubs : q.pubs.map (Queue.Publish.close inst) = q.pubs :=
      (List.map_congr_left same).trans (List.map_id _)
    refine ⟨fun x hx => h.kept x (hpubs ▸ hx), fun x hx hin => ?_⟩
    have hx' : x ∈ q.pubs := hpubs ▸ hx
    rcases List.mem_cons.1 hin with he | hin
    · exact hc inst rfl x hx' he
    · exact h.closed x hx' hin
  | inject | openChannel | deliverDead | deliver | run | loseChannel | crash => exact ⟨h.kept, h.closed⟩

/-- The publish number `p` is confirmed. -/
def Confirmed (q : Queue.State) (p : ℕ) : Prop := ∃ pub, q.pubs[p]? = some pub ∧ pub.status = .confirmed

/-- A confirmed publish stays so. -/
theorem Confirmed.step {q q' : Queue.State} {a : Queue.Action} {p : ℕ} (h : Confirmed q p)
    (ha : Queue.step q a = some q') : Confirmed q' p := by
  obtain ⟨pub, hp, hs⟩ := h
  have other : ∀ {p' : ℕ} {pub' : Queue.Publish} {st : PublishStatus}, q.pubs[p']? = some pub' →
      pub'.status ≠ .confirmed →
      ∃ x, (q.pubs.set p' { pub' with status := st })[p]? = some x ∧ x.status = .confirmed := by
    intro p' pub' st hp' hne
    refine ⟨pub, (List.getElem?_set_ne ?_).trans hp, hs⟩
    rintro rfl
    obtain rfl : pub = pub' := Option.some.inj (hp.symm.trans hp')
    exact hne hs
  cases Queue.step_cases ha with
  | publish => exact ⟨pub, getElem?_snoc hp, hs⟩
  | send hp' hw => exact other hp' (by rw [hw]; exact nofun)
  | unsend hp' hw | confirm hp' hw => exact other hp' (by rw [hw]; exact nofun)
  | reject hp' hw => exact other hp' (by rcases hw with hw | hw <;> rw [hw] <;> exact nofun)
  | close =>
    refine ⟨pub, ?_, hs⟩
    simp only [List.getElem?_map, hp, Option.map_some, Queue.Publish.close, hs]
    rw [if_neg (by rintro ⟨-, h | h⟩ <;> cases h)]
  | inject | openChannel | deliverDead | deliver | run | loseChannel | crash => exact ⟨pub, hp, hs⟩

/-! ## The calls -/

/-- The publishes are drained, and each call that returned has its publish confirmed. -/
structure Safe (s : State) : Prop where
  drained : Drained s.queue
  returned : ∀ call ∈ s.calls, ∀ t, call.prog = .ret t →
    ∃ p began, call.race = some (p, began) ∧ Confirmed s.queue p

theorem Safe.queue {s : State} {q : Queue.State} {a : Queue.Action} (h : Safe s)
    (hq : Queue.step s.queue a = some q) (hd : Drained q) : Safe { s with queue := q } := by
  refine ⟨hd, fun call hc t ht => ?_⟩
  obtain ⟨p, began, hr, hp⟩ := h.returned call hc t ht
  exact ⟨p, began, hr, hp.step hq⟩

theorem Safe.set {s : State} {i : ℕ} {call : Call} (h : Safe s)
    (hc : ∀ t, call.prog = .ret t → ∃ p began, call.race = some (p, began) ∧ Confirmed s.queue p)
    (tasks : List Task) : Safe { s with tasks := tasks, calls := s.calls.set i call } := by
  refine ⟨h.drained, fun c hmem t ht => ?_⟩
  rcases List.mem_or_eq_of_mem_set hmem with hmem | rfl
  · exact h.returned c hmem t ht
  · exact hc t ht

theorem confirmed_of_status {s : State} {p : ℕ} (h : s.status p = some .confirmed) :
    Confirmed s.queue p := by
  obtain ⟨pub, hp, hs⟩ := Option.map_eq_some_iff.1 h
  exact ⟨pub, hp, hs⟩

/-- **The race of a call ends only with its publish confirmed**, on a healthy and graceful step. -/
theorem confirmed_of_settles {s : State} (h : Safe s) {i : ℕ} {call : Call} {saved : Task}
    {pub began : ℕ} {x : Except JsString Unit} {a : Action} (hi : s.calls[i]? = some call)
    (hpub : Published s call saved pub) (ha : Settles s i pub began x a) (hh : healthy s a = true) :
    Confirmed s.queue pub := by
  cases a with
  | confirmed j => exact confirmed_of_status ha.2.1
  | failed j err =>
    obtain ⟨p, hp, hs⟩ := Option.map_eq_some_iff.1 ha.2.1
    exact absurd hs (h.drained.kept p (List.mem_of_getElem? hp))
  | timeout j =>
    obtain ⟨rfl, -, -⟩ := ha
    obtain ⟨began', e, -, hkey, -⟩ := hpub
    have hkey' : (s.queue.pubs[pub]?).map Queue.Publish.key = some (call.inst, e) := by
      rw [← List.getElem?_map]; exact hkey
    obtain ⟨p, hp, he⟩ := Option.map_eq_some_iff.1 hkey'
    refine ⟨p, hp, h.drained.closed p (List.mem_of_getElem? hp) ?_⟩
    have hinst : p.inst = call.inst := congrArg Prod.fst he
    simpa [healthy, hi, hinst] using hh
  | post | commit | rejectSave | publish | tick | shutdown | crash | queue => exact ha.elim

/-- **The step lemma.** -/
theorem step_safe {s s' : State} {a : Action} (hinv : Inv s) (h : Safe s)
    (hh : healthy s a = true) (hg : graceful s a = true) (ha : step s a = some s') : Safe s' := by
  cases step_cases ha with
  | post =>
    refine ⟨h.drained, fun call hc t ht => ?_⟩
    rcases List.mem_append.1 hc with hc | hc
    · exact h.returned call hc t ht
    · obtain rfl := List.mem_singleton.1 hc
      cases ht
  | commit hi hp =>
    obtain ⟨-, -, hk, -⟩ := (hinv.calls _ (List.mem_of_getElem? hi)).of_save hp
    refine h.set (fun t ht => ?_) _
    simp only [hk, publishing_code] at ht
    cases ht
  | rejectSave hi hp =>
    obtain ⟨-, -, -, hk⟩ := (hinv.calls _ (List.mem_of_getElem? hi)).of_save hp
    refine h.set (fun t ht => ?_) _
    simp only [hk] at ht
    cases ht
  | @publish i call taskId k eventId timestamp q hi hp _ _ hq =>
    obtain ⟨saved, -, -, -, -, hk⟩ := (hinv.calls _ (List.mem_of_getElem? hi)).of_publish hp
    have hopen : call.inst ∉ s.queue.closed := by simpa [graceful, hi] using hg
    have hd := h.drained.step hq nofun (fun inst e he => by cases he; exact hopen) nofun
    refine (h.queue hq hd).set (fun t ht => ?_) _
    simp only [hk, racing_code] at ht
    cases ht
  | @settle a i call pub k n began x hi hp hr hl hs =>
    obtain ⟨saved, -, -, hpub, -⟩ := (hinv.calls _ (List.mem_of_getElem? hi)).of_race hp
    have hc := confirmed_of_settles h hi hpub hs hh
    obtain ⟨began', e, hrace, -⟩ := hpub
    refine h.set (fun _ _ => ?_) _
    exact ⟨pub, began', hrace, hc⟩
  | tick => exact ⟨h.drained, h.returned⟩
  | @shutdown inst q hq =>
    refine h.queue hq (h.drained.step hq nofun nofun fun inst' he pub hpub hpi => ?_)
    cases he
    have := List.all_eq_true.1 hg pub hpub
    simpa [hpi] using this
  | crash hq => exact h.queue hq (h.drained.step hq nofun nofun nofun)
  | @queue a q hin hq =>
    refine h.queue hq (h.drained.step hq ?_ ?_ ?_)
    · rintro p rfl; cases hh
    · rintro inst e rfl; cases hin
    · rintro inst rfl; cases hin

/-- **Graceful shutdown does not drop events**, along runs with a healthy broker that begin
    publishes with the wrapper open and close it when they are confirmed: each task for which
    `create` returned has its message confirmed. -/
theorem returned_confirmed {as : List Action} {s : State} (h : run init as = some s)
    (hc : Along step (fun s a => healthy s a = true ∧ graceful s a = true) init as) :
    ∀ call ∈ s.calls, ∀ t, call.prog = .ret t →
      ∃ pub ∈ s.queue.pubs, pub.event.taskId = t.id ∧ pub.status = .confirmed := by
  have hboth : Inv s ∧ Safe s :=
    exec_inv_along (I := fun s => Inv s ∧ Safe s)
      (fun _ _ _ hi hca ha => ⟨step_inv hi.1 ha, step_safe hi.1 hi.2 hca.1 hca.2 ha⟩)
      ⟨inv_init, ⟨⟨nofun, nofun⟩, nofun⟩⟩ hc h
  intro call hmem t ht
  obtain ⟨p, began, hr, pub, hp, hs⟩ := hboth.2.returned call hmem t ht
  refine ⟨pub, List.mem_of_getElem? hp, ?_, hs⟩
  obtain ⟨st, hcode, hf⟩ := hboth.1.calls call hmem
  rw [ht] at hcode
  cases st with
  | saving => rw [saving_code] at hcode; cases hcode
  | publishing => rw [publishing_code] at hcode; cases hcode
  | racing => rw [racing_code] at hcode; cases hcode
  | threw => cases hcode
  | returned t' =>
    cases hcode
    obtain ⟨-, -, p', began', e, hr', hkey, hid⟩ := hf
    rw [hr] at hr'
    cases hr'
    have hkey' : (s.queue.pubs[p]?).map Queue.Publish.key = some (call.inst, e) := by
      rw [← List.getElem?_map]; exact hkey
    rw [hp] at hkey'
    have he : pub.event = e := congrArg Prod.snd (Option.some.inj hkey')
    exact he ▸ hid

/-- The wrapper is closed when the publish is confirmed. -/
theorem returned_confirmed_drained :
    ∃ s, run init [.post 0 (js "a"), .commit 0 (Uuid.ofNat 2) ⟨2026, 0, 0, 0, 0, 0, 0⟩,
      .publish 0 (Uuid.ofNat 1) ⟨2026, 0, 0, 0, 0, 0, 0⟩, .queue (.send 0), .queue (.confirm 0),
      .shutdown 0, .confirmed 0] = some s ∧ ∀ call ∈ s.calls, ∀ t, call.prog = .ret t →
        ∃ pub ∈ s.queue.pubs, pub.event.taskId = t.id ∧ pub.status = .confirmed := by
  have hrun : (run init [.post 0 (js "a"), .commit 0 (Uuid.ofNat 2) ⟨2026, 0, 0, 0, 0, 0, 0⟩,
    .publish 0 (Uuid.ofNat 1) ⟨2026, 0, 0, 0, 0, 0, 0⟩, .queue (.send 0), .queue (.confirm 0),
    .shutdown 0, .confirmed 0]).isSome = true := by decide +kernel
  obtain ⟨s, h⟩ := Option.isSome_iff_exists.1 hrun
  exact ⟨s, h, returned_confirmed h (by decide +kernel)⟩

/-- What a call returned, for comparing. -/
def Call.result (call : Call) : Option Task :=
  match call.prog with
  | .ret t => some t
  | _ => none

/-- The signal comes between publish and confirm, in a healthy run: the message is rejected, and
    `create` returns. -/
theorem returned_not_confirmed :
    ∃ s, run init [.post 0 (js "a"), .commit 0 (Uuid.ofNat 2) ⟨2026, 0, 0, 0, 0, 0, 0⟩,
      .publish 0 (Uuid.ofNat 1) ⟨2026, 0, 0, 0, 0, 0, 0⟩, .shutdown 0, .failed 0 (js "closed")] =
        some s ∧
      Along step (fun s a => healthy s a = true) init [.post 0 (js "a"),
        .commit 0 (Uuid.ofNat 2) ⟨2026, 0, 0, 0, 0, 0, 0⟩,
        .publish 0 (Uuid.ofNat 1) ⟨2026, 0, 0, 0, 0, 0, 0⟩, .shutdown 0, .failed 0 (js "closed")] ∧
      ¬ ∀ call ∈ s.calls, ∀ t, call.prog = .ret t →
        ∃ pub ∈ s.queue.pubs, pub.event.taskId = t.id ∧ pub.status = .confirmed := by
  have hrun : (run init [.post 0 (js "a"), .commit 0 (Uuid.ofNat 2) ⟨2026, 0, 0, 0, 0, 0, 0⟩,
    .publish 0 (Uuid.ofNat 1) ⟨2026, 0, 0, 0, 0, 0, 0⟩, .shutdown 0, .failed 0 (js "closed")]).map
      (fun s => (s.calls.map Call.result, s.queue.pubs.map (·.status))) =
        some ([some ⟨Uuid.ofNat 2, js "a", false, ⟨2026, 0, 0, 0, 0, 0, 0⟩⟩], [.rejected]) := by
    decide +kernel
  obtain ⟨s, h, hs⟩ := Option.map_eq_some_iff.1 hrun
  obtain ⟨hcalls, hpubs⟩ := Prod.mk.inj hs
  refine ⟨s, h, by decide +kernel, fun hall => ?_⟩
  obtain ⟨call, hc, hret⟩ := List.mem_map.1 (by rw [hcalls]; exact List.mem_singleton_self _)
  have hp : call.prog = .ret ⟨Uuid.ofNat 2, js "a", false, ⟨2026, 0, 0, 0, 0, 0, 0⟩⟩ := by
    unfold Call.result at hret
    split at hret
    · next t ht => rw [ht, Option.some.inj hret]
    · cases hret
  obtain ⟨pub, hpub, -, hst⟩ := hall call hc _ hp
  have hmem : pub.status ∈ [PublishStatus.rejected] := hpubs ▸ List.mem_map_of_mem (f := (·.status)) hpub
  rw [hst] at hmem
  cases List.mem_singleton.1 hmem

end SystemDesign.Tasks
