/-
  What the frontend is shown.

  A page of tasks comes from the replica, which may be behind the primary.  `Paged` says from how many
  INSERTs each page came.

  `pages_sound`: every page has exactly the tasks of the first INSERTs, as they were created; while the
  replica does not go back no task disappears from later pages; and once it has caught up, a page has
  every task for which `create` returned.
-/
import SystemDesign.Lib.Records
import SystemDesign.Site.Posts

namespace SystemDesign.Site

open Lib

/-- The tasks of the first `n` INSERTs, as they are shown. -/
def State.page (s : State) (n : ℕ) : List Client.Task := (s.inserted.take n).map fun t => shown (load t)

/-- Each page came from so many INSERTs. -/
structure Paged (s : State) (ns : List ℕ) : Prop where
  pages : List.Forall₂ (fun page n => n ≤ s.inserted.length ∧ page.Perm (s.page n)) s.pages ns
  replayed : s.replayed ≤ s.inserted.length

/-- The replica does not go back. -/
def Forward (s : State) : Action → Prop
  | .replay n => s.replayed ≤ n
  | _ => True

section
variable {bcrypt : Accounts.Bcrypt} {s s' : State} {ns : List ℕ}

/-- What was inserted stays where it is. -/
theorem Paged.extend (h : Paged s ns) (hi : s.inserted <+: s'.inserted) (hp : s'.pages = s.pages)
    (hr : s'.replayed ≤ s'.inserted.length) : Paged s' ns := by
  refine ⟨?_, hr⟩
  rw [hp]
  refine h.pages.imp fun page n ⟨hn, hperm⟩ => ⟨hn.trans hi.length_le, ?_⟩
  obtain ⟨rest, hrest⟩ := hi
  rw [State.page, ← hrest, List.take_append_of_le_length hn]
  exact hperm

theorem grown_inserted {a : Tasks.Action} {tasks : Tasks.State} (hinv : Tasks.Inv s.tasks)
    (ha : Tasks.step s.tasks a = some tasks) : s.inserted <+: tasks.tasks.reverse := by
  obtain ⟨⟨added, htasks, -⟩, -, -⟩ := step_grown hinv ha
  rw [State.inserted, htasks, List.reverse_append]
  exact List.prefix_append _ _

/-- **The step lemma**: a step may show a page, of what the replica has. -/
theorem step_paged {a : Action} (hinv : Inv bcrypt s) (h : Paged s ns) (hs : step bcrypt s a = some s') :
    ∃ new, Paged s' (new ++ ns) ∧ (∀ n ∈ new, n = s'.replayed) ∧ new.length ≤ 1 ∧
      (Forward s a → s.replayed ≤ s'.replayed) := by
  have hnone : ∀ n ∈ ([] : List ℕ), n = s'.replayed := List.forall_mem_nil _
  cases step_cases hs with
  | @accounts a accounts ha =>
    exact ⟨[], h.extend (List.prefix_refl _) rfl h.replayed, hnone, Nat.zero_le 1, fun _ => le_rfl⟩
  | @post inst tok body dto tasks hauth hb ha =>
    have hi := grown_inserted hinv.tasks ha
    exact ⟨[], h.extend hi rfl (h.replayed.trans hi.length_le), hnone, Nat.zero_le 1, fun _ => le_rfl⟩
  | @tasks a tasks hallows ha =>
    have hi := grown_inserted hinv.tasks ha
    exact ⟨[], h.extend hi rfl (h.replayed.trans hi.length_le), hnone, Nat.zero_le 1, fun _ => le_rfl⟩
  | @replay n hn => exact ⟨[], h.extend (List.prefix_refl _) rfl hn, hnone, Nat.zero_le 1, fun hf => hf⟩
  | @list rows hrows =>
    refine ⟨[s.replayed], ⟨.cons ⟨h.replayed, hrows.map _⟩ h.pages, h.replayed⟩, ?_, le_rfl, fun _ => le_rfl⟩
    intro n hn
    exact List.mem_singleton.1 hn

theorem run_paged {id : Uuid} {as : List Action} (h : run bcrypt (init id) as = some s) : ∃ ns, Paged s ns := by
  have hrun : Inv bcrypt s ∧ ∃ ns, Paged s ns := by
    refine exec_inv (I := fun s => Inv bcrypt s ∧ ∃ ns, Paged s ns) ?_ ⟨inv_init id, [], .nil, le_rfl⟩ h
    rintro s a s' ⟨hinv, ns, hp⟩ hs
    obtain ⟨new, hp', -⟩ := step_paged hinv hp hs
    exact ⟨step_inv hinv hs, _, hp'⟩
  exact hrun.2

/-- **While the replica goes forward**, later pages came from no fewer INSERTs. -/
theorem run_forward {id : Uuid} {as : List Action} (h : run bcrypt (init id) as = some s)
    (hf : Along (step bcrypt) Forward (init id) as) : ∃ ns, Paged s ns ∧ ns.Pairwise (· ≥ ·) := by
  have hrun : Inv bcrypt s ∧ ∃ ns, Paged s ns ∧ ns.Pairwise (· ≥ ·) ∧ ∀ n ∈ ns, n ≤ s.replayed := by
    refine exec_inv_along (C := Forward)
      (I := fun s => Inv bcrypt s ∧ ∃ ns, Paged s ns ∧ ns.Pairwise (· ≥ ·) ∧ ∀ n ∈ ns, n ≤ s.replayed) ?_
      ⟨inv_init id, [], ⟨.nil, le_rfl⟩, List.Pairwise.nil, List.forall_mem_nil _⟩ hf h
    rintro s a s' ⟨hinv, ns, hp, hsorted, hle⟩ hfa hs
    obtain ⟨new, hp', hnew, hlen, hfwd⟩ := step_paged hinv hp hs
    have hold : ∀ n ∈ ns, n ≤ s'.replayed := fun n hn => (hle n hn).trans (hfwd hfa)
    refine ⟨step_inv hinv hs, _, hp', List.pairwise_append.2 ⟨?_, hsorted, fun m hm n hn => ?_⟩, fun n hn => ?_⟩
    · rcases new with _ | ⟨m, _ | ⟨m', rest⟩⟩
      · exact List.Pairwise.nil
      · exact List.pairwise_singleton _ m
      · simp at hlen
    · rw [hnew m hm]
      exact hold n hn
    · rcases List.mem_append.1 hn with hn | hn
      · exact (hnew n hn).le
      · exact hold n hn
  obtain ⟨-, ns, hp, hsorted, -⟩ := hrun
  exact ⟨ns, hp, hsorted⟩

/-! ## Pages -/

theorem page_ids (hinv : Inv bcrypt s) (n : ℕ) : ((s.page n).map (·.id)).Nodup := by
  have hids : (s.inserted.map (·.id)).Nodup := by
    rw [State.inserted, List.map_reverse, List.nodup_reverse]
    exact hinv.tasks.ids
  have htexts : ((s.inserted.map (·.id)).map Uuid.toText).Nodup := hids.map fun _ _ h => Uuid.toText_injective h
  have heq : (s.page n).map (·.id) = ((s.inserted.map (·.id)).map Uuid.toText).take n := by
    rw [State.page, List.map_map, List.map_map, ← List.map_take]
    rfl
  rw [heq]
  exact htexts.sublist (List.take_sublist _ _)

/-- What a page shows of a task is what was created. -/
theorem page_created (hinv : Inv bcrypt s) {n : ℕ} {x : Client.Task} (hx : x ∈ s.page n) :
    ∃ call ∈ s.tasks.calls, ∃ t : Task, call.answer = some (.ok t) ∧
      x = ⟨t.id.toText, toWellFormed call.title, false, t.createdAt.toISOString⟩ := by
  obtain ⟨t, ht, rfl⟩ := List.mem_map.1 hx
  have htasks : t ∈ s.tasks.tasks := List.mem_reverse.1 (List.mem_of_mem_take ht)
  obtain ⟨i, call, hi, hans, htitle, hcompleted⟩ := hinv.saved t htasks
  refine ⟨call, List.mem_of_getElem? hi, t, hans, ?_⟩
  rw [shown, load, htitle, hcompleted]

theorem Paged.exists_page (h : Paged s ns) {page : List Client.Task} (hp : page ∈ s.pages) :
    ∃ n ≤ s.inserted.length, page.Perm (s.page n) := by
  obtain ⟨n, -, hn⟩ := Sql.forall₂_left h.pages hp
  exact ⟨n, hn⟩

/-- Pages of more INSERTs show more. -/
theorem Paged.pairwise (h : Paged s ns) (hsorted : ns.Pairwise (· ≥ ·)) :
    s.pages.Pairwise fun later earlier => ∀ x ∈ earlier, x ∈ later := by
  have hmono : ∀ {m n : ℕ}, m ≤ n → ∀ x ∈ s.page m, x ∈ s.page n := by
    intro m n hmn x hx
    refine List.map_subset _ ?_ hx
    exact (List.take_prefix_take_left hmn).subset
  obtain ⟨hpages, -⟩ := h
  generalize s.pages = pages at hpages
  induction hpages with
  | nil => exact List.Pairwise.nil
  | @cons page n pages ns hn hrest ih =>
    obtain ⟨hlarge, hsorted⟩ := List.pairwise_cons.1 hsorted
    refine List.pairwise_cons.2 ⟨fun earlier he x hx => ?_, ih hsorted⟩
    obtain ⟨m, hm, -, hperm⟩ := Sql.forall₂_left hrest he
    exact hn.2.mem_iff.2 (hmono (hlarge m hm) x (hperm.mem_iff.1 hx))

/-- A call that returned has its task in the database. -/
theorem returned_inserted (hinv : Inv bcrypt s) {call : Tasks.Call} (hc : call ∈ s.tasks.calls) {t : Task}
    (hp : call.prog = .ret t) : t ∈ s.inserted := by
  obtain ⟨st, hcode, hf⟩ := hinv.tasks.calls call hc
  rw [hp] at hcode
  cases st with
  | saving => rw [Tasks.saving_code] at hcode; cases hcode
  | publishing saved => rw [Tasks.publishing_code] at hcode; cases hcode
  | racing saved pub => rw [Tasks.racing_code] at hcode; cases hcode
  | returned saved =>
    cases hcode
    exact List.mem_reverse.2 hf.2.1
  | threw err => cases hcode

/-- **A replica that has caught up shows what was created.** -/
theorem list_shows (hinv : Inv bcrypt s) (hr : s.replayed = s.inserted.length) {rows : List Task}
    (hs : step bcrypt s (.list rows) = some s') :
    ∃ page, s'.pages = page :: s.pages ∧
      ∀ call ∈ s.tasks.calls, ∀ t : Task, call.prog = .ret t → shown (load t) ∈ page := by
  cases step_cases hs with
  | list hrows =>
    refine ⟨_, rfl, fun call hc t hp => ?_⟩
    have ht : t ∈ s.replica := by
      rw [State.replica, hr, List.take_length]
      exact returned_inserted hinv hc hp
    exact List.mem_map_of_mem (hrows.mem_iff.2 ht)

end

/-- A page of the tasks of the first so many INSERTs, each once and as it was created. -/
structure Sound (s : State) (page : List Client.Task) : Prop where
  ids : (page.map (·.id)).Nodup
  inserted : ∃ n ≤ s.inserted.length, page.Perm (s.page n)
  created : ∀ x ∈ page, ∃ call ∈ s.tasks.calls, ∃ t : Task, call.answer = some (.ok t) ∧
    x = ⟨t.id.toText, toWellFormed call.title, false, t.createdAt.toISOString⟩

/-- **What the frontend is shown.**  After every run each page is sound; while the replica does not go
    back, each page has what the earlier ones had; and with all INSERTs replayed, the next page has the
    task of every call of `create` that returned. -/
theorem pages_sound (bcrypt : Accounts.Bcrypt) (id : Uuid) {as : List Action} {s : State}
    (h : run bcrypt (init id) as = some s) :
    (∀ page ∈ s.pages, Sound s page) ∧
      (Along (step bcrypt) Forward (init id) as →
        s.pages.Pairwise fun later earlier => ∀ x ∈ earlier, x ∈ later) ∧
      (s.replayed = s.inserted.length → ∀ rows s', step bcrypt s (.list rows) = some s' →
        ∃ page, s'.pages = page :: s.pages ∧
          ∀ call ∈ s.tasks.calls, ∀ t : Task, call.prog = .ret t → shown (load t) ∈ page) := by
  have hinv := run_inv h
  refine ⟨fun page hp => ?_, fun hf => ?_, fun hr rows s' hs => list_shows hinv hr hs⟩
  · obtain ⟨ns, hns⟩ := run_paged h
    obtain ⟨n, hn, hperm⟩ := hns.exists_page hp
    refine ⟨(hperm.map _).nodup_iff.2 (page_ids hinv n), ⟨n, hn, hperm⟩, fun x hx => ?_⟩
    exact page_created hinv (hperm.mem_iff.1 hx)
  · obtain ⟨ns, hns, hsorted⟩ := run_forward h hf
    exact hns.pairwise hsorted

instance (s : State) (a : Action) : Decidable (Forward s a) := by
  cases a <;> unfold Forward <;> infer_instance

/-- The page before the task of `alice` is replayed has nothing that the page after it lacks. -/
theorem pages_sound_alice : ∃ s page,
    run Accounts.sampleBcrypt (init (Uuid.ofNat 1)) (.list [] :: sampleRun) = some s ∧
      s.pages = [page, []] ∧ page.length = 1 ∧ Sound s page ∧
      s.pages.Pairwise fun later earlier => ∀ x ∈ earlier, x ∈ later := by
  have hrun : (run Accounts.sampleBcrypt (init (Uuid.ofNat 1)) (.list [] :: sampleRun)).map (·.pages) =
      some [[shown (load sampleTask)], []] := by decide +kernel
  have hf : Along (step Accounts.sampleBcrypt) Forward (init (Uuid.ofNat 1)) (.list [] :: sampleRun) := by
    decide +kernel
  obtain ⟨s, h, hs⟩ := Option.map_eq_some_iff.1 hrun
  obtain ⟨hsound, hkept, -⟩ := pages_sound Accounts.sampleBcrypt (Uuid.ofNat 1) h
  exact ⟨s, _, h, hs, rfl, hsound _ (hs ▸ List.mem_cons_self), hkept hf⟩

end SystemDesign.Site
