/-
  Who created the tasks.

  `Inv` ties each call of `create` to its request, and the request to the login whose token it had.
  `task_posted`: behind every task in the database is a user who had logged in with the right password
  less than an hour before.
-/
import SystemDesign.Site.System

namespace SystemDesign.Site

open Lib

/-- The request came with a token that was valid, and that login returned for the right password. -/
structure Posted (bcrypt : Accounts.Bcrypt) (accounts : Accounts.State) (post : Post) : Prop where
  issued : post.token.iat ≤ post.time
  valid : post.time < post.token.iat + Accounts.expiresIn
  past : post.time ≤ accounts.now
  login : Accounts.Signed bcrypt accounts post.token

/-- The invariant of the site. -/
structure Inv (bcrypt : Accounts.Bcrypt) (s : State) : Prop where
  tasks : Tasks.Inv s.tasks
  signed : Accounts.AllSigned bcrypt s.accounts
  posts : s.posts.length = s.tasks.calls.length
  posted : ∀ post ∈ s.posts, Posted bcrypt s.accounts post
  titles : ∀ title ∈ s.tasks.calls.map (·.title), title ≠ []
  saved : ∀ x ∈ s.tasks.tasks, ∃ (i : ℕ) (call : Tasks.Call), s.tasks.calls[i]? = some call ∧
    call.answer = some (.ok x) ∧ x.title = call.title ∧ x.completed = false

section
variable {bcrypt : Accounts.Bcrypt} {s s' : State}

theorem inv_init (id : Uuid) : Inv bcrypt (init id) where
  tasks := Tasks.inv_init
  signed call hc := by cases hc
  posts := rfl
  posted post hp := by cases hp
  titles title ht := by cases ht
  saved x hx := by cases hx

theorem Posted.step {accounts accounts' : Accounts.State} {a : Accounts.Action} {post : Post}
    (hs : Accounts.AllSigned bcrypt accounts) (h : Posted bcrypt accounts post)
    (ha : Accounts.step bcrypt accounts a = some accounts') : Posted bcrypt accounts' post := by
  obtain ⟨-, hon⟩ := Accounts.step_signed hs ha
  exact ⟨h.issued, h.valid, h.past.trans hon.now, h.login.step hs ha⟩

/-- **A request that passes the guard.** -/
theorem posted_of_authenticates (hs : Accounts.AllSigned bcrypt s.accounts) {tok : Accounts.Token}
    (ha : s.authenticates tok = true) : Posted bcrypt s.accounts ⟨tok, s.accounts.now⟩ := by
  obtain ⟨hadm, -⟩ := Bool.and_eq_true_iff.1 ha
  obtain ⟨hexp, hlogin⟩ := hs.admitted hadm
  exact ⟨hlogin.iat_le, hexp, le_rfl, hlogin⟩

/-- A step of the write path that begins calls with these titles. -/
theorem Inv.grow (h : Inv bcrypt s) {a : Tasks.Action} {tasks : Tasks.State} {posts : List Post}
    (ha : Tasks.step s.tasks a = some tasks) (hlen : posts.length = (newTitles a).length)
    (hposts : ∀ post ∈ posts, Posted bcrypt s.accounts post) (hnew : ∀ title ∈ newTitles a, title ≠ []) :
    Inv bcrypt { s with tasks := tasks, posts := s.posts ++ posts } := by
  obtain ⟨⟨added, htasks, hadded⟩, htitles, hanswers⟩ := step_grown h.tasks ha
  have hcalls := congrArg List.length htitles
  simp only [List.length_map, List.length_append] at hcalls
  refine ⟨Tasks.step_inv h.tasks ha, h.signed, ?_, ?_, ?_, ?_⟩
  · have hposts := h.posts
    simp only [List.length_append]
    omega
  · intro post hp
    rcases List.mem_append.1 hp with hp | hp
    · exact h.posted post hp
    · exact hposts post hp
  · intro title ht
    rw [htitles] at ht
    rcases List.mem_append.1 ht with ht | ht
    · exact h.titles title ht
    · exact hnew title ht
  · intro x hx
    dsimp only at hx
    rw [htasks] at hx
    rcases List.mem_append.1 hx with hx | hx
    · exact hadded x hx
    · obtain ⟨i, call, hi, hans, htitle, hcompleted⟩ := h.saved x hx
      obtain ⟨call', hi', hans', htitle'⟩ := hanswers i call x hi hans
      exact ⟨i, call', hi', hans', htitle.trans htitle'.symm, hcompleted⟩

theorem step_inv {a : Action} (h : Inv bcrypt s) (hs : step bcrypt s a = some s') : Inv bcrypt s' := by
  cases step_cases hs with
  | @accounts a accounts ha =>
    have hposted := fun post hp => (h.posted post hp).step h.signed ha
    exact ⟨h.tasks, (Accounts.step_signed h.signed ha).1, h.posts, hposted, h.titles, h.saved⟩
  | @post inst tok body dto tasks hauth hb ha =>
    refine h.grow ha rfl ?_ ?_
    · intro post hp
      rw [List.mem_singleton.1 hp]
      exact posted_of_authenticates h.signed hauth
    · intro title ht
      rw [List.mem_singleton.1 ht]
      exact dto.title_ne
  | @tasks a tasks hallows ha =>
    have hnew : newTitles a = [] := by
      cases a with
      | post => cases hallows
      | _ => rfl
    have hgrow : Inv bcrypt { s with tasks := tasks, posts := s.posts ++ [] } :=
      h.grow ha (by rw [hnew]; rfl) (List.forall_mem_nil _) (by rw [hnew]; exact List.forall_mem_nil _)
    rwa [List.append_nil] at hgrow
  | replay | list => exact ⟨h.tasks, h.signed, h.posts, h.posted, h.titles, h.saved⟩

theorem run_inv {id : Uuid} {as : List Action} (h : run bcrypt (init id) as = some s) : Inv bcrypt s :=
  exec_inv (I := Inv bcrypt) (fun _ _ _ hi ha => step_inv hi ha) (inv_init id) h

end

/-- **Every task was posted by a user.**  After every run: each task in the database was saved by a call of
    `create` whose request had a title and came within an hour after its token was issued; and some
    login returned this token, for a user of the name whose password it was given. -/
theorem task_posted (bcrypt : Accounts.Bcrypt) (id : Uuid) {as : List Action} {s : State}
    (h : run bcrypt (init id) as = some s) {t : Task} (ht : t ∈ s.tasks.tasks) :
    ∃ (i : ℕ) (call : Tasks.Call) (post : Post), s.tasks.calls[i]? = some call ∧
      call.answer = some (.ok t) ∧ t.title = call.title ∧ t.title ≠ [] ∧ s.posts[i]? = some post ∧
      Posted bcrypt s.accounts post := by
  have hinv := run_inv h
  obtain ⟨i, call, hi, hans, htitle, -⟩ := hinv.saved t ht
  have hlt : i < s.posts.length := hinv.posts ▸ (List.getElem?_eq_some_iff.1 hi).1
  have hne := hinv.titles call.title (List.mem_map_of_mem (List.mem_of_getElem? hi))
  exact ⟨i, call, s.posts[i], hi, hans, htitle, htitle ▸ hne, List.getElem?_eq_getElem hlt,
    hinv.posted _ (List.getElem_mem hlt)⟩

/-! ## A task of `alice` -/

def sampleToken : Accounts.Token := ⟨(Uuid.ofNat 2).toText, js "alice", (Uuid.ofNat 1).toText, 0⟩

/-- `{"title":"Write tests"}` -/
def samplePost : Bytes := toUtf8 (Json.stringifyObject [(js "title", js "Write tests")])

def sampleTask : Task := ⟨Uuid.ofNat 9, js "Write tests", false, sampleEvent.timestamp⟩

/-- `alice` is created and logs in, posts a task, and it is listed from the replica. -/
def sampleRun : List Action :=
  [.accounts (.start (.createUser (Uuid.ofNat 1).toText (js "alice") (js "pw1"))),
    .accounts (.step 0 (Accounts.sampleChoice 2)), .accounts (.step 0 (Accounts.sampleChoice 2)),
    .accounts (.start (.login (js "alice") (js "pw1"))), .accounts (.step 1 (Accounts.sampleChoice 3)),
    .accounts (.step 1 (Accounts.sampleChoice 3)), .accounts (.step 1 (Accounts.sampleChoice 3)),
    .post 0 sampleToken samplePost, .tasks (.commit 0 sampleTask.id sampleTask.createdAt), .replay 1,
    .list [sampleTask]]

theorem task_posted_alice : ∃ s, run Accounts.sampleBcrypt (init (Uuid.ofNat 1)) sampleRun = some s ∧
    ∃ post ∈ s.posts, Posted Accounts.sampleBcrypt s.accounts post := by
  have hrun : (run Accounts.sampleBcrypt (init (Uuid.ofNat 1)) sampleRun).map (fun s => s.tasks.tasks) =
      some [sampleTask] := by decide +kernel
  obtain ⟨s, h, hs⟩ := Option.map_eq_some_iff.1 hrun
  have ht : sampleTask ∈ s.tasks.tasks := hs ▸ List.mem_cons_self
  obtain ⟨i, call, post, -, -, -, -, hpost, hposted⟩ := task_posted Accounts.sampleBcrypt (Uuid.ofNat 1) h ht
  exact ⟨s, h, post, List.mem_of_getElem? hpost, hposted⟩

end SystemDesign.Site
