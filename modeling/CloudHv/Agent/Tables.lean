import CloudHv.Agent.Methods
import CloudHv.Agent.Server

/-!
# Tables — the tables a container's life is written in

The manager keeps three maps by container id, crun has a table of its own by the same ids, and the
children and their watch channels are known by pid.  `Effect` says once what each action of the agent
can do to these tables; what the agent keeps of them over whole runs is derived from it.

`adopt` renames a container in the manager's maps only: crun goes on to know it under the id that was
given to `crun run`.  A signal for the new id is lost in silence, because `kill` takes an id that crun
does not know for a container that has exited.
-/

namespace CloudHv.Agent

open Conc

structure Tables where
  containers : Finmap (fun _ : String => Container)
  receivers : Finmap (fun _ : String => ℕ)
  logs : Finmap (fun _ : String => ℕ)
  crun : Finmap (fun _ : String => ℕ)
  procs : Finmap (fun _ : ℕ => ProcState)
  published : Finmap (fun _ : ℕ => ExitStatus)

def Guest.tables (g : Guest) : Tables :=
  ⟨g.mgr.containers, g.mgr.exitReceivers, g.mgr.logs, g.crun, g.procs, g.published⟩

namespace Tables

/-- A pid that a child can get. -/
def Fresh (t : Tables) (p : ℕ) : Prop := p ∉ t.procs ∧ p ≠ agentPid

/-- The child that crun resolves an id to. -/
def resolves (t : Tables) (id : String) : Option ℕ :=
  match t.crun.lookup id with
  | some pid => if t.procs.lookup pid = some .running then some pid else none
  | none => none

def created (t : Tables) (id : String) : Tables :=
  { t with containers := t.containers.insert id ⟨some agentPid, none, .created⟩ }

/-- The record `c` of `id` gets the child `p`. -/
def started (t : Tables) (id : String) (c : Container) (p : ℕ) : Tables :=
  { t with
    containers := t.containers.insert id { c with state := .running, pid := some p }
    receivers := t.receivers.insert id p
    logs := t.logs.insert id p
    crun := match t.resolves id with
      | some _ => t.crun
      | none => t.crun.insert id p
    procs := t.procs.insert p .running }

def deleted (t : Tables) (id : String) : Tables :=
  { t with containers := t.containers.erase id, crun := t.crun.erase id }

def dropped (t : Tables) (o : String) : Tables := { t with containers := t.containers.erase o }

def adopted (t : Tables) (o n : String) (c : Container) : Tables :=
  { t with
    containers := (t.containers.erase o).insert n c
    receivers := moveKey t.receivers o n
    logs := moveKey t.logs o n }

def marked (t : Tables) (id : String) (c : Container) (code : ℤ) : Tables :=
  { t with containers := t.containers.insert id { c with state := .stopped, exitCode := some code } }

def exited (t : Tables) (p : ℕ) (code : ℤ) : Tables := { t with procs := t.procs.insert p (.exited code) }

def sent (t : Tables) (p : ℕ) (st : ExitStatus) : Tables := { t with published := t.published.insert p st }

end Tables

theorem tables_of_core {g g' : Guest} (h : g'.core = g.core) : g'.tables = g.tables := by
  simp only [Guest.core, Prod.mk.injEq] at h
  obtain ⟨hc, hr, hl, hp, hpub, -, hcr, -⟩ := h
  simp only [Guest.tables, hc, hr, hl, hp, hpub, hcr]

/-- What an action with a given answer can do to the tables. -/
inductive Effect (t : Tables) : (a : Action) → Answer a → Tables → Prop
  | none {a : Action} {r : Answer a} : Effect t a r t
  | create {req : CreateRequest} {r : Except Err ℕ} : Effect t (.create req) r (t.created req.containerId)
  /-- `run` has created the container and could not start it. -/
  | runHalf {req : CreateRequest} {e : Err} : Effect t (.run req) (.error e) (t.created req.containerId)
  | run {req : CreateRequest} {p : ℕ} : t.Fresh p → Effect t (.run req) (.ok p)
      ((t.created req.containerId).started req.containerId ⟨some agentPid, Option.none, .created⟩ p)
  | start {id : String} {c : Container} {p : ℕ} : t.containers.lookup id = some c → t.Fresh p →
      Effect t (.start id) (.ok p) (t.started id c p)
  | delete {id : String} {r : Except Err (ℕ × ℤ)} : Effect t (.delete id) r (t.deleted id)
  | drop {o n : String} {c : Container} {r : Except Err ℕ} : t.containers.lookup o = some c →
      c.pid = Option.none → Effect t (.adopt o n) r (t.dropped o)
  | adopt {o n : String} {c : Container} {p : ℕ} : t.containers.lookup o = some c → c.pid = some p →
      Effect t (.adopt o n) (.ok p) (t.adopted o n c)
  | mark {id : String} {c : Container} {code : ℤ} : t.containers.lookup id = some c →
      Effect t (.markStopped id code) () (t.marked id c code)
  | exit {p : ℕ} {code : ℤ} : t.procs.lookup p = some .running →
      Effect t (.procExit p code) () (t.exited p code)
  | send {p : ℕ} {st : ExitStatus} : Effect t (.send p st) () (t.sent p st)

theorem tables_started {g : Guest} {id : String} {c : Container} (p : ℕ)
    (hc : g.mgr.containers.lookup id = some c) :
    ((g.spawnChild id p).recordStart id p).tables = g.tables.started id c p := by
  simp only [Guest.recordStart, Guest.spawnChild, Guest.tables, Tables.started, hc]
  rfl

theorem create_effect {io : Io} {req : CreateRequest} {g g' : Guest} {r : Except Err ℕ}
    (h : Method.exec (create io req) g = (r, g')) :
    (∃ e, r = .error e ∧ g'.tables = g.tables) ∨
      (∃ p, r = .ok p) ∧ g'.tables = g.tables.created req.containerId ∧
        g'.mgr.containers.lookup req.containerId = some ⟨some agentPid, none, .created⟩ := by
  rcases create_spec h with ⟨e, rfl, hc⟩ | ⟨rfl, g₁, hc, rfl⟩
  · exact .inl ⟨e, rfl, tables_of_core hc⟩
  · refine .inr ⟨⟨_, rfl⟩, ?_, Finmap.lookup_insert _⟩
    rw [← tables_of_core hc]
    rfl

theorem start_effect {io : Io} {id : String} {g g' : Guest} {r : Except Err ℕ}
    (hf : g.tables.Fresh io.pid) (h : Method.exec (start io id) g = (r, g')) :
    Effect g.tables (.start id) r g'.tables := by
  rcases start_spec h with ⟨e, -, rfl⟩ | ⟨rfl, hid, rfl⟩
  · exact .none
  · obtain ⟨c, hc⟩ := Finmap.mem_iff.mp hid
    rw [tables_started _ hc]
    exact .start hc hf

theorem run_effect {io : Io} {req : CreateRequest} {g g' : Guest} {r : Except Err ℕ}
    (hf : g.tables.Fresh io.pid) (h : Method.exec (run io req) g = (r, g')) :
    Effect g.tables (.run req) r g'.tables := by
  rcases run_cases h with ⟨e, he, rfl⟩ | ⟨p, g₁, h₁, h₂⟩
  · rcases create_effect he with ⟨e', -, ht⟩ | ⟨⟨p, hp⟩, -⟩
    · rw [ht]
      exact .none
    · cases hp
  · rcases create_effect h₁ with ⟨e', he, -⟩ | ⟨-, ht, hc⟩
    · cases he
    · rcases start_spec h₂ with ⟨e, rfl, rfl⟩ | ⟨rfl, -, rfl⟩
      · rw [ht]
        exact .runHalf
      · rw [tables_started _ hc, ht]
        exact .run hf

/-- **What an action can do to the tables.** -/
theorem tables_step {g g' : Guest} {a : Action} {c : Choice} {r : Answer a}
    (hp : perform g a c = some (r, g')) : Effect g.tables a r g'.tables := by
  cases a with
  | create req =>
    rcases create_effect (Option.some.inj hp) with ⟨e, -, ht⟩ | ⟨-, ht, -⟩
    · rw [ht]
      exact .none
    · rw [ht]
      exact .create
  | start id =>
    obtain ⟨hf, hne, he⟩ := execSpawn_some hp
    exact start_effect ⟨hf, hne⟩ he
  | run req =>
    obtain ⟨hf, hne, he⟩ := execSpawn_some hp
    exact run_effect ⟨hf, hne⟩ he
  | kill id sig =>
    obtain rfl := (kill_spec (Option.some.inj hp)).1
    exact .none
  | delete id =>
    rcases delete_cases (Option.some.inj hp) with ⟨e, -, rfl⟩ | ⟨-, rfl⟩
    · exact .none
    · exact .delete
  | adopt o n =>
    rcases adopt_cases (Option.some.inj hp) with ⟨-, -, rfl⟩ | ⟨c, hc, ⟨hn, -, rfl⟩ | ⟨p, hs, rfl, rfl⟩⟩
    · exact .none
    · exact .drop hc hn
    · exact .adopt hc hs
  | markStopped id code =>
    obtain ⟨rfl, rfl⟩ := Prod.mk.inj (Option.some.inj hp)
    unfold Guest.markStopped
    split
    · next c hc => exact .mark hc
    · exact .none
  | procExit p code =>
    simp only [perform] at hp
    split at hp
    · next hrun =>
      obtain ⟨rfl, rfl⟩ := Prod.mk.inj (Option.some.inj hp)
      exact .exit hrun
    · cases hp
  | select rx =>
    simp only [perform] at hp
    split at hp
    · obtain ⟨rfl, rfl⟩ := Prod.mk.inj (Option.some.inj hp)
      exact .none
    · cases hp
  | waitForExit pid =>
    simp only [perform] at hp
    split at hp
    · obtain ⟨rfl, rfl⟩ := Prod.mk.inj (Option.some.inj hp)
      exact .none
    · cases hp
  | capture buf s =>
    simp only [perform] at hp
    split at hp
    · obtain ⟨rfl, rfl⟩ := Prod.mk.inj (Option.some.inj hp)
      unfold Guest.append
      split <;> exact .none
    · obtain ⟨rfl, rfl⟩ := Prod.mk.inj (Option.some.inj hp)
      exact .none
  | setEof buf =>
    obtain ⟨rfl, rfl⟩ := Prod.mk.inj (Option.some.inj hp)
    unfold Guest.setEof
    split <;> exact .none
  | send p st =>
    obtain ⟨rfl, rfl⟩ := Prod.mk.inj (Option.some.inj hp)
    exact .send
  | state _ | getExitReceiver _ | borrow _ | utcNow | getLogBuffer _ | readLogs _ | respond _
  | dropSender _ =>
    obtain ⟨rfl, rfl⟩ := Prod.mk.inj (Option.some.inj hp)
    exact .none

/-! ### What a task can do -/

def Response.isLogs : Response → Bool
  | .logs _ _ _ _ => true
  | _ => false

/-- The actions of a task's program. -/
def TaskName.acts : TaskName → Action → Bool
  | .createContainer req, .create req' | .runContainer req, .run req' => req = req'
  | .startContainer id, .start id' | .deleteContainer id, .delete id' | .stateContainer id, .state id' => id = id'
  | .killContainer id sig, .kill id' sig' => id = id' ∧ sig = sig'
  | .adoptContainer o n, .adopt o' n' => o = o' ∧ n = n'
  | .waitContainer id, .getExitReceiver id' | .waitContainer id, .markStopped id' _ => id = id'
  | .waitContainer _, .borrow _ | .waitContainer _, .select _ | .waitContainer _, .utcNow => true
  | .getContainerLogs id _, .getLogBuffer id' => id = id'
  | .getContainerLogs _ _, .readLogs _ | .getContainerLogs _ _, .respond _ => true
  | .exitTask p, .waitForExit q | .exitTask p, .send q _ | .exitTask p, .setEof q
  | .exitTask p, .dropSender q => p = q
  | .exitTask _, .utcNow => true
  | .reader p s, .capture q s' => p = q ∧ s = s'
  | .procExit p code, .procExit q code' => p = q ∧ code = code'
  | .exitTask _, .respond _ | .reader _ _, .respond _ | .procExit _ _, .respond _ => false
  | _, .respond resp => !resp.isLogs
  | _, _ => false

theorem body_acts (t : TaskName) : Only (fun a => t.acts a = true) t.body := by
  have hreply : ∀ {α : Type} {ok : α → Response} {what : String} {fmt : Err → String} (r : Except Err α)
      {P : Action → Prop}, (∀ x, P (.respond (ok x))) → (∀ msg, P (.respond (.error msg))) →
      Only P (reply ok what fmt r) := by
    intro α ok what fmt r P hok herr
    cases r with
    | ok x => exact ⟨hok x, fun _ => trivial⟩
    | error e => exact ⟨herr _, fun _ => trivial⟩
  cases t with
  | createContainer req => exact ⟨decide_eq_true rfl, fun r => hreply r (fun _ => rfl) fun _ => rfl⟩
  | startContainer id => exact ⟨decide_eq_true rfl, fun r => hreply r (fun _ => rfl) fun _ => rfl⟩
  | runContainer req => exact ⟨decide_eq_true rfl, fun r => hreply r (fun _ => rfl) fun _ => rfl⟩
  | killContainer id sig => exact ⟨decide_eq_true ⟨rfl, rfl⟩, fun r => hreply r (fun _ => rfl) fun _ => rfl⟩
  | deleteContainer id => exact ⟨decide_eq_true rfl, fun r => hreply r (fun _ => rfl) fun _ => rfl⟩
  | adoptContainer o n => exact ⟨decide_eq_true ⟨rfl, rfl⟩, fun r => hreply r (fun _ => rfl) fun _ => rfl⟩
  | stateContainer id => exact ⟨decide_eq_true rfl, fun _ => ⟨rfl, fun _ => trivial⟩⟩
  | waitContainer id =>
    refine ⟨decide_eq_true rfl, fun r => ?_⟩
    cases r with
    | none => exact ⟨rfl, fun _ => trivial⟩
    | some rx =>
      have hwait : Only (fun a => (TaskName.waitContainer id).acts a = true) (awaitExit rx) := by
        refine ⟨rfl, fun r => ?_⟩
        cases r with
        | some st => trivial
        | none =>
          refine ⟨rfl, fun w => ?_⟩
          cases w with
          | changed =>
            refine ⟨rfl, fun r' => ?_⟩
            cases r' with
            | some st => trivial
            | none => exact ⟨rfl, fun _ => trivial⟩
          | closed => exact ⟨rfl, fun _ => trivial⟩
          | timeout => exact ⟨rfl, fun _ => trivial⟩
      exact hwait.bind fun _ => ⟨decide_eq_true rfl, fun _ => ⟨rfl, fun _ => trivial⟩⟩
  | getContainerLogs id off =>
    refine ⟨decide_eq_true rfl, fun r => ?_⟩
    cases r with
    | none => exact ⟨rfl, fun _ => trivial⟩
    | some buf => exact ⟨rfl, fun _ => ⟨rfl, fun _ => trivial⟩⟩
  | exitTask pid =>
    exact ⟨decide_eq_true rfl, fun _ => ⟨rfl, fun _ => ⟨decide_eq_true rfl, fun _ => ⟨decide_eq_true rfl, fun _ =>
      ⟨decide_eq_true rfl, fun _ => trivial⟩⟩⟩⟩⟩
  | reader pid s => exact ⟨decide_eq_true ⟨rfl, rfl⟩, fun _ => trivial⟩
  | procExit pid code => exact ⟨decide_eq_true ⟨rfl, rfl⟩, fun _ => trivial⟩

/-- A task none of whose actions a discipline watches meets it. -/
theorem body_unwatched {γ : Type} {D : Discipline Action Answer γ} {g : γ} {fin : γ → Prop} (t : TaskName)
    (hD : ∀ a, t.acts a = true → D.req g a ∧ ∀ r, D.may g a r → D.upd g a r = g) (hfin : fin g) :
    wp D t.body (fun _ g' => fin g') g := (body_acts t).wp hD fun _ => hfin

/-! ### What holds in every run -/

/-- Every record has a pid: the agent's, or that of a child that no other record has.  crun has a child
under one id at most. -/
structure Tables.Sane (t : Tables) : Prop where
  agent : agentPid ∉ t.procs
  record : ∀ id c, t.containers.lookup id = some c → ∃ p, c.pid = some p ∧ (p = agentPid ∨ p ∈ t.procs)
  single : ∀ id id' c c' p, t.containers.lookup id = some c → t.containers.lookup id' = some c' →
    c.pid = some p → c'.pid = some p → p ∈ t.procs → id = id'
  known : ∀ id p, t.crun.lookup id = some p → p ∈ t.procs
  apart : ∀ id id' p, t.crun.lookup id = some p → t.crun.lookup id' = some p → id = id'

namespace Tables.Sane

variable {t : Tables}

/-- A table whose records are old ones under other names, or the agent's. -/
theorem of_records (h : t.Sane) {t' : Tables} (hp : ∀ p, p ∈ t'.procs ↔ p ∈ t.procs)
    (hcrun : ∀ id p, t'.crun.lookup id = some p → t.crun.lookup id = some p)
    (old : String → String) (hold : ∀ id c, t'.containers.lookup id = some c → c.pid = some agentPid ∨
      ∃ c', t.containers.lookup (old id) = some c' ∧ c.pid = c'.pid)
    (hinj : ∀ id id', id ∈ t'.containers → id' ∈ t'.containers → old id = old id' → id = id') : t'.Sane where
  agent := fun ha => h.agent ((hp _).mp ha)
  record := by
    intro id c hc
    rcases hold id c hc with ha | ⟨c', hc', he⟩
    · exact ⟨agentPid, ha, .inl rfl⟩
    · obtain ⟨p, hcp, hor⟩ := h.record _ c' hc'
      exact ⟨p, he.trans hcp, hor.imp_right (hp p).mpr⟩
  single := by
    intro id id' c c' p hc hc' hcp hcp' hin
    have hin' := (hp p).mp hin
    rcases hold id c hc with ha | ⟨d, hd, he⟩
    · rw [Option.some.inj (hcp.symm.trans ha)] at hin'
      exact absurd hin' h.agent
    · rcases hold id' c' hc' with ha | ⟨d', hd', he'⟩
      · rw [Option.some.inj (hcp'.symm.trans ha)] at hin'
        exact absurd hin' h.agent
      · exact hinj id id' (Finmap.mem_of_lookup hc) (Finmap.mem_of_lookup hc')
          (h.single _ _ d d' p hd hd' (he ▸ hcp) (he' ▸ hcp') hin')
  known := fun id p hc => (hp p).mpr (h.known id p (hcrun id p hc))
  apart := fun id id' p hc hc' => h.apart id id' p (hcrun id p hc) (hcrun id' p hc')

theorem created (h : t.Sane) (id : String) : (t.created id).Sane := by
  refine h.of_records (fun _ => .rfl) (fun _ _ hc => hc) (fun id => id) (fun id' c hc => ?_)
    (fun _ _ _ _ he => he)
  rw [Tables.created, Finmap.lookup_insert_eq] at hc
  split at hc
  · exact .inl (by rw [← Option.some.inj hc])
  · exact .inr ⟨c, hc, rfl⟩

/-- The new child is nobody else's. -/
theorem started (h : t.Sane) {id : String} {c : Container} {p : ℕ} (hf : t.Fresh p) :
    (t.started id c p).Sane := by
  have hmem : ∀ q, q ∈ (t.started id c p).procs ↔ q = p ∨ q ∈ t.procs := fun q => Finmap.mem_insert
  have hcrun : ∀ i q, (t.started id c p).crun.lookup i = some q → (i = id ∧ q = p) ∨ t.crun.lookup i = some q := by
    intro i q hi
    simp only [Tables.started] at hi
    split at hi
    · exact .inr hi
    · rw [Finmap.lookup_insert_eq] at hi
      split at hi
      · next he => exact .inl ⟨he, (Option.some.inj hi).symm⟩
      · exact .inr hi
  -- a record is the new one, or an old one with a pid other than the new child's
  have hrec : ∀ i d, (t.started id c p).containers.lookup i = some d → (i = id ∧ d.pid = some p) ∨
      (t.containers.lookup i = some d ∧ d.pid ≠ some p) := by
    intro i d hi
    simp only [Tables.started, Finmap.lookup_insert_eq] at hi
    split at hi
    · next he => exact .inl ⟨he, by rw [← Option.some.inj hi]⟩
    · refine .inr ⟨hi, fun hd => ?_⟩
      obtain ⟨q, hq, hor⟩ := h.record i d hi
      rw [hd] at hq
      rw [← Option.some.inj hq] at hor
      exact hor.elim hf.2 hf.1
  refine ⟨fun ha => ?_, fun i d hi => ?_, fun i i' d d' q hi hi' hd hd' hq => ?_, fun i q hi => ?_,
    fun i i' q hi hi' => ?_⟩
  · exact ((hmem _).mp ha).elim (fun he => hf.2 he.symm) h.agent
  · rcases hrec i d hi with ⟨-, hd⟩ | ⟨ho, -⟩
    · exact ⟨p, hd, .inr ((hmem p).mpr (.inl rfl))⟩
    · obtain ⟨q, hq, hor⟩ := h.record i d ho
      exact ⟨q, hq, hor.imp_right fun hin => (hmem q).mpr (.inr hin)⟩
  · rcases hrec i d hi with ⟨rfl, hn⟩ | ⟨ho, hn⟩
    · rcases hrec i' d' hi' with ⟨rfl, -⟩ | ⟨-, hn'⟩
      · rfl
      · exact absurd (hd'.trans (hd.symm.trans hn)) hn'
    · rcases hrec i' d' hi' with ⟨rfl, hn'⟩ | ⟨ho', -⟩
      · exact absurd (hd.trans (hd'.symm.trans hn')) hn
      · refine h.single i i' d d' q ho ho' hd hd' (((hmem q).mp hq).resolve_left fun he => ?_)
        exact hn (he ▸ hd)
  · rcases hcrun i q hi with ⟨-, rfl⟩ | ho
    · exact (hmem q).mpr (.inl rfl)
    · exact (hmem q).mpr (.inr (h.known i q ho))
  · rcases hcrun i q hi with ⟨rfl, rfl⟩ | ho
    · rcases hcrun i' q hi' with ⟨rfl, -⟩ | ho'
      · rfl
      · exact absurd (h.known i' q ho') hf.1
    · rcases hcrun i' q hi' with ⟨rfl, rfl⟩ | ho'
      · exact absurd (h.known i q ho) hf.1
      · exact h.apart i i' q ho ho'

theorem dropped (h : t.Sane) (o : String) : (t.dropped o).Sane := by
  refine h.of_records (fun _ => .rfl) (fun _ _ hc => hc) (fun id => id) (fun id c hc => ?_)
    (fun _ _ _ _ he => he)
  exact .inr ⟨c, (Finmap.lookup_of_erase hc).2, rfl⟩

theorem deleted (h : t.Sane) (id : String) : (t.deleted id).Sane := by
  refine h.of_records (fun _ => .rfl) (fun i p hc => ?_) (fun id => id) (fun i c hc => ?_)
    (fun _ _ _ _ he => he)
  · exact (Finmap.lookup_of_erase hc).2
  · exact .inr ⟨c, (Finmap.lookup_of_erase hc).2, rfl⟩

/-- The record that moved is under `n` only. -/
theorem adopted (h : t.Sane) {o n : String} {c : Container} (hc : t.containers.lookup o = some c) :
    (t.adopted o n c).Sane := by
  have hlook : ∀ i, (t.adopted o n c).containers.lookup i =
      if i = n then some c else if i = o then none else t.containers.lookup i := by
    intro i
    rw [Tables.adopted, Finmap.lookup_insert_eq, Finmap.lookup_erase_eq]
  refine h.of_records (fun _ => .rfl) (fun _ _ hc => hc) (fun i => if i = n then o else i)
    (fun i d hi => ?_) (fun i i' hi hi' he => ?_)
  · rw [hlook] at hi
    split at hi
    · next hin => exact .inr ⟨c, by rw [if_pos hin, hc], by rw [← Option.some.inj hi]⟩
    · next hin =>
      split at hi
      · cases hi
      · exact .inr ⟨d, by rw [if_neg hin, hi], rfl⟩
  · -- an id other than `n` that still has a record is not `o`
    have hno : ∀ j, j ∈ (t.adopted o n c).containers → j ≠ n → j ≠ o := by
      intro j hj hjn hjo
      obtain ⟨d, hd⟩ := Finmap.mem_iff.mp hj
      rw [hlook, if_neg hjn, if_pos hjo] at hd
      cases hd
    by_cases hin : i = n
    · by_cases hin' : i' = n
      · rw [hin, hin']
      · rw [if_pos hin, if_neg hin'] at he
        exact absurd he.symm (hno i' hi' hin')
    · by_cases hin' : i' = n
      · rw [if_neg hin, if_pos hin'] at he
        exact absurd he (hno i hi hin)
      · rwa [if_neg hin, if_neg hin'] at he

theorem marked (h : t.Sane) {id : String} {c : Container} {code : ℤ}
    (hc : t.containers.lookup id = some c) : (t.marked id c code).Sane := by
  refine h.of_records (fun _ => .rfl) (fun _ _ hc => hc) (fun id => id) (fun i d hi => ?_)
    (fun _ _ _ _ he => he)
  rw [Tables.marked, Finmap.lookup_insert_eq] at hi
  split at hi
  · next he => exact .inr ⟨c, he ▸ hc, by rw [← Option.some.inj hi]⟩
  · exact .inr ⟨d, hi, rfl⟩

theorem exited (h : t.Sane) {p : ℕ} {code : ℤ} (hp : t.procs.lookup p = some .running) :
    (t.exited p code).Sane := by
  refine h.of_records (fun q => ?_) (fun _ _ hc => hc) (fun id => id) (fun _ c hc => .inr ⟨c, hc, rfl⟩)
    (fun _ _ _ _ he => he)
  rw [Tables.exited, Finmap.mem_insert]
  exact ⟨fun hq => hq.elim (fun he => he ▸ Finmap.mem_of_lookup hp) id, .inr⟩

theorem effect (h : t.Sane) {a : Action} {r : Answer a} {t' : Tables} (he : Effect t a r t') : t'.Sane := by
  cases he with
  | none => exact h
  | create => exact h.created _
  | runHalf => exact h.created _
  | run hf => exact (h.created _).started hf
  | start hc hf => exact h.started hf
  | delete => exact h.deleted _
  | drop hc hn => exact h.dropped _
  | adopt hc hp => exact h.adopted hc
  | mark hc => exact h.marked hc
  | exit hp => exact h.exited hp
  | send => exact ⟨h.agent, h.record, h.single, h.known, h.apart⟩

end Tables.Sane

/-- The children that there are stay. -/
theorem Effect.procs_mono {t t' : Tables} {a : Action} {r : Answer a} (he : Effect t a r t') {p : ℕ}
    (hp : p ∈ t.procs) : p ∈ t'.procs := by
  cases he with
  | run hf => exact Finmap.mem_insert.mpr (.inr hp)
  | start hc hf => exact Finmap.mem_insert.mpr (.inr hp)
  | exit hr => exact Finmap.mem_insert.mpr (.inr hp)
  | _ => exact hp

/-- A code is published by sending it. -/
theorem Effect.published_cases {t t' : Tables} {a : Action} {r : Answer a} (he : Effect t a r t') :
    (∃ p st, a = .send p st ∧ t'.published = t.published.insert p st) ∨ t'.published = t.published := by
  cases he with
  | send => exact .inl ⟨_, _, rfl, rfl⟩
  | _ => exact .inr rfl

/-- The tables of the agent are sane in every run. -/
theorem tables_sane {ok : AgentConf → Event Action Answer TaskName → Prop} {disks : List Disk} {x : AgentConf}
    (h : agent.Reach ok (booted disks) x) : x.shared.tables.Sane := by
  refine System.Reach.shared (fun g => g.tables.Sane) ?_
    (fun _ _ _ _ _ _ hs hp _ => hs.effect (tables_step hp)) h
  refine ⟨Finmap.notMem_empty, fun id c hc => ?_, fun id _ c _ _ hc => ?_, fun id p hc => ?_,
    fun id _ p hc => ?_⟩
  all_goals
    simp only [booted, Guest.boot, Guest.tables, Finmap.lookup_empty] at hc
    cases hc

/-! ### Signals for a container that was adopted -/

/-- `g'` is `g` after one or more successful `adopt`s, the first of `o`, each further one of the id
before, the last to `n`. -/
inductive Adoptions (g : Guest) (o : String) : String → Guest → Prop
  | one {n : String} {p : ℕ} {g' : Guest} : Method.exec (adopt o n) g = (.ok p, g') → Adoptions g o n g'
  | more {m n : String} {p : ℕ} {g₁ g' : Guest} : Adoptions g o m g₁ →
      Method.exec (adopt m n) g₁ = (.ok p, g') → Adoptions g o n g'

/-- Adoptions leave crun's table and the children alone, and the record is under the last id. -/
theorem Adoptions.frame {g g' : Guest} {o n : String} {c : Container} (h : Adoptions g o n g')
    (hc : g.mgr.containers.lookup o = some c) :
    g'.crun = g.crun ∧ g'.procs = g.procs ∧ g'.mgr.containers.lookup n = some c := by
  have hone : ∀ {m k : String} {p : ℕ} {g₁ g₂ : Guest}, Method.exec (adopt m k) g₁ = (.ok p, g₂) →
      g₁.mgr.containers.lookup m = some c →
      g₂.crun = g₁.crun ∧ g₂.procs = g₁.procs ∧ g₂.mgr.containers.lookup k = some c := by
    intro m k p g₁ g₂ ha hm
    rcases adopt_cases ha with ⟨hn, -, -⟩ | ⟨d, hd, ⟨-, ⟨e, he⟩, -⟩ | ⟨q, -, -, rfl⟩⟩
    · rw [hm] at hn
      cases hn
    · cases he
    · obtain rfl := Option.some.inj (hm.symm.trans hd)
      exact ⟨rfl, rfl, Finmap.lookup_insert _⟩
  induction h with
  | one ha => exact hone ha hc
  | more _ ha ih =>
    obtain ⟨hcr, hpr, hl⟩ := ih
    obtain ⟨hcr', hpr', hl'⟩ := hone ha hl
    exact ⟨hcr'.trans hcr, hpr'.trans hpr, hl'⟩

theorem adopt_ok {g : Guest} {o : String} {c : Container} {p : ℕ}
    (hc : g.mgr.containers.lookup o = some c) (hp : c.pid = some p) (n : String) :
    Method.exec (adopt o n) g = (.ok p, g.adopted o n c) := by
  simp only [adopt, Method.exec_bind, Method.exec_get, hc, Method.exec_set, hp, Method.exec_modify,
    Method.exec_pure]
  rfl

end CloudHv.Agent
