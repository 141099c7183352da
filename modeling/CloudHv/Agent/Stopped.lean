import CloudHv.Agent.Methods
import CloudHv.Agent.Server

/-!
# Stopped — when a stopped record is the truth about its container

`wait_container` marks a container stopped after it let the manager's lock go, under the id it was
called with.  A record that says `Stopped` with a code is meant to say that the container's own
process has exited with that code.  The agent keeps this as long as no `wait_container` runs into its
timeout, which makes up a code, and the record it marks is the one whose receiver it waited on; a
signal is lost as well when it goes to a running container that crun does not know under the id, as
after `adopt`.  The proof follows the exit code from the process through the exit task, the watch
channel and the waiting call to the record.
-/

namespace CloudHv.Agent

open Conc

/-! ### Records and processes -/

/-- If the record says stopped, it has the code that its own process has exited with. -/
def Container.OwnExit (c : Container) (procs : Finmap (fun _ : ℕ => ProcState)) : Prop :=
  c.state = .stopped → ∃ p code, c.pid = some p ∧ c.exitCode = some code ∧
    procs.lookup p = some (.exited code)

/-- Every stopped record of the manager is the truth about its container. -/
def Guest.StoppedOwn (g : Guest) : Prop :=
  ∀ id c, g.mgr.containers.lookup id = some c → c.OwnExit g.procs

/-- The channels carry the exit codes of their processes, and close after they did. -/
def Guest.ChannelsOwn (g : Guest) : Prop :=
  (∀ p st, g.published.lookup p = some st → g.procs.lookup p = some (.exited st.code)) ∧
    ∀ p ∈ g.closed, (g.published.lookup p).isSome

/-- Processes that have exited stay so, and a published code stays published. -/
def Guest.Grows (g g' : Guest) : Prop :=
  (∀ p code, g.procs.lookup p = some (.exited code) → g'.procs.lookup p = some (.exited code)) ∧
    ∀ p, (g.published.lookup p).isSome → (g'.published.lookup p).isSome

theorem ownExit_mono {c : Container} {g g' : Guest} (h : c.OwnExit g.procs) (hg : g.Grows g') :
    c.OwnExit g'.procs := by
  intro hs
  obtain ⟨p, code, hp, hc, he⟩ := h hs
  exact ⟨p, code, hp, hc, hg.1 p code he⟩

/-- What the manager's methods do to processes and channels, and that they keep the records true. -/
def Guest.Calm (g g' : Guest) : Prop :=
  g.Grows g' ∧ g'.published = g.published ∧ g'.closed = g.closed ∧ (g.StoppedOwn → g'.StoppedOwn)

theorem Guest.Calm.channels {g g' : Guest} (h : g.Calm g') (hc : g.ChannelsOwn) : g'.ChannelsOwn := by
  obtain ⟨hg, hp, hcl, -⟩ := h
  refine ⟨fun p st hst => ?_, fun p hcp => ?_⟩
  · rw [hp] at hst
    exact hg.1 p _ (hc.1 p st hst)
  · rw [hcl] at hcp
    rw [hp]
    exact hc.2 p hcp

theorem Guest.Calm.trans {g g₁ g' : Guest} (h : g.Calm g₁) (h' : g₁.Calm g') : g.Calm g' :=
  ⟨⟨fun p c hp => h'.1.1 p c (h.1.1 p c hp), fun p hp => h'.1.2 p (h.1.2 p hp)⟩,
    h'.2.1.trans h.2.1, h'.2.2.1.trans h.2.2.1, fun hs => h'.2.2.2 (h.2.2.2 hs)⟩

/-- A change of the table alone is calm if every record it has is an old or a true one. -/
theorem calm_of_table {g g' : Guest} (hp : g'.procs = g.procs) (hpub : g'.published = g.published)
    (hcl : g'.closed = g.closed) (ht : ∀ id c, g'.mgr.containers.lookup id = some c →
      (∃ id', g.mgr.containers.lookup id' = some c) ∨ c.OwnExit g.procs) : g.Calm g' := by
  refine ⟨⟨fun p code h => by rw [hp]; exact h, fun p h => by rw [hpub]; exact h⟩, hpub, hcl,
    fun hs id c hc => ?_⟩
  rw [hp]
  rcases ht id c hc with ⟨id', h⟩ | h
  · exact hs id' c h
  · exact h

theorem calm_of_core {g g' : Guest} (h : g'.core = g.core) : g.Calm g' := by
  simp only [Guest.core, Prod.mk.injEq] at h
  obtain ⟨hc, -, -, hp, hpub, hcl, -, -⟩ := h
  exact calm_of_table hp hpub hcl fun id c hl => .inl ⟨id, by rwa [hc] at hl⟩

theorem Guest.Calm.refl (g : Guest) : g.Calm g := calm_of_core rfl

/-! ### The methods are calm -/

theorem create_calm {io : Io} {req : CreateRequest} {g g' : Guest} {r : Except Err ℕ}
    (h : Method.exec (create io req) g = (r, g')) : g.Calm g' ∧ g'.procs = g.procs := by
  rcases create_spec h with ⟨e, -, hc⟩ | ⟨-, g₁, hc, rfl⟩
  · exact ⟨calm_of_core hc, congrArg (·.2.2.2.1) hc⟩
  · refine ⟨(calm_of_core hc).trans (calm_of_table rfl rfl rfl fun id c hl => ?_),
      congrArg (·.2.2.2.1) hc⟩
    rw [Guest.withCreated, Finmap.lookup_insert_eq] at hl
    split at hl
    · obtain rfl := Option.some.inj hl
      exact .inr fun hs => by cases hs
    · exact .inl ⟨id, hl⟩

/-- Starting gives the record a new process and takes it out of `Stopped`. -/
theorem start_calm {io : Io} {id : String} {g g' : Guest} {r : Except Err ℕ} (hf : io.pid ∉ g.procs)
    (h : Method.exec (start io id) g = (r, g')) : g.Calm g' := by
  rcases start_spec h with ⟨e, -, rfl⟩ | ⟨-, -, rfl⟩
  · exact .refl g'
  · have hgrow : g.Grows ((g.spawnChild id io.pid).recordStart id io.pid) := by
      refine ⟨fun p code hp => ?_, fun p hp => hp⟩
      have hne : p ≠ io.pid := fun he => hf (he ▸ Finmap.mem_of_lookup hp)
      simp only [Guest.recordStart, Guest.spawnChild, Finmap.lookup_insert_eq, if_neg hne]
      exact hp
    refine ⟨hgrow, rfl, rfl, fun hs id' c hc => ?_⟩
    simp only [Guest.recordStart, Guest.spawnChild] at hc
    split at hc
    · rw [Finmap.lookup_insert_eq] at hc
      split at hc
      · obtain rfl := Option.some.inj hc
        exact fun hst => by cases hst
      · exact ownExit_mono (hs id' c hc) hgrow
    · exact ownExit_mono (hs id' c hc) hgrow

theorem run_calm {io : Io} {req : CreateRequest} {g g' : Guest} {r : Except Err ℕ}
    (hf : io.pid ∉ g.procs) (h : Method.exec (run io req) g = (r, g')) : g.Calm g' := by
  rcases run_cases h with ⟨e, he, -⟩ | ⟨p, g₁, h₁, h₂⟩
  · exact (create_calm he).1
  · obtain ⟨hc, hp⟩ := create_calm h₁
    exact hc.trans (start_calm (hp ▸ hf) h₂)

theorem delete_calm {io : Io} {id : String} {g g' : Guest} {r : Except Err (ℕ × ℤ)}
    (h : Method.exec (delete io id) g = (r, g')) : g.Calm g' := by
  rcases delete_spec h with rfl | rfl
  · exact .refl g'
  · refine calm_of_table rfl rfl rfl fun id' c hc => ?_
    exact .inl ⟨id', (Finmap.lookup_of_erase hc).2⟩

theorem adopt_calm {o n : String} {g g' : Guest} {r : Except Err ℕ}
    (h : Method.exec (adopt o n) g = (r, g')) : g.Calm g' := by
  obtain ⟨⟨m, rfl⟩, ht⟩ := adopt_spec h
  refine calm_of_table rfl rfl rfl fun id c hc => ?_
  rcases ht with ht | ht | ⟨c', hc', ht⟩
  · exact .inl ⟨id, ht ▸ hc⟩
  · rw [ht] at hc
    exact .inl ⟨id, (Finmap.lookup_of_erase hc).2⟩
  · rw [ht, Finmap.lookup_insert_eq] at hc
    split at hc
    · exact .inl ⟨o, by rw [hc', Option.some.inj hc]⟩
    · exact .inl ⟨id, (Finmap.lookup_of_erase hc).2⟩

/-! ### What a task knows

`Stage` follows a task through its own actions: the receiver it took, the process it knows to have
exited, the channel it saw change and the one it has published on. -/

structure Stage where
  rx : Option ℕ
  exit : Option (ℕ × ℤ)
  woken : Option ℕ
  sent : Option ℕ

def Stage.init : Stage := ⟨none, none, none, none⟩

def Stage.upd (s : Stage) : (a : Action) → Answer a → Stage
  | .getExitReceiver _, r => { s with rx := r }
  | .borrow p, some st => { s with exit := some (p, st.code) }
  | .select p, .changed => { s with woken := some p }
  | .waitForExit p, code => { s with exit := some (p, code) }
  | .send p _, _ => { s with sent := some p }
  | _, _ => s

/-- The exit task publishes what it saw, and closes afterwards; a wait marks and reports the exit of
the process whose receiver it took. -/
def Stage.req (s : Stage) : Action → Prop
  | .markStopped _ code => ∃ p, s.rx = some p ∧ s.exit = some (p, code)
  | .respond (.waited status _) => ∃ p code, s.rx = some p ∧ s.exit = some (p, code) ∧ status = asU32 code
  | .send p st => s.exit = some (p, st.code)
  | .dropSender p => s.sent = some p
  | _ => True

def Stage.may (s : Stage) : (a : Action) → Answer a → Prop
  | .select _, w => w = .changed
  | .borrow p, r => s.woken = some p → r ≠ none
  | _, _ => True

def exitCodes : Discipline Action Answer Stage := ⟨Stage.upd, Stage.req, Stage.may⟩

/-- What a stage says about the guest. -/
def Stage.Holds (s : Stage) (g : Guest) : Prop :=
  (∀ p code, s.exit = some (p, code) → g.procs.lookup p = some (.exited code)) ∧
  (∀ p, s.woken = some p → (g.published.lookup p).isSome) ∧
  ∀ p, s.sent = some p → (g.published.lookup p).isSome

theorem Stage.Holds.mono {s : Stage} {g g' : Guest} (h : s.Holds g) (hg : g.Grows g') : s.Holds g' :=
  ⟨fun p c hp => hg.1 p c (h.1 p c hp), fun p hp => hg.2 p (h.2.1 p hp), fun p hp => hg.2 p (h.2.2 p hp)⟩

def ExitInv (g : Guest) (ss : List Stage) : Prop :=
  g.StoppedOwn ∧ g.ChannelsOwn ∧ ∀ s ∈ ss, s.Holds g

theorem awaitExit_wp {rx : ℕ} {s : Stage} {Q : ℤ × String → Stage → Prop} (hrx : s.rx = some rx)
    (hQ : ∀ s' code now, s'.rx = some rx → s'.exit = some (rx, code) → Q (code, now) s') :
    wp exitCodes (awaitExit rx) Q s := by
  refine ⟨trivial, fun r _ => ?_⟩
  cases r with
  | some st => exact hQ _ _ _ hrx rfl
  | none =>
    refine ⟨trivial, fun w hw => ?_⟩
    obtain rfl : w = .changed := hw
    refine ⟨trivial, fun r' hr' => ?_⟩
    cases r' with
    | some st => exact hQ _ _ _ hrx rfl
    | none => exact absurd rfl (hr' rfl)

/-- Every task of the agent keeps to the discipline. -/
theorem body_wp (t : TaskName) : wp exitCodes t.body (fun _ _ => True) Stage.init := by
  have hreply : ∀ {α : Type} {ok : α → Response} {what : String} {fmt : Err → String}
      {s : Stage} (r : Except Err α), (∀ x st at', ok x ≠ .waited st at') →
      wp exitCodes (reply ok what fmt r) (fun _ _ => True) s := by
    intro α ok what fmt s r hok
    cases r with
    | error e => exact ⟨trivial, fun _ _ => trivial⟩
    | ok x =>
      refine ⟨?_, fun _ _ => trivial⟩
      show Stage.req s (.respond (ok x))
      cases hx : ok x <;> first | trivial | exact absurd hx (hok x _ _)
  cases t with
  | waitContainer id =>
    refine ⟨trivial, fun r _ => ?_⟩
    cases r with
    | none => exact ⟨trivial, fun _ _ => trivial⟩
    | some rx =>
      refine (wp_bind (p := awaitExit rx)).mpr (awaitExit_wp rfl fun s' code now hrx hex => ?_)
      exact ⟨⟨rx, hrx, hex⟩, fun _ _ => ⟨⟨rx, code, hrx, hex, rfl⟩, fun _ _ => trivial⟩⟩
  | exitTask pid =>
    exact ⟨trivial, fun _ _ => ⟨trivial, fun _ _ => ⟨rfl, fun _ _ => ⟨trivial, fun _ _ =>
      ⟨rfl, fun _ _ => trivial⟩⟩⟩⟩⟩
  | getContainerLogs id off =>
    refine ⟨trivial, fun r _ => ?_⟩
    cases r with
    | none => exact ⟨trivial, fun _ _ => trivial⟩
    | some buf => exact ⟨trivial, fun _ _ => ⟨trivial, fun _ _ => trivial⟩⟩
  | stateContainer id => exact ⟨trivial, fun _ _ => ⟨trivial, fun _ _ => trivial⟩⟩
  | reader pid s => exact ⟨trivial, fun _ _ => trivial⟩
  | procExit pid code => exact ⟨trivial, fun _ _ => trivial⟩
  | createContainer req => exact ⟨trivial, fun r _ => hreply r fun _ _ _ => by simp⟩
  | startContainer id => exact ⟨trivial, fun r _ => hreply r fun _ _ _ => by simp⟩
  | runContainer req => exact ⟨trivial, fun r _ => hreply r fun _ _ _ => by simp⟩
  | killContainer id sig => exact ⟨trivial, fun r _ => hreply r fun _ _ _ => by simp⟩
  | deleteContainer id => exact ⟨trivial, fun r _ => hreply r fun _ _ _ => by simp⟩
  | adoptContainer o n => exact ⟨trivial, fun r _ => hreply r fun _ _ _ => by simp⟩

/-! ### Runs -/

/-- The receiver that a task took, from the log of its actions. -/
def taken (l : List (Act Action Answer)) : Option ℕ :=
  l.foldl (fun rx e => match e with
    | ⟨.getExitReceiver _, r⟩ => r
    | _ => rx) none

/-- The receiver that thread `i` took. -/
def takenBy (x : AgentConf) (i : ℕ) : Option ℕ := (x.threads[i]?).bind fun t => taken t.log

def Guest.ownProcessRuns (g : Guest) (c : Container) : Bool :=
  c.pid.any fun p => g.procs.lookup p = some .running

/-- The steps that keep the records true: no `wait_container` runs into its timeout, a container that
is marked stopped is the one whose receiver the call took, and a signal for a container that runs
goes to an id that crun knows. -/
def sound (x : AgentConf) : Event Action Answer TaskName → Bool
  | .act _ (.select _) .timeout => false
  | .act i (.markStopped id _) _ => (x.shared.mgr.containers.lookup id).all fun c => c.pid = takenBy x i
  | .act _ (.kill id _) _ => (x.shared.mgr.containers.lookup id).all fun c =>
      c.state = .stopped || !x.shared.ownProcessRuns c || (x.shared.crunResolves id).isSome
  | _ => true

/-- What a step tells a client: a wait reports an exit only of the process whose receiver it took, and
a signal is let drop only for a container whose own process does not run. -/
def Honest (x : AgentConf) : Event Action Answer TaskName → Prop
  | .act i (.respond (.waited status _)) _ => ∃ p code, takenBy x i = some p ∧
      x.shared.procs.lookup p = some (.exited code) ∧ status = asU32 code
  | .act _ (.kill id _) (.ok .alreadyStopped) | .act _ (.kill id _) (.ok .notFound) =>
      ∀ c, x.shared.mgr.containers.lookup id = some c → x.shared.ownProcessRuns c = false
  | _ => True

theorem stage_rx (t : Thread Action Answer TaskName) :
    (System.ghost exitCodes (fun _ => Stage.init) t).rx = taken t.log := by
  refine System.ghost_view Stage.rx _ t rfl fun s a r => ?_
  cases a with
  | borrow p => cases r <;> rfl
  | select p => cases r <;> rfl
  | _ => rfl

theorem takenBy_eq {x : AgentConf} {i : ℕ} {s : Stage}
    (hi : (x.threads.map (System.ghost exitCodes fun _ => Stage.init))[i]? = some s) :
    takenBy x i = s.rx := by
  rw [List.getElem?_map, Option.map_eq_some_iff] at hi
  obtain ⟨t, ht, rfl⟩ := hi
  rw [takenBy, ht, stage_rx]
  rfl

/-- An action that lets the guest grow keeps the invariant, if it does for the acting task. -/
theorem exitInv_set {g g' : Guest} {ss : List Stage} {i : ℕ} {s : Stage} {ts : List TaskName}
    (h : ExitInv g ss) (hg : g.Grows g') (hst : g'.StoppedOwn) (hch : g'.ChannelsOwn) (hs : s.Holds g') :
    ExitInv g' (ss.set i s ++ ts.map fun _ => Stage.init) := by
  refine ⟨hst, hch, fun u hu => ?_⟩
  rcases List.mem_append.mp hu with hu | hu
  · rcases List.mem_or_eq_of_mem_set hu with hu | rfl
    · exact (h.2.2 u hu).mono hg
    · exact hs
  · obtain ⟨t, -, rfl⟩ := List.mem_map.mp hu
    exact ⟨fun p c hp => (by cases hp), fun p hp => (by cases hp), fun p hp => (by cases hp)⟩

theorem exitInv_calm {g g' : Guest} {ss : List Stage} {i : ℕ} {s : Stage} {ts : List TaskName}
    (h : ExitInv g ss) (hi : ss[i]? = some s) (hc : g.Calm g') :
    ExitInv g' (ss.set i s ++ ts.map fun _ => Stage.init) :=
  exitInv_set h hc.1 (hc.2.2.2 h.1) (hc.channels h.2.1)
    ((h.2.2 s (List.mem_of_getElem? hi)).mono hc.1)

theorem markStopped_inv {g : Guest} {ss : List Stage} {i : ℕ} {s : Stage} {id : String} {p : ℕ} {code : ℤ}
    {ts : List TaskName} (h : ExitInv g ss) (hi : ss[i]? = some s) (he : s.exit = some (p, code))
    (hown : ∀ c, g.mgr.containers.lookup id = some c → c.pid = some p) :
    ExitInv (g.markStopped id code) (ss.set i s ++ ts.map fun _ => Stage.init) := by
  refine exitInv_calm h hi ?_
  have hex := (h.2.2 s (List.mem_of_getElem? hi)).1 p code he
  unfold Guest.markStopped
  split
  · next c hc =>
    refine calm_of_table rfl rfl rfl fun id' c' hc' => ?_
    rw [Finmap.lookup_insert_eq] at hc'
    split at hc'
    · obtain rfl := Option.some.inj hc'
      exact .inr fun _ => ⟨p, code, hown c hc, rfl, hex⟩
    · exact .inl ⟨id', hc'⟩
  · exact .refl g

theorem send_inv {g : Guest} {ss : List Stage} {i : ℕ} {s : Stage} {p : ℕ} {st : ExitStatus}
    {ts : List TaskName} (h : ExitInv g ss) (hi : ss[i]? = some s) (he : s.exit = some (p, st.code)) :
    ExitInv { g with published := g.published.insert p st }
      (ss.set i { s with sent := some p } ++ ts.map fun _ => Stage.init) := by
  have hs := h.2.2 s (List.mem_of_getElem? hi)
  have hgrow : g.Grows { g with published := g.published.insert p st } := by
    refine ⟨fun _ _ hp => hp, fun q hq => ?_⟩
    rw [Finmap.lookup_insert_eq]
    split
    · rfl
    · exact hq
  refine exitInv_set h hgrow h.1 ⟨fun q st' hq => ?_, fun q hq => hgrow.2 q (h.2.1.2 q hq)⟩ ?_
  · rw [Finmap.lookup_insert_eq] at hq
    split at hq
    · next heq =>
      obtain rfl := Option.some.inj hq
      subst heq
      exact hs.1 q st.code he
    · exact h.2.1.1 q st' hq
  · refine ⟨hs.1, fun q hq => hgrow.2 q (hs.2.1 q hq), fun q hq => ?_⟩
    obtain rfl := Option.some.inj hq
    rw [Finmap.lookup_insert]
    rfl

/-- A process that ran can exit: the exits known before it stay as they were. -/
theorem procExit_inv {g : Guest} {ss : List Stage} {i : ℕ} {s : Stage} {p : ℕ} {code : ℤ}
    {ts : List TaskName} (h : ExitInv g ss) (hi : ss[i]? = some s)
    (hrun : g.procs.lookup p = some .running) :
    ExitInv { g with procs := g.procs.insert p (.exited code) }
      (ss.set i s ++ ts.map fun _ => Stage.init) := by
  refine exitInv_calm h hi ?_
  have hgrow : g.Grows { g with procs := g.procs.insert p (.exited code) } := by
    refine ⟨fun q c hq => ?_, fun q hq => hq⟩
    have hne : q ≠ p := by
      rintro rfl
      rw [hrun] at hq
      cases hq
    rw [Finmap.lookup_insert_eq, if_neg hne]
    exact hq
  exact ⟨hgrow, rfl, rfl, fun hs id c hc => ownExit_mono (hs id c hc) hgrow⟩

/-- One action keeps the invariant and gets an answer that the task expects. -/
theorem exit_step {x : AgentConf} {ss : List Stage} {i : ℕ} {s : Stage} {a : Action} {c : Choice}
    {r : Answer a} {g' : Guest} (hinv : ExitInv x.shared ss) (hi : ss[i]? = some s)
    (hrx : takenBy x i = s.rx) (hreq : s.req a) (hp : perform x.shared a c = some (r, g'))
    (hok : sound x (.act i a r) = true) :
    s.may a r ∧ ExitInv g' (ss.set i (s.upd a r) ++ (spawned a r).map fun _ => Stage.init) := by
  have hs := hinv.2.2 s (List.mem_of_getElem? hi)
  cases a with
  | create req => exact ⟨trivial, exitInv_calm hinv hi (create_calm (Option.some.inj hp)).1⟩
  | start id =>
    obtain ⟨hf, -, he⟩ := execSpawn_some hp
    exact ⟨trivial, exitInv_calm hinv hi (start_calm hf he)⟩
  | run req =>
    obtain ⟨hf, -, he⟩ := execSpawn_some hp
    exact ⟨trivial, exitInv_calm hinv hi (run_calm hf he)⟩
  | kill id sig =>
    obtain rfl := (kill_spec (Option.some.inj hp)).1
    exact ⟨trivial, exitInv_calm hinv hi (.refl _)⟩
  | delete id => exact ⟨trivial, exitInv_calm hinv hi (delete_calm (Option.some.inj hp))⟩
  | adopt o n => exact ⟨trivial, exitInv_calm hinv hi (adopt_calm (Option.some.inj hp))⟩
  | getExitReceiver id =>
    obtain ⟨rfl, rfl⟩ := Prod.mk.inj (Option.some.inj hp)
    exact ⟨trivial, exitInv_set hinv (Guest.Calm.refl _).1 hinv.1 hinv.2.1 hs⟩
  | borrow p =>
    obtain ⟨rfl, rfl⟩ := Prod.mk.inj (Option.some.inj hp)
    have hsome : s.woken = some p → x.shared.published.lookup p ≠ none := fun hw hn => by
      have h := hs.2.1 p hw
      rw [hn] at h
      cases h
    cases hst : x.shared.published.lookup p with
    | none => exact ⟨hst ▸ hsome, exitInv_calm hinv hi (.refl _)⟩
    | some st =>
      refine ⟨hst ▸ hsome, exitInv_set hinv (Guest.Calm.refl _).1 hinv.1 hinv.2.1 ⟨fun q code hq => ?_, hs.2⟩⟩
      obtain ⟨rfl, rfl⟩ := Prod.mk.inj (Option.some.inj hq)
      exact hinv.2.1.1 p st hst
  | select p =>
    simp only [perform] at hp
    split at hp
    · next hw =>
      obtain ⟨rfl, rfl⟩ := Prod.mk.inj (Option.some.inj hp)
      cases hc : c.wake with
      | timeout => rw [hc] at hok; cases hok
      | closed =>
        -- the sender of a channel goes only after it has published
        rw [hc] at hw
        simp only [Guest.canWake, Bool.and_eq_true, decide_eq_true_eq] at hw
        have h := hinv.2.1.2 p hw.1
        rw [Option.isNone_iff_eq_none.mp hw.2] at h
        cases h
      | changed =>
        rw [hc] at hw
        refine ⟨rfl, exitInv_set hinv (Guest.Calm.refl _).1 hinv.1 hinv.2.1 ⟨hs.1, fun q hq => ?_, hs.2.2⟩⟩
        obtain rfl := Option.some.inj hq
        exact hw
    · cases hp
  | markStopped id code =>
    obtain ⟨rfl, rfl⟩ := Prod.mk.inj (Option.some.inj hp)
    obtain ⟨p, hp, he⟩ := hreq
    refine ⟨trivial, markStopped_inv hinv hi he fun c hc => ?_⟩
    simp only [sound, hc, Option.all_some, decide_eq_true_eq] at hok
    rw [hok, hrx, hp]
  | send p st =>
    obtain ⟨rfl, rfl⟩ := Prod.mk.inj (Option.some.inj hp)
    exact ⟨trivial, send_inv hinv hi hreq⟩
  | dropSender p =>
    obtain ⟨rfl, rfl⟩ := Prod.mk.inj (Option.some.inj hp)
    refine ⟨trivial, exitInv_set hinv ⟨fun _ _ h => h, fun _ h => h⟩ hinv.1 ⟨hinv.2.1.1, fun q hq => ?_⟩ hs⟩
    rcases Finset.mem_insert.mp hq with rfl | hq
    · exact hs.2.2 q hreq
    · exact hinv.2.1.2 q hq
  | waitForExit p =>
    simp only [perform] at hp
    split at hp
    · next code hc =>
      obtain ⟨rfl, rfl⟩ := Prod.mk.inj (Option.some.inj hp)
      refine ⟨trivial, exitInv_set hinv (Guest.Calm.refl _).1 hinv.1 hinv.2.1 ⟨fun q d hq => ?_, hs.2⟩⟩
      obtain ⟨rfl, rfl⟩ := Prod.mk.inj (Option.some.inj hq)
      exact hc
    · cases hp
  | procExit p code =>
    simp only [perform] at hp
    split at hp
    · next hrun =>
      obtain ⟨rfl, rfl⟩ := Prod.mk.inj (Option.some.inj hp)
      exact ⟨trivial, procExit_inv hinv hi hrun⟩
    · cases hp
  | capture buf st =>
    simp only [perform] at hp
    split at hp
    · obtain ⟨rfl, rfl⟩ := Prod.mk.inj (Option.some.inj hp)
      unfold Guest.append
      split <;> exact ⟨trivial, exitInv_calm hinv hi (calm_of_core rfl)⟩
    · obtain ⟨rfl, rfl⟩ := Prod.mk.inj (Option.some.inj hp)
      exact ⟨trivial, exitInv_calm hinv hi (.refl _)⟩
  | setEof buf =>
    obtain ⟨rfl, rfl⟩ := Prod.mk.inj (Option.some.inj hp)
    unfold Guest.setEof
    split <;> exact ⟨trivial, exitInv_calm hinv hi (calm_of_core rfl)⟩
  | state _ | utcNow | getLogBuffer _ | readLogs _ | respond _ =>
    obtain ⟨rfl, rfl⟩ := Prod.mk.inj (Option.some.inj hp)
    exact ⟨trivial, exitInv_calm hinv hi (.refl _)⟩

theorem exit_inv {disks : List Disk} {x : AgentConf}
    (h : agent.Reach (fun x e => sound x e = true) (booted disks) x) :
    ExitInv x.shared (x.threads.map (System.ghost exitCodes fun _ => Stage.init)) ∧
      ∀ t ∈ x.threads, wp exitCodes t.prog (fun _ _ => True)
        (System.ghost exitCodes (fun _ => Stage.init) t) := by
  refine System.Reach.inv ExitInv (fun _ => True) (fun t => body_wp t) ?_
    (fun t ht => by cases ht) ?_ ?_ h
  · refine ⟨fun id c hc => ?_, ⟨fun p st hp => ?_, fun p hp => ?_⟩, fun s hs => ?_⟩
    · simp [booted, Guest.boot] at hc
    · simp [booted, Guest.boot] at hp
    · simp [booted, Guest.boot] at hp
    · simp [booted] at hs
  · intro x t hI _ _
    refine ⟨hI.1, hI.2.1, fun s hs => ?_⟩
    rcases List.mem_append.mp hs with hs | hs
    · exact hI.2.2 s hs
    · rw [List.mem_singleton] at hs
      subst hs
      exact ⟨fun p c hp => (by cases hp), fun p hp => (by cases hp), fun p hp => (by cases hp)⟩
  · intro x i s a c r g' hI hi hreq hp hok
    exact exit_step hI hi (takenBy_eq hi) hreq hp hok

/-- **Stopped means exited.**  In every run whose steps are `sound`, a record in state `Stopped` has
the code its own process has exited with, a wait reports only such exits, and no signal for a
container that runs is let drop. -/
theorem stopped_own {disks : List Disk} {x : AgentConf}
    (h : agent.Reach (fun x e => sound x e = true) (booted disks) x) :
    (∀ id c code, x.shared.mgr.containers.lookup id = some c → c.state = .stopped →
      c.exitCode = some code → ∃ p, c.pid = some p ∧ x.shared.procs.lookup p = some (.exited code)) ∧
    ∀ e y, agent.Step x e y → sound x e = true → Honest x e := by
  obtain ⟨hI, hW⟩ := exit_inv h
  have hown : ∀ id c, x.shared.mgr.containers.lookup id = some c → c.state = .stopped →
      x.shared.ownProcessRuns c = false := by
    intro id c hc hs
    obtain ⟨p, code, hp, -, he⟩ := hI.1 id c hc hs
    simp [Guest.ownProcessRuns, hp, he]
  refine ⟨fun id c code hc hs hcode => ?_, fun e y hstep hok => ?_⟩
  · obtain ⟨p, code', hp, hc', he⟩ := hI.1 id c hc hs
    rw [hcode] at hc'
    obtain rfl := Option.some.inj hc'
    exact ⟨p, hp, he⟩
  · cases hstep with
    | arrive _ => trivial
    | @act i t a k l c r s' hi hp =>
      have hw := hW _ (List.mem_of_getElem? hi)
      have hg : (x.threads.map (System.ghost exitCodes fun _ => Stage.init))[i]? =
          some (System.ghost exitCodes (fun _ => Stage.init) ⟨t, .act a k, l⟩) := by
        rw [List.getElem?_map, hi]
        rfl
      cases a with
      | respond resp =>
        cases resp with
        | waited status exitedAt =>
          obtain ⟨p, code, hrx, he, hst⟩ := hw.1
          exact ⟨p, code, (takenBy_eq hg).trans hrx,
            (hI.2.2 _ (List.mem_of_getElem? hg)).1 p code he, hst⟩
        | _ => trivial
      | kill id sig =>
        obtain ⟨-, ho⟩ := kill_spec (Option.some.inj hp)
        cases r with
        | error e => trivial
        | ok o =>
          rcases ho o rfl with ⟨rfl, hs⟩ | ⟨rfl, hn⟩ | ⟨p, rfl, -⟩
          · intro c hc
            rw [hc] at hs
            exact hown id c hc (Option.some.inj hs)
          · intro c hc
            simp only [sound, hc, Option.all_some, hn, Option.isSome_none, Bool.or_false,
              Bool.or_eq_true, decide_eq_true_eq, Bool.not_eq_true'] at hok
            rcases hok with hs | hr
            · exact hown id c hc hs
            · exact hr
          · trivial
      | _ => trivial

/-! ### Two runs -/

/-- The container runs (pid 10); a wait for it is there until its 600 seconds are over. -/
def timeoutRun : List (Label Choice TaskName) :=
  [.arrive (.runContainer oneContainer), go 0 .changed, .arrive (.waitContainer "web"), go 4 .changed,
    go 4 .changed, go 4 .timeout, go 4 .changed, go 4 .changed]

/-- A wait that runs into its timeout marks a running container stopped with code 137. -/
theorem timeout_marks_running : ∃ x, agent.Reach (fun _ _ => True) (booted twoDisks) x ∧
    ¬ (∀ id c code, x.shared.mgr.containers.lookup id = some c → c.state = .stopped →
      c.exitCode = some code → ∃ p, c.pid = some p ∧ x.shared.procs.lookup p = some (.exited code)) := by
  have hrun : (agent.exec (fun _ _ => true) (booted twoDisks) timeoutRun).any (fun x =>
      decide (x.shared.mgr.containers.lookup "web" = some ⟨some 10, some 137, .stopped⟩) &&
        decide (x.shared.procs.lookup 10 = some .running)) = true := by decide +kernel
  obtain ⟨x, hx, hP⟩ := System.exists_reach hrun
  simp only [Bool.and_eq_true, decide_eq_true_eq] at hP
  refine ⟨x, hx.mono fun _ _ _ => trivial, fun h => ?_⟩
  obtain ⟨p, hp, he⟩ := h "web" _ 137 hP.1 rfl rfl
  obtain rfl := Option.some.inj hp
  rw [hP.2] at he
  cases he

/-- The container exits with code 3, the exit task publishes it, and the wait marks it stopped. -/
def exitRun : List (Label Choice TaskName) :=
  [.arrive (.runContainer oneContainer), go 0 .changed, .arrive (.waitContainer "web"), go 4 .changed,
    go 4 .changed, .arrive (.procExit 10 3), go 5 .changed, go 3 .changed, go 3 .changed, go 3 .changed,
    go 4 .changed, go 4 .changed, go 4 .changed]

theorem stopped_own_exit : ∃ x, agent.Reach (fun x e => sound x e = true) (booted twoDisks) x ∧
    x.shared.mgr.containers.lookup "web" = some ⟨some 10, some 3, .stopped⟩ ∧
    ∃ p, some 10 = some p ∧ x.shared.procs.lookup p = some (.exited 3) := by
  have hrun : (agent.exec sound (booted twoDisks) exitRun).any (fun x =>
      decide (x.shared.mgr.containers.lookup "web" = some ⟨some 10, some 3, .stopped⟩)) = true := by
    decide +kernel
  obtain ⟨x, hx, hP⟩ := System.exists_reach hrun
  rw [decide_eq_true_eq] at hP
  exact ⟨x, hx, hP, (stopped_own hx).1 "web" _ 3 hP rfl rfl⟩

end CloudHv.Agent
