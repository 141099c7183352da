import CloudHv.Agent.Tables

/-!
# Reported — the exit status that state and delete report

The exit task sends the exit code into the container's watch channel.  The record, from which
`StateContainer` and `DeleteContainer` answer, learns it only from a `WaitContainer` that comes to its
end: `mark_stopped` is called nowhere else.  What was marked is written down here by the pid of the
record it was marked on, so that a container keeps it through `adopt` and a second life does not get
it.
-/

namespace CloudHv.Agent

open Conc

/-! ### Published codes are of children -/

/-- The process that a task has seen to exit. -/
def seenExit : Discipline Action Answer (Option ℕ) where
  upd s
    | .waitForExit p, _ => some p
    | _, _ => s
  req s
    | .send p _ => s = some p
    | _ => True
  may _ _ _ := True

/-- Only the exit task sends, and only after it has seen its process exit. -/
theorem seenExit_body (t : TaskName) : wp seenExit t.body (fun _ _ => True) none := by
  cases t with
  | exitTask pid =>
    exact ⟨trivial, fun _ _ => ⟨trivial, fun _ _ => ⟨rfl, fun _ _ => ⟨trivial, fun _ _ =>
      ⟨trivial, fun _ _ => trivial⟩⟩⟩⟩⟩
  | _ =>
    refine body_unwatched _ (fun a ha => ?_) trivial
    cases a with
    | waitForExit p => cases ha
    | send p st => cases ha
    | _ => exact ⟨trivial, fun _ _ => rfl⟩

/-- A code was published only for a child that there is. -/
theorem published_known {ok : AgentConf → Event Action Answer TaskName → Prop} {disks : List Disk}
    {x : AgentConf} {p : ℕ} {st : ExitStatus} (h : agent.Reach ok (booted disks) x)
    (hp : x.shared.published.lookup p = some st) : p ∈ x.shared.procs := by
  have hinv : ((∀ p st, x.shared.tables.published.lookup p = some st → p ∈ x.shared.tables.procs) ∧
      ∀ p, some p ∈ x.threads.map (System.ghost seenExit fun _ => none) → p ∈ x.shared.tables.procs) ∧ _ :=
    System.Reach.inv (fun g ss => (∀ p st, g.tables.published.lookup p = some st → p ∈ g.tables.procs) ∧
      ∀ p, some p ∈ ss → p ∈ g.tables.procs) (fun _ => True) seenExit_body ?_ (fun t ht => by cases ht)
      ?_ ?_ h
  · exact hinv.1.1 p st hp
  · refine ⟨fun p st hp => ?_, fun p hs => by cases hs⟩
    simp only [booted, Guest.boot, Guest.tables, Finmap.lookup_empty] at hp
    cases hp
  · intro x t hI _ _
    refine ⟨hI.1, fun p hs => ?_⟩
    rcases List.mem_append.mp hs with hs | hs
    · exact hI.2 p hs
    · cases List.mem_singleton.mp hs
  · intro x i s a c r g' hI hi hreq hp _
    have he := tables_step hp
    refine ⟨trivial, fun p st hst => ?_, fun p hs => ?_⟩
    · refine he.procs_mono ?_
      rcases he.published_cases with ⟨q, st', rfl, hpub⟩ | hpub
      · rw [hpub, Finmap.lookup_insert_eq] at hst
        split at hst
        · next hpq =>
          have hq : s = some q := hreq
          rw [hpq]
          exact hI.2 q (hq ▸ List.mem_of_getElem? hi)
        · exact hI.1 p st hst
      · exact hI.1 p st (hpub ▸ hst)
    · rcases List.mem_append.mp hs with hs | hs
      · rcases List.mem_or_eq_of_mem_set hs with hs | hs
        · exact he.procs_mono (hI.2 p hs)
        · cases a with
          | waitForExit q =>
            obtain rfl := Option.some.inj hs
            simp only [agent, perform] at hp
            split at hp
            · next code hc =>
              obtain ⟨rfl, rfl⟩ := Prod.mk.inj (Option.some.inj hp)
              exact Finmap.mem_of_lookup hc
            · cases hp
          | _ => exact he.procs_mono (hI.2 p (by rw [hs]; exact List.mem_of_getElem? hi))
      · obtain ⟨t, -, ht⟩ := List.mem_map.mp hs
        cases ht

/-! ### What was marked -/

/-- The code that a record with a given pid was last marked stopped with. -/
abbrev Marks := ℕ → Option ℤ

/-- Write down what `mark_stopped` does, by the pid of the record it finds. -/
def noteMark (m : Marks) (x : AgentConf) : Event Action Answer TaskName → Guest → Marks
  | .act _ (.markStopped id code) _, _ =>
    match (x.shared.mgr.containers.lookup id).bind (·.pid) with
    | some p => Function.update m p (some code)
    | none => m
  | _, _ => m

/-- The record of a started container is stopped just in case it was marked, with the code it was
marked with. -/
structure Marked (m : Marks) (t : Tables) : Prop where
  fresh : ∀ p, m p ≠ none → p ∈ t.procs ∨ p = agentPid
  code : ∀ id c p code, t.containers.lookup id = some c → c.pid = some p → p ∈ t.procs → m p = some code →
    c.state = .stopped ∧ c.exitCode = some code
  clear : ∀ id c p, t.containers.lookup id = some c → c.pid = some p → p ∈ t.procs → m p = none →
    c.state ≠ .stopped

namespace Marked

variable {m : Marks} {t : Tables}

/-- A table whose records are old ones, or not started. -/
theorem of_records (h : Marked m t) (hs : t.Sane) {t' : Tables} (hp : ∀ p, p ∈ t'.procs ↔ p ∈ t.procs)
    (hold : ∀ id c, t'.containers.lookup id = some c → c.pid = some agentPid ∨
      ∃ id', t.containers.lookup id' = some c) : Marked m t' := by
  have hrec : ∀ id c p, t'.containers.lookup id = some c → c.pid = some p → p ∈ t'.procs →
      (∃ id', t.containers.lookup id' = some c) ∧ p ∈ t.procs := by
    intro id c p hc hcp hin
    have hin' := (hp p).mp hin
    refine ⟨(hold id c hc).resolve_left fun ha => ?_, hin'⟩
    rw [Option.some.inj (hcp.symm.trans ha)] at hin'
    exact hs.agent hin'
  refine ⟨fun p hm => (h.fresh p hm).imp_left (hp p).mpr, fun id c p code hc hcp hin hm => ?_,
    fun id c p hc hcp hin hm => ?_⟩
  · obtain ⟨⟨id', hc'⟩, hin'⟩ := hrec id c p hc hcp hin
    exact h.code id' c p code hc' hcp hin' hm
  · obtain ⟨⟨id', hc'⟩, hin'⟩ := hrec id c p hc hcp hin
    exact h.clear id' c p hc' hcp hin' hm

theorem created (h : Marked m t) (hs : t.Sane) (id : String) : Marked m (t.created id) := by
  refine h.of_records hs (fun _ => .rfl) fun i c hc => ?_
  rw [Tables.created, Finmap.lookup_insert_eq] at hc
  split at hc
  · exact .inl (by rw [← Option.some.inj hc])
  · exact .inr ⟨i, hc⟩

/-- A container that starts gets a pid on which nothing was marked. -/
theorem started (h : Marked m t) (hs : t.Sane) {id : String} {c : Container} {p : ℕ} (hf : t.Fresh p) :
    Marked m (t.started id c p) := by
  have hnew : m p = none := by
    by_contra hm
    exact (h.fresh p hm).elim hf.1 hf.2
  have hrec : ∀ i d q, (t.started id c p).containers.lookup i = some d → d.pid = some q →
      q ∈ (t.started id c p).procs →
      (q = p ∧ d.state = .running) ∨ (t.containers.lookup i = some d ∧ q ∈ t.procs) := by
    intro i d q hi hd hq
    simp only [Tables.started, Finmap.lookup_insert_eq] at hi
    split at hi
    · obtain rfl := Option.some.inj hi
      exact .inl ⟨(Option.some.inj hd).symm, rfl⟩
    · refine .inr ⟨hi, ?_⟩
      obtain ⟨q', hq', hor⟩ := hs.record i d hi
      obtain rfl := Option.some.inj (hd.symm.trans hq')
      refine hor.resolve_left fun ha => ?_
      exact (hs.started hf).agent (ha ▸ hq)
  refine ⟨fun q hm => (h.fresh q hm).imp_left fun hin => Finmap.mem_insert.mpr (.inr hin),
    fun i d q code hi hd hq hm => ?_, fun i d q hi hd hq hm => ?_⟩
  · rcases hrec i d q hi hd hq with ⟨rfl, -⟩ | ⟨ho, hin⟩
    · rw [hnew] at hm
      cases hm
    · exact h.code i d q code ho hd hin hm
  · rcases hrec i d q hi hd hq with ⟨-, hst⟩ | ⟨ho, hin⟩
    · rw [hst]
      exact fun he => by cases he
    · exact h.clear i d q ho hd hin hm

/-- No other action than `mark_stopped` marks a record. -/
theorem effect (h : Marked m t) (hs : t.Sane) {a : Action} {r : Answer a} {t' : Tables}
    (he : Effect t a r t') (hne : ∀ id code, a ≠ .markStopped id code) : Marked m t' := by
  cases he with
  | none => exact h
  | create => exact h.created hs _
  | runHalf => exact h.created hs _
  | run hf => exact (h.created hs _).started (hs.created _) hf
  | start hc hf => exact h.started hs hf
  | delete =>
    refine h.of_records hs (fun _ => .rfl) fun i c hc => ?_
    exact .inr ⟨i, (Finmap.lookup_of_erase hc).2⟩
  | drop hc hn =>
    refine h.of_records hs (fun _ => .rfl) fun i c hc => ?_
    exact .inr ⟨i, (Finmap.lookup_of_erase hc).2⟩
  | @adopt o n c p hc hp =>
    refine h.of_records hs (fun _ => .rfl) fun i d hd => ?_
    rw [Tables.adopted, Finmap.lookup_insert_eq] at hd
    split at hd
    · exact .inr ⟨o, by rw [hc, Option.some.inj hd]⟩
    · exact .inr ⟨i, (Finmap.lookup_of_erase hd).2⟩
  | mark hc => exact absurd rfl (hne _ _)
  | exit hp =>
    refine h.of_records hs (fun q => ?_) fun i c hc => .inr ⟨i, hc⟩
    rw [Tables.exited, Finmap.mem_insert]
    exact ⟨fun hq => hq.elim (fun he => he ▸ Finmap.mem_of_lookup hp) id, .inr⟩
  | send => exact h.of_records hs (fun _ => .rfl) fun i c hc => .inr ⟨i, hc⟩

/-- Marking a record: no other record has its pid. -/
theorem marked (h : Marked m t) (hs : t.Sane) {id : String} {c : Container} {p : ℕ} (code : ℤ)
    (hc : t.containers.lookup id = some c) (hp : c.pid = some p) :
    Marked (Function.update m p (some code)) (t.marked id c code) := by
  have hrec : ∀ i d q, (t.marked id c code).containers.lookup i = some d → d.pid = some q → q ∈ t.procs →
      (q = p ∧ d.state = .stopped ∧ d.exitCode = some code) ∨ (q ≠ p ∧ t.containers.lookup i = some d) := by
    intro i d q hi hd hq
    simp only [Tables.marked, Finmap.lookup_insert_eq] at hi
    split at hi
    · obtain rfl := Option.some.inj hi
      exact .inl ⟨Option.some.inj (hd.symm.trans hp), rfl, rfl⟩
    · next hne =>
      refine .inr ⟨fun hqp => ?_, hi⟩
      exact hne (hs.single i id d c p hi hc (hqp ▸ hd) hp (hqp ▸ hq))
  refine ⟨fun q hm => ?_, fun i d q code' hi hd hq hm => ?_, fun i d q hi hd hq hm => ?_⟩
  · by_cases hqp : q = p
    · subst hqp
      obtain ⟨q', hq', hor⟩ := hs.record id c hc
      rw [← Option.some.inj (hp.symm.trans hq')] at hor
      exact hor.symm
    · rw [Function.update_of_ne hqp] at hm
      exact h.fresh q hm
  · rcases hrec i d q hi hd hq with ⟨rfl, hst, hcode⟩ | ⟨hne, ho⟩
    · rw [Function.update_self] at hm
      exact ⟨hst, hcode.trans hm⟩
    · rw [Function.update_of_ne hne] at hm
      exact h.code i d q code' ho hd hq hm
  · rcases hrec i d q hi hd hq with ⟨rfl, -, -⟩ | ⟨hne, ho⟩
    · rw [Function.update_self] at hm
      cases hm
    · rw [Function.update_of_ne hne] at hm
      exact h.clear i d q ho hd hq hm

end Marked

theorem marked_inv {disks : List Disk} {m : Marks} {x : AgentConf}
    (h : agent.Hist noteMark (fun _ _ _ => True) (fun _ => none) (booted disks) m x) :
    x.shared.tables.Sane ∧ Marked m x.shared.tables := by
  refine System.Hist.shared (fun m g => g.tables.Sane ∧ Marked m g.tables) ?_ (fun _ _ _ hI _ => hI) ?_ h
  · have h₀ : agent.Reach (fun _ _ => True) (booted disks) (booted disks) := .init
    refine ⟨tables_sane h₀, fun p hm => absurd rfl hm, fun id c p code hc => ?_,
      fun id c p hc => ?_⟩
    all_goals
      simp only [booted, Guest.boot, Guest.tables, Finmap.lookup_empty] at hc
      cases hc
  · intro m x i a c r g' hI hp _
    have he := tables_step hp
    refine ⟨hI.1.effect he, ?_⟩
    cases a with
    | markStopped id code =>
      obtain ⟨rfl, rfl⟩ := Prod.mk.inj (Option.some.inj hp)
      cases hc : x.shared.mgr.containers.lookup id with
      | none =>
        simp only [noteMark, Guest.markStopped, hc]
        exact hI.2
      | some d =>
        obtain ⟨p, hpid, -⟩ := hI.1.record id d hc
        have hnote : noteMark m x (.act i (.markStopped id code) ()) (x.shared.markStopped id code) =
            Function.update m p (some code) := by
          simp only [noteMark, hc, Option.bind_some, hpid]
        have htab : (x.shared.markStopped id code).tables = x.shared.tables.marked id d code := by
          simp only [Guest.markStopped, hc]
          rfl
        rw [hnote, htab]
        exact hI.2.marked hI.1 code hc hpid
    | _ => exact hI.2.effect hI.1 he fun _ _ hm => by cases hm

/-- `StateContainer` reports the container stopped with the code, and a `DeleteContainer` returns it. -/
def Guest.Reports (g : Guest) (id : String) (code : ℤ) : Prop :=
  (g.state id).status = .stopped ∧ (g.state id).exitStatus = asU32 code ∧
    ∀ c r g', perform g (.delete id) c = some (.ok r, g') → asU32 r.2 = asU32 code

/-- **Exit codes are reported as they were marked.**  Once the exit task of a container has published a
code, `StateContainer` and `DeleteContainer` report it if and only if a `WaitContainer` has marked the
container stopped, and the last to do so with that status. -/
theorem exit_reported_iff {disks : List Disk} {m : Marks} {x : AgentConf} {id : String} {c : Container}
    {p : ℕ} {st : ExitStatus}
    (h : agent.Hist noteMark (fun _ _ _ => True) (fun _ => none) (booted disks) m x)
    (hc : x.shared.mgr.containers.lookup id = some c) (hp : c.pid = some p)
    (hpub : x.shared.published.lookup p = some st) :
    x.shared.Reports id st.code ↔ ∃ code, m p = some code ∧ asU32 code = asU32 st.code := by
  obtain ⟨-, hm⟩ := marked_inv h
  have hx : agent.Reach (fun _ _ => True) (booted disks) x := h.reach fun _ _ _ _ => trivial
  have hin : p ∈ x.shared.procs := published_known hx hpub
  constructor
  · rintro ⟨hst, hex, -⟩
    cases hmp : m p with
    | none =>
      refine absurd ?_ (hm.clear id c p hc hp hin hmp)
      simp only [Guest.state, hc] at hst
      cases hs : c.state with
      | stopped => rfl
      | created => rw [hs] at hst; cases hst
      | running => rw [hs] at hst; cases hst
    | some code =>
      obtain ⟨-, hcode⟩ := hm.code id c p code hc hp hin hmp
      simp only [Guest.state, hc, hcode, Option.getD_some] at hex
      exact ⟨code, rfl, hex⟩
  · rintro ⟨code, hmp, heq⟩
    obtain ⟨hst, hcode⟩ := hm.code id c p code hc hp hin hmp
    refine ⟨by simp only [Guest.state, hc, hst], ?_, fun ch r g' hd => ?_⟩
    · simp only [Guest.state, hc, hcode, Option.getD_some]
      exact heq
    · rcases delete_cases (Option.some.inj hd) with ⟨e, he, -⟩ | ⟨hr, -⟩
      · cases he
      · obtain rfl := Except.ok.inj hr
        simp only [hc, Option.bind_some, hcode, Option.getD_some]
        exact heq

/-- The container runs under pid 10, exits with code 3, and the exit task publishes it. -/
def publishRun : List (Label Choice TaskName) :=
  [.arrive (.runContainer oneContainer), go 0 .changed, .arrive (.procExit 10 3), go 4 .changed,
    go 3 .changed, go 3 .changed, go 3 .changed]

/-- With a wait that comes to its end, the code is reported. -/
theorem exit_reported_after_wait : ∃ m x,
    agent.Hist noteMark (fun _ _ _ => True) (fun _ => none) (booted twoDisks) m x ∧
      x.shared.published.lookup 10 = some ⟨3, "now"⟩ ∧ x.shared.Reports "web" 3 := by
  have hrun : (agent.execHist noteMark (fun _ _ _ => true) (fun _ => none) (booted twoDisks)
      (publishRun ++ [.arrive (.waitContainer "web"), go 5 .changed, go 5 .changed, go 5 .changed])).any
      (fun q => decide (q.1 10 = some 3 ∧ q.2.shared.published.lookup 10 = some ⟨3, "now"⟩ ∧
        q.2.shared.mgr.containers.lookup "web" = some ⟨some 10, some 3, .stopped⟩)) = true := by decide +kernel
  obtain ⟨m, x, hx, hP⟩ := System.exists_hist hrun
  obtain ⟨hm, hpub, hc⟩ := of_decide_eq_true hP
  have hx' : agent.Hist noteMark (fun _ _ _ => True) (fun _ => none) (booted twoDisks) m x :=
    hx.mono fun _ _ _ _ => trivial
  exact ⟨m, x, hx', hpub, (exit_reported_iff hx' hc rfl hpub).mpr ⟨3, hm, rfl⟩⟩

/-- Without one, the container is reported to run. -/
theorem exit_not_reported : ¬ ∀ (disks : List Disk) (x : AgentConf) (id : String) (c : Container) (p : ℕ)
    (st : ExitStatus), agent.Reach (fun _ _ => True) (booted disks) x →
    x.shared.mgr.containers.lookup id = some c → c.pid = some p →
    x.shared.published.lookup p = some st → x.shared.Reports id st.code := by
  intro h
  have hrun : (agent.exec (fun _ _ => true) (booted twoDisks) publishRun).any (fun x =>
      decide (x.shared.mgr.containers.lookup "web" = some ⟨some 10, none, .running⟩ ∧
        x.shared.published.lookup 10 = some ⟨3, "now"⟩)) = true := by decide +kernel
  obtain ⟨x, hx, hP⟩ := System.exists_reach hrun
  obtain ⟨hc, hpub⟩ := of_decide_eq_true hP
  obtain ⟨hst, -⟩ := h twoDisks x "web" _ 10 _ (hx.mono fun _ _ _ => trivial) hc rfl hpub
  rw [Guest.state, hc] at hst
  cases hst

end CloudHv.Agent
