import CloudHv.Agent.Tables

/-!
# Records — what the agent's maps say about the container an id has now

Two things a client takes for granted.  The exit receiver and the log buffer of an id are those of the
container that has the id now: `delete` forgets the record and leaves the other two entries, and
`create` and `adopt` can put a record over them.  And a record goes from `Created` over `Running` to
`Stopped`: no method looks at the state before it writes one, so that is up to the order of the calls.
-/

namespace CloudHv.Agent

open Conc

/-! ### Receivers and logs -/

namespace Tables

/-- An entry for an id is that of the record the id has: the child that made it is the record's. -/
def Current (t : Tables) : Prop :=
  ∀ id p, t.receivers.lookup id = some p ∨ t.logs.lookup id = some p →
    ∃ c, t.containers.lookup id = some c ∧ c.pid = some p

/-- The id has an exit receiver or a log buffer. -/
def entered (t : Tables) (id : String) : Bool := id ∈ t.receivers || id ∈ t.logs

theorem entered_of_lookup {t : Tables} {id : String} {p : ℕ}
    (h : t.receivers.lookup id = some p ∨ t.logs.lookup id = some p) : t.entered id = true := by
  unfold entered
  rcases h with h | h
  · simp [Finmap.mem_of_lookup h]
  · simp [Finmap.mem_of_lookup h]

/-- What `adopt` needs so that no entry of `n` is left for the record that comes there. -/
def covers (t : Tables) (o n : String) : Bool :=
  decide (o ∉ t.containers) || ((decide (n ∉ t.receivers) || decide (o ∈ t.receivers)) &&
    (decide (n ∉ t.logs) || decide (o ∈ t.logs)))

end Tables

/-- The steps that leave no entry behind: no container that was started is deleted, none is created
over such entries (a `run` replaces them when it succeeds), and `adopt` does not leave the entries of
its new id in place. -/
def tidy (x : AgentConf) : Event Action Answer TaskName → Bool
  | .act _ (.delete id) _ => !x.shared.tables.entered id
  | .act _ (.create req) _ | .act _ (.run req) (.error _) => !x.shared.tables.entered req.containerId
  | .act _ (.adopt o n) _ => x.shared.tables.covers o n
  | _ => true

/-- What a client is given to wait on or to read from is of the container that has the id now. -/
def OfCurrent (x : AgentConf) : Event Action Answer TaskName → Prop
  | .act _ (.getExitReceiver id) (some p) | .act _ (.getLogBuffer id) (some p) =>
      ∃ c, x.shared.mgr.containers.lookup id = some c ∧ c.pid = some p
  | _ => True

namespace Tables.Current

variable {t : Tables}

/-- A change of the records alone, none of them one with an entry. -/
theorem of_records (h : t.Current) {t' : Tables} (hr : t'.receivers = t.receivers) (hl : t'.logs = t.logs)
    (hc : ∀ id c, t.entered id = true → t.containers.lookup id = some c →
      ∃ c', t'.containers.lookup id = some c' ∧ c'.pid = c.pid) : t'.Current := by
  intro id p he
  rw [hr, hl] at he
  obtain ⟨c, hlook, hp⟩ := h id p he
  obtain ⟨c', hc', hpid⟩ := hc id c (entered_of_lookup he) hlook
  exact ⟨c', hc', hpid.trans hp⟩

theorem created (h : t.Current) {id : String} (hn : t.entered id = false) : (t.created id).Current := by
  refine h.of_records rfl rfl fun i c hi hc => ⟨c, ?_, rfl⟩
  have hne : i ≠ id := by
    rintro rfl
    rw [hn] at hi
    cases hi
  rw [Tables.created, Finmap.lookup_insert_eq, if_neg hne, hc]

theorem deleted (h : t.Current) {id : String} (hn : t.entered id = false) : (t.deleted id).Current := by
  refine h.of_records rfl rfl fun i c hi hc => ⟨c, ?_, rfl⟩
  have hne : i ≠ id := by
    rintro rfl
    rw [hn] at hi
    cases hi
  rw [Tables.deleted, Finmap.lookup_erase_eq, if_neg hne, hc]

/-- A start makes the entries and the record's pid together. -/
theorem started {id : String} {c : Container} {p : ℕ}
    (h : ∀ i q, i ≠ id → t.receivers.lookup i = some q ∨ t.logs.lookup i = some q →
      ∃ d, t.containers.lookup i = some d ∧ d.pid = some q) : (t.started id c p).Current := by
  intro i q he
  simp only [Tables.started, Finmap.lookup_insert_eq] at he ⊢
  by_cases hi : i = id
  · simp only [if_pos hi, or_self, Option.some.injEq] at he
    exact ⟨_, by rw [if_pos hi], by rw [he]⟩
  · simp only [if_neg hi] at he ⊢
    exact h i q hi he

/-- The entries that are under the new id are the ones that came with the record. -/
theorem adopted (h : t.Current) {o n : String} {c : Container} (hc : t.containers.lookup o = some c)
    (hcov : t.covers o n = true) : (t.adopted o n c).Current := by
  have hmove : ∀ (m : Finmap (fun _ : String => ℕ)) (i : String) (q : ℕ), (n ∈ m → o ∈ m) →
      (moveKey m o n).lookup i = some q →
      (i = n ∧ m.lookup o = some q) ∨ (i ≠ n ∧ i ≠ o ∧ m.lookup i = some q) := by
    intro m i q hno hi
    unfold moveKey at hi
    split at hi
    · next v hv =>
      rw [Finmap.lookup_insert_eq, Finmap.lookup_erase_eq] at hi
      split at hi
      · next hin => exact .inl ⟨hin, by rw [hv, ← Option.some.inj hi]⟩
      · next hin =>
        split at hi
        · cases hi
        · next hio => exact .inr ⟨hin, hio, hi⟩
    · next hv =>
      -- `o` has no entry, so neither has `n`
      have ho : o ∉ m := fun ho => by
        obtain ⟨v, hv'⟩ := Finmap.mem_iff.mp ho
        rw [hv] at hv'
        cases hv'
      refine .inr ⟨?_, ?_, hi⟩
      · rintro rfl
        exact ho (hno (Finmap.mem_of_lookup hi))
      · rintro rfl
        exact ho (Finmap.mem_of_lookup hi)
  have hin : o ∈ t.containers := Finmap.mem_of_lookup hc
  simp only [Tables.covers, hin, not_true_eq_false, decide_false, Bool.false_or, Bool.and_eq_true,
    Bool.or_eq_true, decide_eq_true_eq] at hcov
  have hrec : n ∈ t.receivers → o ∈ t.receivers := fun hn => hcov.1.resolve_left fun h => h hn
  have hlog : n ∈ t.logs → o ∈ t.logs := fun hn => hcov.2.resolve_left fun h => h hn
  -- both entries of an id go with the same record
  have hboth : ∀ i q, (t.adopted o n c).receivers.lookup i = some q ∨ (t.adopted o n c).logs.lookup i = some q →
      (i = n ∧ (t.receivers.lookup o = some q ∨ t.logs.lookup o = some q)) ∨
        (i ≠ n ∧ i ≠ o ∧ (t.receivers.lookup i = some q ∨ t.logs.lookup i = some q)) := by
    rintro i q (hi | hi)
    · rcases hmove _ i q hrec hi with ⟨h₁, h₂⟩ | ⟨h₁, h₂, h₃⟩
      · exact .inl ⟨h₁, .inl h₂⟩
      · exact .inr ⟨h₁, h₂, .inl h₃⟩
    · rcases hmove _ i q hlog hi with ⟨h₁, h₂⟩ | ⟨h₁, h₂, h₃⟩
      · exact .inl ⟨h₁, .inr h₂⟩
      · exact .inr ⟨h₁, h₂, .inr h₃⟩
  intro i q hi
  simp only [Tables.adopted, Finmap.lookup_insert_eq, Finmap.lookup_erase_eq]
  rcases hboth i q hi with ⟨hn, ho⟩ | ⟨hn, ho, hi⟩
  · obtain ⟨d, hd, hq⟩ := h o q ho
    obtain rfl := Option.some.inj (hc.symm.trans hd)
    exact ⟨c, if_pos hn, hq⟩
  · rw [if_neg hn, if_neg ho]
    exact h i q hi

theorem marked (h : t.Current) {id : String} {c : Container} {code : ℤ}
    (hc : t.containers.lookup id = some c) : (t.marked id c code).Current := by
  refine h.of_records rfl rfl fun i d _ hd => ?_
  rw [Tables.marked, Finmap.lookup_insert_eq]
  by_cases hi : i = id
  · subst hi
    obtain rfl := Option.some.inj (hc.symm.trans hd)
    exact ⟨_, if_pos rfl, rfl⟩
  · exact ⟨d, by rw [if_neg hi, hd], rfl⟩

end Tables.Current

/-- One action that is tidy leaves every entry with its record. -/
theorem current_step {x : AgentConf} {i : ℕ} {a : Action} {r : Answer a} {t' : Tables}
    (hsane : x.shared.tables.Sane) (h : x.shared.tables.Current) (he : Effect x.shared.tables a r t')
    (hok : tidy x (.act i a r) = true) : t'.Current := by
  cases he with
  | none => exact h
  | create => exact h.created (by simpa [tidy] using hok)
  | runHalf => exact h.created (by simpa [tidy] using hok)
  | @run req p hf =>
    refine Tables.Current.started fun j q hj hq => ?_
    obtain ⟨d, hd, hp⟩ := h j q hq
    exact ⟨d, by rw [Tables.created, Finmap.lookup_insert_eq, if_neg hj, hd], hp⟩
  | start hc hf => exact Tables.Current.started fun j q _ hq => h j q hq
  | delete => exact h.deleted (by simpa [tidy] using hok)
  | @drop o n c r hc hn =>
    -- every record has a pid
    obtain ⟨p, hp, -⟩ := hsane.record o c hc
    rw [hn] at hp
    cases hp
  | adopt hc hp => exact h.adopted hc hok
  | mark hc => exact h.marked hc
  | exit hp => exact h
  | send => exact h

theorem current_of_tidy {disks : List Disk} {x : AgentConf}
    (h : agent.Reach (fun x e => tidy x e = true) (booted disks) x) : x.shared.tables.Current := by
  have hall : x.shared.tables.Sane ∧ x.shared.tables.Current := by
    refine System.Reach.shared (fun g => g.tables.Sane ∧ g.tables.Current) ?_ ?_ h
    · have h₀ : agent.Reach (fun _ _ => True) (booted disks) (booted disks) := .init
      refine ⟨tables_sane h₀, fun id p he => ?_⟩
      simp only [booted, Guest.boot, Guest.tables, Finmap.lookup_empty] at he
      rcases he with he | he <;> cases he
    · intro x i a c r g' hI hp hok
      exact ⟨hI.1.effect (tables_step hp), current_step hI.1 hI.2 (tables_step hp) hok⟩
  exact hall.2

/-- **Entries go with their container.**  In every run whose steps are `tidy`, an id has a receiver or
a log buffer only of the container that has the id now, and so has every call that asks for one. -/
theorem entries_current {disks : List Disk} {x : AgentConf}
    (h : agent.Reach (fun x e => tidy x e = true) (booted disks) x) :
    (∀ id p, x.shared.mgr.exitReceivers.lookup id = some p ∨ x.shared.mgr.logs.lookup id = some p →
      ∃ c, x.shared.mgr.containers.lookup id = some c ∧ c.pid = some p) ∧
    ∀ e y, agent.Step x e y → OfCurrent x e := by
  have hcur := current_of_tidy h
  refine ⟨hcur, fun e y hs => ?_⟩
  cases hs with
  | arrive _ => trivial
  | @act i t a k l c r s' hi hp =>
    cases a with
    | getExitReceiver id =>
      obtain ⟨rfl, rfl⟩ := Prod.mk.inj (Option.some.inj hp)
      cases hr : x.shared.getExitReceiver id with
      | none => trivial
      | some p => exact hcur id p (.inl hr)
    | getLogBuffer id =>
      obtain ⟨rfl, rfl⟩ := Prod.mk.inj (Option.some.inj hp)
      cases hr : x.shared.mgr.logs.lookup id with
      | none => trivial
      | some p => exact hcur id p (.inr hr)
    | _ => trivial

/-- The container runs, and its log is asked for. -/
theorem entries_current_running : ∃ x, agent.Reach (fun x e => tidy x e = true) (booted twoDisks) x ∧
    x.shared.mgr.exitReceivers.lookup "web" = some 10 ∧
    ∃ c, x.shared.mgr.containers.lookup "web" = some c ∧ c.pid = some 10 := by
  have hrun : (agent.exec tidy (booted twoDisks) [.arrive (.runContainer oneContainer), go 0 .changed]).any
      (fun x => decide (x.shared.mgr.exitReceivers.lookup "web" = some 10)) = true := by decide +kernel
  obtain ⟨x, hx, hP⟩ := System.exists_reach hrun
  rw [decide_eq_true_eq] at hP
  exact ⟨x, hx, hP, (entries_current hx).1 "web" 10 (.inl hP)⟩

/-- The container is deleted while it runs: its receiver and its log stay. -/
theorem delete_leaves_entries : ¬ ∀ (disks : List Disk) (x : AgentConf),
    agent.Reach (fun _ _ => True) (booted disks) x →
    (∀ id p, x.shared.mgr.exitReceivers.lookup id = some p ∨ x.shared.mgr.logs.lookup id = some p →
      ∃ c, x.shared.mgr.containers.lookup id = some c ∧ c.pid = some p) ∧
    ∀ e y, agent.Step x e y → OfCurrent x e := by
  intro h
  have hrun : (agent.exec (fun _ _ => true) (booted twoDisks) [.arrive (.runContainer oneContainer),
      go 0 .changed, .arrive (.deleteContainer "web"), go 4 .changed]).any (fun x =>
        decide (x.shared.mgr.exitReceivers.lookup "web" = some 10 ∧
          x.shared.mgr.containers.lookup "web" = none)) = true := by decide +kernel
  obtain ⟨x, hx, hP⟩ := System.exists_reach hrun
  obtain ⟨hr, hn⟩ := of_decide_eq_true hP
  obtain ⟨c, hc, -⟩ := (h twoDisks x (hx.mono fun _ _ _ => trivial)).1 "web" 10 (.inl hr)
  rw [hn] at hc
  cases hc

/-! ### The life of a record -/

/-- `Created`, then `Running`, then `Stopped`. -/
inductive ContainerState.Moves : ContainerState → ContainerState → Prop
  | stays (s : ContainerState) : Moves s s
  | starts : Moves .created .running
  | stops : Moves .running .stopped

/-- The calls in their order: a container is started once, an id is created or taken over by `adopt`
only when it is free, and a wait that comes to its end does not find a container that was created
again. -/
def orderly (x : AgentConf) : Event Action Answer TaskName → Bool
  | .act _ (.start id) _ => (x.shared.mgr.containers.lookup id).all fun c => c.state = .created
  | .act _ (.create req) _ | .act _ (.run req) _ => req.containerId ∉ x.shared.mgr.containers
  | .act _ (.adopt o n) _ => n = o || o ∉ x.shared.mgr.containers || n ∉ x.shared.mgr.containers
  | .act _ (.markStopped id _) _ => (x.shared.mgr.containers.lookup id).all fun c => c.state ≠ .created
  | _ => true

/-- The step deletes the record of `id`, or adopts it away. -/
def Removes (id : String) : Event Action Answer TaskName → Prop
  | .act _ (.delete id') _ => id' = id
  | .act _ (.adopt o _) _ => o = id
  | _ => False

/-- A record that is not taken away moves along its life; only a created container is started, and a
container is created only under a free id. -/
def InOrder (x : AgentConf) (e : Event Action Answer TaskName) (y : AgentConf) : Prop :=
  (∀ id c, x.shared.mgr.containers.lookup id = some c → ¬ Removes id e →
    ∃ c', y.shared.mgr.containers.lookup id = some c' ∧ c.state.Moves c'.state) ∧
  match e with
  | .act _ (.start id) (.ok _) => ∃ c, x.shared.mgr.containers.lookup id = some c ∧ c.state = .created
  | .act _ (.create req) (.ok _) | .act _ (.run req) (.ok _) => req.containerId ∉ x.shared.mgr.containers
  | _ => True

/-- A record has an exit code only when it is stopped. -/
def Tables.Coded (t : Tables) : Prop :=
  ∀ id c, t.containers.lookup id = some c → c.state ≠ .stopped → c.exitCode = none

/-- What a step in order does to the records: the ones it does not take away move along, and the codes
stay with stopped containers. -/
theorem orderly_step {x : AgentConf} {i : ℕ} {a : Action} {r : Answer a} {t' : Tables}
    (h : x.shared.tables.Coded) (he : Effect x.shared.tables a r t') (hok : orderly x (.act i a r) = true) :
    t'.Coded ∧ ∀ id c, x.shared.mgr.containers.lookup id = some c → ¬ Removes id (.act i a r) →
      ∃ c', t'.containers.lookup id = some c' ∧ c.state.Moves c'.state := by
  -- an insertion under `k` is in order if it is so for `k`
  have hins : ∀ (k : String) (d : Container), (d.state ≠ .stopped → d.exitCode = none) →
      (∀ c, x.shared.mgr.containers.lookup k = some c → c.state.Moves d.state) →
      (∀ id c, (x.shared.mgr.containers.insert k d).lookup id = some c → c.state ≠ .stopped →
        c.exitCode = none) ∧
      ∀ id c, x.shared.mgr.containers.lookup id = some c →
        ∃ c', (x.shared.mgr.containers.insert k d).lookup id = some c' ∧ c.state.Moves c'.state := by
    intro k d hd hm
    refine ⟨fun id c hc => ?_, fun id c hc => ?_⟩
    · rw [Finmap.lookup_insert_eq] at hc
      split at hc
      · rw [← Option.some.inj hc]
        exact hd
      · exact h id c hc
    · rw [Finmap.lookup_insert_eq]
      by_cases hid : id = k
      · subst hid
        exact ⟨d, if_pos rfl, hm c hc⟩
      · exact ⟨c, by rw [if_neg hid, hc], .stays _⟩
  have hstay : ∀ id c, x.shared.mgr.containers.lookup id = some c →
      ∃ c', x.shared.mgr.containers.lookup id = some c' ∧ c.state.Moves c'.state :=
    fun id c hc => ⟨c, hc, .stays _⟩
  cases he with
  | none => exact ⟨h, fun id c hc _ => hstay id c hc⟩
  | @create req r =>
    simp only [orderly, decide_eq_true_eq] at hok
    obtain ⟨h₁, h₂⟩ := hins req.containerId ⟨some agentPid, none, .created⟩ (fun _ => rfl)
      fun c hc => absurd (Finmap.mem_of_lookup hc) hok
    exact ⟨h₁, fun id c hc _ => h₂ id c hc⟩
  | @runHalf req e =>
    simp only [orderly, decide_eq_true_eq] at hok
    obtain ⟨h₁, h₂⟩ := hins req.containerId ⟨some agentPid, none, .created⟩ (fun _ => rfl)
      fun c hc => absurd (Finmap.mem_of_lookup hc) hok
    exact ⟨h₁, fun id c hc _ => h₂ id c hc⟩
  | @run req p hf =>
    simp only [orderly, decide_eq_true_eq] at hok
    obtain ⟨h₁, h₂⟩ := hins req.containerId ⟨some p, none, .running⟩ (fun _ => rfl)
      fun c hc => absurd (Finmap.mem_of_lookup hc) hok
    have hcon : ((x.shared.tables.created req.containerId).started req.containerId
        ⟨some agentPid, none, .created⟩ p).containers =
        x.shared.mgr.containers.insert req.containerId ⟨some p, none, .running⟩ := Finmap.insert_insert _
    refine ⟨fun id c hc => h₁ id c (hcon ▸ hc), fun id c hc _ => ?_⟩
    rw [hcon]
    exact h₂ id c hc
  | @start id c p hc hf =>
    simp only [orderly] at hok
    have hst : c.state = .created := by
      rw [show x.shared.mgr.containers.lookup id = some c from hc, Option.all_some, decide_eq_true_eq] at hok
      exact hok
    have hnone := h id c hc (by rw [hst]; exact fun he => by cases he)
    obtain ⟨h₁, h₂⟩ := hins id { c with state := .running, pid := some p } (fun _ => hnone) fun d hd => by
      obtain rfl := Option.some.inj (hd.symm.trans hc)
      rw [hst]
      exact .starts
    exact ⟨h₁, fun id c hc _ => h₂ id c hc⟩
  | @delete id r =>
    refine ⟨fun i c hc => ?_, fun i c hc hrem => ?_⟩
    · exact h i c (Finmap.lookup_of_erase hc).2
    · refine ⟨c, ?_, .stays _⟩
      rw [Tables.deleted, Finmap.lookup_erase_eq, if_neg fun he => hrem he.symm]
      exact hc
  | @drop o n c r hc hn =>
    refine ⟨fun i d hd => ?_, fun i d hd hrem => ?_⟩
    · exact h i d (Finmap.lookup_of_erase hd).2
    · refine ⟨d, ?_, .stays _⟩
      rw [Tables.dropped, Finmap.lookup_erase_eq, if_neg fun he => hrem he.symm]
      exact hd
  | @adopt o n c p hc hp =>
    simp only [orderly, Bool.or_eq_true, decide_eq_true_eq] at hok
    have hn : n = o ∨ n ∉ x.shared.mgr.containers :=
      hok.imp_left fun hl => hl.resolve_right fun ho => ho (Finmap.mem_of_lookup hc)
    refine ⟨fun i d hd => ?_, fun i d hd hrem => ?_⟩
    · rw [Tables.adopted, Finmap.lookup_insert_eq, Finmap.lookup_erase_eq] at hd
      split at hd
      · rw [← Option.some.inj hd]
        exact h o c hc
      · split at hd
        · cases hd
        · exact h i d hd
    · have hio : i ≠ o := fun he => hrem he.symm
      have hin : i ≠ n := by
        rintro rfl
        exact hn.elim hio fun hno => hno (Finmap.mem_of_lookup hd)
      refine ⟨d, ?_, .stays _⟩
      rw [Tables.adopted, Finmap.lookup_insert_eq, if_neg hin, Finmap.lookup_erase_eq, if_neg hio]
      exact hd
  | @mark id c code hc =>
    simp only [orderly] at hok
    obtain ⟨h₁, h₂⟩ := hins id { c with state := .stopped, exitCode := some code } (fun hs => absurd rfl hs)
      fun d hd => by
        rw [hd, Option.all_some, decide_eq_true_eq] at hok
        cases hs : d.state with
        | created => exact absurd hs hok
        | running => exact .stops
        | stopped => exact .stays _
    exact ⟨h₁, fun id c hc _ => h₂ id c hc⟩
  | exit hp => exact ⟨h, fun id c hc _ => hstay id c hc⟩
  | send => exact ⟨h, fun id c hc _ => hstay id c hc⟩

theorem coded_of_orderly {disks : List Disk} {x : AgentConf}
    (h : agent.Reach (fun x e => orderly x e = true) (booted disks) x) : x.shared.tables.Coded := by
  refine System.Reach.shared (fun g => g.tables.Coded) (fun id c hc => ?_) ?_ h
  · simp only [booted, Guest.boot, Guest.tables, Finmap.lookup_empty] at hc
    cases hc
  · exact fun x i a c r g' hI hp hok => (orderly_step hI (tables_step hp) hok).1

/-- **A record lives once.**  In every run whose steps are `orderly`, a record that is not deleted or
adopted away goes from `Created` over `Running` to `Stopped`, a start succeeds only on a created
container, a create only for a free id, and a record has no exit code until it is stopped. -/
theorem records_in_order {disks : List Disk} {x : AgentConf}
    (h : agent.Reach (fun x e => orderly x e = true) (booted disks) x) :
    (∀ id c, x.shared.mgr.containers.lookup id = some c → c.state ≠ .stopped → c.exitCode = none) ∧
    ∀ e y, agent.Step x e y → orderly x e = true → InOrder x e y := by
  have hcoded := coded_of_orderly h
  refine ⟨hcoded, fun e y hs hok => ?_⟩
  cases hs with
  | arrive _ => exact ⟨fun id c hc _ => ⟨c, hc, .stays _⟩, trivial⟩
  | @act i t a k l c r s' hi hp =>
    refine ⟨(orderly_step hcoded (tables_step hp) hok).2, ?_⟩
    cases a with
    | start id =>
      cases r with
      | error e => trivial
      | ok p =>
        obtain ⟨-, -, hex⟩ := execSpawn_some hp
        rcases start_spec hex with ⟨e, he, -⟩ | ⟨-, hid, -⟩
        · cases he
        · obtain ⟨d, hd⟩ := Finmap.mem_iff.mp hid
          simp only [orderly, hd, Option.all_some, decide_eq_true_eq] at hok
          exact ⟨d, hd, hok⟩
    | create req =>
      cases r with
      | error e => trivial
      | ok p => simpa [orderly] using hok
    | run req =>
      cases r with
      | error e => trivial
      | ok p => simpa [orderly] using hok
    | _ => trivial

/-- The container runs, exits with code 3 and is marked stopped. -/
def stopRun : List (Label Choice TaskName) :=
  [.arrive (.runContainer oneContainer), go 0 .changed, .arrive (.procExit 10 3), go 4 .changed,
    go 3 .changed, go 3 .changed, go 3 .changed, .arrive (.waitContainer "web"), go 5 .changed,
    go 5 .changed, go 5 .changed]

theorem records_in_order_stopped : ∃ x, agent.Reach (fun x e => orderly x e = true) (booted twoDisks) x ∧
    x.shared.mgr.containers.lookup "web" = some ⟨some 10, some 3, .stopped⟩ ∧
    ∀ id c, x.shared.mgr.containers.lookup id = some c → c.state ≠ .stopped → c.exitCode = none := by
  have hrun : (agent.exec orderly (booted twoDisks) stopRun).any (fun x =>
      decide (x.shared.mgr.containers.lookup "web" = some ⟨some 10, some 3, .stopped⟩)) = true := by
    decide +kernel
  obtain ⟨x, hx, hP⟩ := System.exists_reach hrun
  exact ⟨x, hx, of_decide_eq_true hP, (records_in_order hx).1⟩

/-- The stopped container is started again: it runs, with the exit code of its first life. -/
theorem started_again_with_code : ¬ ∀ (disks : List Disk) (x : AgentConf),
    agent.Reach (fun _ _ => True) (booted disks) x →
    (∀ id c, x.shared.mgr.containers.lookup id = some c → c.state ≠ .stopped → c.exitCode = none) ∧
    ∀ e y, agent.Step x e y → InOrder x e y := by
  intro h
  have hrun : (agent.exec (fun _ _ => true) (booted twoDisks) (stopRun ++ [.arrive (.startContainer "web"),
      .sched 6 ⟨Io.ok 11, .changed, "now", none⟩])).any (fun x =>
        decide (x.shared.mgr.containers.lookup "web" = some ⟨some 11, some 3, .running⟩)) = true := by
    decide +kernel
  obtain ⟨x, hx, hP⟩ := System.exists_reach hrun
  have hc := (h twoDisks x (hx.mono fun _ _ _ => trivial)).1 "web" _ (of_decide_eq_true hP) (by decide)
  cases hc

end CloudHv.Agent
