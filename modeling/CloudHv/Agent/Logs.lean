import CloudHv.Agent.Tables

/-!
# Logs — streaming a container's output

A `start` makes one buffer for the container's output, which two readers fill, one for each stream, and
which the exit task marks as complete.  `GetContainerLogs` returns what the buffer has from an offset
on, with one offset for both streams: the length of the longer one.

So a stream that is behind the other when a client reads loses what it gets later, up to that offset;
and because the exit task does not wait for the readers, a client can be told that it has seen
everything when it has not.  `seen` in the discipline below is what a call has read: a response is made
of that and of the call's own offset.
-/

namespace CloudHv.Agent

open Conc

/-! ### The buffers -/

/-- The output captured for the child `p`. -/
def Guest.content (g : Guest) (p : ℕ) : ContainerLogs := (g.logBufs.lookup p).getD ⟨[], [], false⟩

def ContainerLogs.length (l : ContainerLogs) : Stream → ℕ
  | .stdout => l.stdout.length
  | .stderr => l.stderr.length

/-- A buffer belongs to a child that there is. -/
def Guest.BufsKnown (g : Guest) : Prop := ∀ p, p ∈ g.logBufs → p ∈ g.procs

theorem prepares_logBufs (is : List ℕ) : Prepares (Method.SameBy Guest.logBufs) is :=
  ⟨fun _ _ _ _ => rfl, fun _ _ => rfl, fun _ _ => rfl, fun _ _ => rfl⟩

theorem create_logBufs {io : Io} {req : CreateRequest} {g g' : Guest} {r : Except Err ℕ}
    (h : Method.exec (create io req) g = (r, g')) : g'.logBufs = g.logBufs := by
  rcases Method.exec_bind_cases h with ⟨e, he, rfl⟩ | ⟨_, g₁, h₁, h₂⟩
  · exact (prepareBundle_keeps io req (prepares_logBufs _)).of_exec he
  · have hk := (prepareBundle_keeps io req (prepares_logBufs _)).of_exec h₁
    obtain ⟨-, rfl⟩ := Prod.mk.inj h₂
    exact hk

/-- The child whose output a task reads. -/
def TaskName.readerOf : TaskName → Option ℕ
  | .reader p _ => some p
  | _ => none

/-- What an action can do to the buffers, with the readers it starts. -/
inductive BufEffect (g : Guest) : (a : Action) → Answer a → Guest → Prop
  | none {a : Action} {r : Answer a} {g' : Guest} : g'.logBufs = g.logBufs → spawned a r = [] →
      BufEffect g a r g'
  | made {a : Action} {r : Answer a} {g' : Guest} {p : ℕ} : p ∉ g.procs → p ∈ g'.procs →
      g'.logBufs = g.logBufs.insert p ⟨[], [], false⟩ →
      (∀ t ∈ spawned a r, ∀ q, t.readerOf = some q → q = p) → BufEffect g a r g'
  | append {p : ℕ} {s : Stream} {bytes : List UInt8} :
      BufEffect g (.capture p s) (some bytes) (g.append p s bytes)
  | close {p : ℕ} : BufEffect g (.setEof p) () (g.setEof p)

/-- The tasks of a new child read its own output. -/
theorem readers_of_start {p : ℕ} {t : TaskName}
    (ht : t ∈ [TaskName.reader p .stdout, .reader p .stderr, .exitTask p]) (q : ℕ) (hq : t.readerOf = some q) :
    q = p := by
  simp only [List.mem_cons, List.not_mem_nil, or_false] at ht
  rcases ht with rfl | rfl | rfl
  · exact (Option.some.inj hq).symm
  · exact (Option.some.inj hq).symm
  · cases hq

theorem bufs_step {g g' : Guest} {a : Action} {c : Choice} {r : Answer a}
    (hp : perform g a c = some (r, g')) : BufEffect g a r g' := by
  cases a with
  | create req => exact .none (create_logBufs (Option.some.inj hp)) rfl
  | start id =>
    obtain ⟨hf, -, he⟩ := execSpawn_some hp
    rcases start_spec he with ⟨e, rfl, rfl⟩ | ⟨rfl, -, rfl⟩
    · exact .none rfl rfl
    · exact .made hf (Finmap.mem_insert.mpr (.inl rfl)) rfl fun _ => readers_of_start
  | run req =>
    obtain ⟨hf, -, he⟩ := execSpawn_some hp
    rcases run_cases he with ⟨e, he', rfl⟩ | ⟨p, g₁, h₁, h₂⟩
    · exact .none (create_logBufs he') rfl
    · have hbuf := create_logBufs h₁
      rcases start_spec h₂ with ⟨e, rfl, rfl⟩ | ⟨rfl, -, rfl⟩
      · exact .none hbuf rfl
      · exact .made hf (Finmap.mem_insert.mpr (.inl rfl)) (by rw [← hbuf]; rfl) fun _ => readers_of_start
  | kill id sig =>
    obtain rfl := (kill_spec (Option.some.inj hp)).1
    exact .none rfl rfl
  | delete id =>
    rcases delete_cases (Option.some.inj hp) with ⟨e, -, rfl⟩ | ⟨-, rfl⟩
    · exact .none rfl rfl
    · exact .none rfl rfl
  | adopt o n =>
    obtain ⟨⟨m, rfl⟩, -⟩ := adopt_spec (Option.some.inj hp)
    exact .none rfl rfl
  | markStopped id code =>
    obtain ⟨rfl, rfl⟩ := Prod.mk.inj (Option.some.inj hp)
    unfold Guest.markStopped
    split <;> exact .none rfl rfl
  | procExit p code =>
    simp only [perform] at hp
    split at hp
    · obtain ⟨rfl, rfl⟩ := Prod.mk.inj (Option.some.inj hp)
      exact .none rfl rfl
    · cases hp
  | select rx =>
    simp only [perform] at hp
    split at hp
    · obtain ⟨rfl, rfl⟩ := Prod.mk.inj (Option.some.inj hp)
      exact .none rfl rfl
    · cases hp
  | waitForExit pid =>
    simp only [perform] at hp
    split at hp
    · obtain ⟨rfl, rfl⟩ := Prod.mk.inj (Option.some.inj hp)
      exact .none rfl rfl
    · cases hp
  | capture buf s =>
    simp only [perform] at hp
    split at hp
    · obtain ⟨rfl, rfl⟩ := Prod.mk.inj (Option.some.inj hp)
      exact .append
    · obtain ⟨rfl, rfl⟩ := Prod.mk.inj (Option.some.inj hp)
      exact .none rfl rfl
  | setEof buf =>
    obtain ⟨rfl, rfl⟩ := Prod.mk.inj (Option.some.inj hp)
    exact .close
  | send _ _ | state _ | getExitReceiver _ | borrow _ | utcNow | getLogBuffer _ | readLogs _ | respond _
  | dropSender _ =>
    obtain ⟨rfl, rfl⟩ := Prod.mk.inj (Option.some.inj hp)
    exact .none rfl rfl

theorem append_lookup (g : Guest) (p q : ℕ) (s : Stream) (bytes : List UInt8) :
    (g.append p s bytes).logBufs.lookup q =
      if q = p then (g.logBufs.lookup p).map (·.append bytes s) else g.logBufs.lookup q := by
  unfold Guest.append
  split
  · next hl =>
    rw [hl]
    split
    · next hq => rw [hq, hl]; rfl
    · rfl
  · next l hl =>
    rw [Finmap.lookup_insert_eq, hl]
    rfl

theorem setEof_lookup (g : Guest) (p q : ℕ) :
    (g.setEof p).logBufs.lookup q =
      if q = p then (g.logBufs.lookup p).map ({ · with eof := true }) else g.logBufs.lookup q := by
  unfold Guest.setEof
  split
  · next hl =>
    rw [hl]
    split
    · next hq => rw [hq, hl]; rfl
    · rfl
  · next l hl =>
    rw [Finmap.lookup_insert_eq, hl]
    rfl

theorem bufsKnown_step {g g' : Guest} {a : Action} {c : Choice} {r : Answer a} (h : g.BufsKnown)
    (hp : perform g a c = some (r, g')) : g'.BufsKnown := by
  have hmono : ∀ {p}, p ∈ g.procs → p ∈ g'.procs := (tables_step hp).procs_mono
  intro p hin
  obtain ⟨l, hl⟩ := Finmap.mem_iff.mp hin
  cases bufs_step hp with
  | none he _ => exact hmono (h p (by rwa [← he]))
  | made hf hq he _ =>
    rw [he, Finmap.mem_insert] at hin
    rcases hin with rfl | hin
    · exact hq
    · exact hmono (h p hin)
  | append =>
    rw [append_lookup] at hl
    split at hl
    · next heq =>
      obtain ⟨l₀, hl₀, -⟩ := Option.map_eq_some_iff.mp hl
      exact hmono (h p (heq ▸ Finmap.mem_of_lookup hl₀))
    · exact hmono (h p (Finmap.mem_of_lookup hl))
  | close =>
    rw [setEof_lookup] at hl
    split at hl
    · next heq =>
      obtain ⟨l₀, hl₀, -⟩ := Option.map_eq_some_iff.mp hl
      exact hmono (h p (heq ▸ Finmap.mem_of_lookup hl₀))
    · exact hmono (h p (Finmap.mem_of_lookup hl))

/-! ### What a task has read -/

/-- `reads` is the child whose output a reader still has to read; `offset` is the one a call was made
with; `buf` and `seen` are the buffer it was given and what it read there; `missed` says that it was
given none; `said` is the offset and the end mark of its response. -/
structure LogStage where
  reads : Option ℕ
  offset : ℕ
  buf : Option ℕ
  seen : Option (ℕ × ContainerLogs)
  missed : Bool
  said : Option (ℕ × Bool)

def LogStage.blank : LogStage := ⟨none, 0, none, none, false, none⟩

def LogStage.init : TaskName → LogStage
  | .reader p _ => { LogStage.blank with reads := some p }
  | .getContainerLogs _ off => { LogStage.blank with offset := off }
  | _ => LogStage.blank

def LogStage.upd (s : LogStage) : (a : Action) → Answer a → LogStage
  | .getLogBuffer _, some p => { s with buf := some p, reads := none }
  | .getLogBuffer _, none => { s with missed := true, reads := none }
  | .readLogs p, l => { s with seen := some (p, l), reads := none }
  | .respond (.logs _ _ off eof), _ => { s with said := some (off, eof), reads := none }
  | _, _ => { s with reads := none }

/-- A reader reads for its own child, once; a call reads the buffer it was given before it responds,
with what it read from its offset on, or with nothing when it was given none. -/
def LogStage.req (s : LogStage) : Action → Prop
  | .capture p _ => s.reads = some p
  | .readLogs p => s.buf = some p ∧ s.seen = none ∧ s.said = none
  | .respond (.logs out err off eof) =>
    (∃ p l, s.seen = some (p, l) ∧ out = l.stdout.drop s.offset ∧ err = l.stderr.drop s.offset ∧
      off = max l.stdout.length l.stderr.length ∧ eof = l.eof) ∨
    (s.missed = true ∧ out = [] ∧ err = [] ∧ off = 0 ∧ eof = true)
  | _ => True

def logTasks : Discipline Action Answer LogStage := ⟨LogStage.upd, LogStage.req, fun _ _ _ => True⟩

theorem logTasks_body (t : TaskName) : wp logTasks t.body (fun _ _ => True) (LogStage.init t) := by
  cases t with
  | reader p s => exact ⟨rfl, fun _ _ => trivial⟩
  | getContainerLogs id off =>
    refine ⟨trivial, fun r _ => ?_⟩
    cases r with
    | none => exact ⟨.inr ⟨rfl, rfl, rfl, rfl, rfl⟩, fun _ _ => trivial⟩
    | some buf =>
      exact ⟨⟨rfl, rfl, rfl⟩, fun l _ => ⟨.inl ⟨buf, l, rfl, rfl, rfl, rfl, rfl⟩, fun _ _ => trivial⟩⟩
  | _ =>
    refine body_unwatched _ (fun a ha => ?_) trivial
    cases a with
    | respond resp =>
      cases resp with
      | logs out err off eof => cases ha
      | _ => exact ⟨trivial, fun _ _ => rfl⟩
    | capture p s => cases ha
    | readLogs p => cases ha
    | getLogBuffer id => cases ha
    | _ => exact ⟨trivial, fun _ _ => rfl⟩

abbrev logStages (x : AgentConf) : List LogStage := x.threads.map (System.ghost logTasks LogStage.init)

/-- Every action ends the one read of a reader. -/
theorem upd_reads (s : LogStage) (a : Action) (r : Answer a) : (s.upd a r).reads = none := by
  cases a with
  | getLogBuffer id => cases r <;> rfl
  | respond resp => cases resp <;> rfl
  | _ => rfl

/-- A task that has still to read is a reader that has done nothing yet. -/
theorem ghost_reads {t : Thread Action Answer TaskName} {p : ℕ} :
    (System.ghost logTasks LogStage.init t).reads = some p ↔ t.task.readerOf = some p ∧ t.log = [] := by
  obtain ⟨task, prog, log⟩ := t
  rcases List.eq_nil_or_concat log with rfl | ⟨l, ⟨a, r⟩, rfl⟩
  · have hinit : (LogStage.init task).reads = task.readerOf := by cases task <;> rfl
    show (LogStage.init task).reads = some p ↔ _
    rw [hinit]
    exact ⟨fun h => ⟨h, rfl⟩, fun h => h.1⟩
  · rw [List.concat_eq_append, System.ghost_concat]
    show (LogStage.upd _ a r).reads = some p ↔ _
    rw [upd_reads]
    constructor
    · intro h
      cases h
    · rintro ⟨-, h⟩
      exact absurd h (by simp)

/-! ### The end of the output -/

/-- Some reader of the child `p` has not come to the end of its stream. -/
def reading (x : AgentConf) (p : ℕ) : Bool := x.threads.any fun t => t.task.readerOf = some p && t.log.isEmpty

/-- The buffer that a call has read. -/
def readFrom (t : Thread Action Answer TaskName) : Option ℕ :=
  t.log.foldl (fun b e => match e with
    | ⟨.readLogs p, _⟩ => some p
    | _ => b) none

/-- The offset and the end mark that a call has answered with. -/
def answered (t : Thread Action Answer TaskName) : Option (ℕ × Bool) :=
  t.log.foldl (fun b e => match e with
    | ⟨.respond (.logs _ _ off eof), _⟩ => some (off, eof)
    | _ => b) none

/-- The steps that tell the end only at the end: the exit task closes a buffer when both readers are
done, and logs are asked for only of a container that was started. -/
def drained (x : AgentConf) : Event Action Answer TaskName → Bool
  | .act _ (.setEof p) _ => !reading x p
  | .act _ (.getLogBuffer id) _ => id ∈ x.shared.mgr.logs
  | _ => true

/-- A closed buffer has no reader left, and a call that was told the end has read all there is. -/
structure EofInv (g : Guest) (ss : List LogStage) : Prop where
  known : g.BufsKnown
  readers : ∀ s ∈ ss, ∀ p, s.reads = some p → p ∈ g.procs
  quiet : ∀ p l, g.logBufs.lookup p = some l → l.eof = true → ∀ s ∈ ss, s.reads ≠ some p
  given : ∀ s ∈ ss, s.missed = false
  seen : ∀ s ∈ ss, ∀ p l, s.seen = some (p, l) → l.eof = true → g.logBufs.lookup p = some l
  said : ∀ s ∈ ss, ∀ off, s.said = some (off, true) →
    ∃ p l, s.seen = some (p, l) ∧ l.eof = true ∧ off = max l.stdout.length l.stderr.length

theorem notReading {x : AgentConf} {p : ℕ} :
    reading x p = false ↔ ∀ s ∈ logStages x, s.reads ≠ some p := by
  constructor
  · intro h s hs he
    obtain ⟨t, ht, rfl⟩ := List.mem_map.mp hs
    obtain ⟨hr, hl⟩ := ghost_reads.mp he
    rw [reading, List.any_eq_false] at h
    exact h t ht (by simp [hr, hl])
  · intro h
    rw [reading, List.any_eq_false]
    intro t ht hr
    simp only [Bool.and_eq_true, decide_eq_true_eq, List.isEmpty_iff] at hr
    exact h _ (List.mem_map_of_mem ht) (ghost_reads.mpr hr)

/-- A closed buffer stays as it is. -/
theorem EofInv.stable {g g' : Guest} {ss : List LogStage} {s : LogStage} {a : Action} {c : Choice}
    {r : Answer a} (h : EofInv g ss) (hs : s ∈ ss) (hreq : s.req a) (hp : perform g a c = some (r, g'))
    {p : ℕ} {l : ContainerLogs} (hl : g.logBufs.lookup p = some l) (he : l.eof = true) :
    g'.logBufs.lookup p = some l := by
  cases bufs_step hp with
  | none hb _ => rw [hb, hl]
  | @made _ _ _ q hf _ hb _ =>
    have hne : p ≠ q := by
      rintro rfl
      exact hf (h.known p (Finmap.mem_of_lookup hl))
    rw [hb, Finmap.lookup_insert_eq, if_neg hne, hl]
  | @append q _ _ =>
    have hne : p ≠ q := by
      rintro rfl
      exact h.quiet p l hl he s hs hreq
    rw [append_lookup, if_neg hne, hl]
  | @close q =>
    rw [setEof_lookup]
    by_cases hpq : p = q
    · rw [if_pos hpq, ← hpq, hl, Option.map_some, ← he]
    · rw [if_neg hpq, hl]

/-- The stages after a step: the acting task's new one, the old ones of the others, and those of new
readers. -/
theorem mem_stages {ss : List LogStage} {i : ℕ} {s' u : LogStage} {ts : List TaskName}
    (hu : u ∈ ss.set i s' ++ ts.map LogStage.init) :
    u = s' ∨ u ∈ ss ∨ ∃ t ∈ ts, u = LogStage.init t := by
  rcases List.mem_append.mp hu with hu | hu
  · rcases List.mem_or_eq_of_mem_set hu with hu | hu
    · exact .inr (.inl hu)
    · exact .inl hu
  · obtain ⟨t, ht, rfl⟩ := List.mem_map.mp hu
    exact .inr (.inr ⟨t, ht, rfl⟩)

theorem init_clean (t : TaskName) : (LogStage.init t).missed = false ∧ (LogStage.init t).seen = none ∧
    (LogStage.init t).said = none ∧ (LogStage.init t).reads = t.readerOf := by
  cases t <;> exact ⟨rfl, rfl, rfl, rfl⟩

/-- What the acting task knows after its action. -/
theorem EofInv.acting {x : AgentConf} {g' : Guest} {i : ℕ} {s : LogStage} {a : Action} {c : Choice}
    {r : Answer a} (h : EofInv x.shared (logStages x)) (hs : s ∈ logStages x) (hreq : s.req a)
    (hp : perform x.shared a c = some (r, g')) (hok : drained x (.act i a r) = true) :
    (s.upd a r).missed = false ∧
    (∀ p l, (s.upd a r).seen = some (p, l) → l.eof = true → g'.logBufs.lookup p = some l) ∧
    ∀ off, (s.upd a r).said = some (off, true) →
      ∃ p l, (s.upd a r).seen = some (p, l) ∧ l.eof = true ∧ off = max l.stdout.length l.stderr.length := by
  have hsame : (∀ p l, s.seen = some (p, l) → l.eof = true → g'.logBufs.lookup p = some l) :=
    fun p l hl he => h.stable hs hreq hp (h.seen s hs p l hl he) he
  cases a with
  | getLogBuffer id =>
    obtain ⟨rfl, rfl⟩ := Prod.mk.inj (Option.some.inj hp)
    simp only [drained, decide_eq_true_eq] at hok
    obtain ⟨p, hl⟩ := Finmap.mem_iff.mp hok
    rw [hl]
    exact ⟨h.given s hs, hsame, h.said s hs⟩
  | readLogs p =>
    obtain ⟨rfl, rfl⟩ := Prod.mk.inj (Option.some.inj hp)
    refine ⟨h.given s hs, fun q l hl he => ?_, fun off hoff => ?_⟩
    · obtain ⟨rfl, rfl⟩ := Prod.mk.inj (Option.some.inj hl)
      cases hb : x.shared.logBufs.lookup p with
      | none =>
        rw [hb] at he
        cases he
      | some l => rfl
    · have hoff' : s.said = some (off, true) := hoff
      rw [hreq.2.2] at hoff'
      cases hoff'
  | respond resp =>
    cases resp with
    | logs out err off eof =>
      refine ⟨h.given s hs, hsame, fun off' hoff => ?_⟩
      obtain ⟨rfl, rfl⟩ := Prod.mk.inj (Option.some.inj hoff)
      rcases hreq with ⟨p, l, hseen, -, -, ho, he⟩ | ⟨hm, -⟩
      · exact ⟨p, l, hseen, he.symm, ho⟩
      · rw [h.given s hs] at hm
        cases hm
    | _ => exact ⟨h.given s hs, hsame, h.said s hs⟩
  | _ => exact ⟨h.given s hs, hsame, h.said s hs⟩

theorem eof_step {x : AgentConf} {g' : Guest} {i : ℕ} {s : LogStage} {a : Action} {c : Choice} {r : Answer a}
    (h : EofInv x.shared (logStages x)) (hi : (logStages x)[i]? = some s) (hreq : s.req a)
    (hp : perform x.shared a c = some (r, g')) (hok : drained x (.act i a r) = true) :
    EofInv g' ((logStages x).set i (s.upd a r) ++ (spawned a r).map LogStage.init) := by
  have hs := List.mem_of_getElem? hi
  have hmono : ∀ {p}, p ∈ x.shared.procs → p ∈ g'.procs := (tables_step hp).procs_mono
  obtain ⟨hgiven, hseen, hsaid⟩ := h.acting hs hreq hp hok
  -- the new readers read for a child that there is, into a buffer that is not closed
  have hnew : ∀ t ∈ spawned a r, ∀ q, t.readerOf = some q → q ∈ g'.procs ∧
      ∀ l, g'.logBufs.lookup q = some l → l.eof = false := by
    intro t ht q hq
    cases bufs_step hp with
    | none _ hsp =>
      rw [hsp] at ht
      cases ht
    | @made _ _ _ p _ hin hb hsp =>
      rw [hsp t ht q hq]
      refine ⟨hin, fun l hl => ?_⟩
      rw [hb, Finmap.lookup_insert] at hl
      rw [← Option.some.inj hl]
    | @append p st bytes =>
      obtain rfl := List.mem_singleton.mp ht
      obtain rfl : p = q := Option.some.inj hq
      refine ⟨hmono (h.readers s hs p hreq), fun l hl => ?_⟩
      rw [append_lookup, if_pos rfl] at hl
      obtain ⟨l₀, hl₀, rfl⟩ := Option.map_eq_some_iff.mp hl
      have hopen : l₀.eof = false := by
        by_contra he
        exact h.quiet p l₀ hl₀ (by simpa using he) s hs hreq
      cases st <;> exact hopen
    | close => cases ht
  -- a buffer that is closed now was closed before, or is the one that the exit task closes
  have hquiet : ∀ p l, g'.logBufs.lookup p = some l → l.eof = true → ∀ u ∈ logStages x, u.reads ≠ some p := by
    intro p l hl he
    cases bufs_step hp with
    | none hb _ => exact h.quiet p l (hb ▸ hl) he
    | @made _ _ _ q _ _ hb _ =>
      rw [hb, Finmap.lookup_insert_eq] at hl
      split at hl
      · rw [← Option.some.inj hl] at he
        cases he
      · exact h.quiet p l hl he
    | @append q st bytes =>
      rw [append_lookup] at hl
      split at hl
      · next hpq =>
        obtain ⟨l₀, hl₀, rfl⟩ := Option.map_eq_some_iff.mp hl
        have he₀ : l₀.eof = true := by cases st <;> exact he
        exact absurd hreq (h.quiet q l₀ hl₀ he₀ s hs)
      · exact h.quiet p l hl he
    | @close q =>
      rw [setEof_lookup] at hl
      split at hl
      · next hpq =>
        simp only [drained, Bool.not_eq_true'] at hok
        rw [hpq]
        exact notReading.mp hok
      · exact h.quiet p l hl he
  refine ⟨bufsKnown_step h.known hp, fun u hu p hup => ?_, fun p l hl he u hu hup => ?_, fun u hu => ?_,
    fun u hu p l hl he => ?_, fun u hu off hoff => ?_⟩
  · rcases mem_stages hu with rfl | hu | ⟨t, ht, rfl⟩
    · rw [upd_reads] at hup
      cases hup
    · exact hmono (h.readers u hu p hup)
    · rw [(init_clean t).2.2.2] at hup
      exact (hnew t ht p hup).1
  · rcases mem_stages hu with rfl | hu | ⟨t, ht, rfl⟩
    · rw [upd_reads] at hup
      cases hup
    · exact hquiet p l hl he u hu hup
    · rw [(init_clean t).2.2.2] at hup
      rw [(hnew t ht p hup).2 l hl] at he
      cases he
  · rcases mem_stages hu with rfl | hu | ⟨t, ht, rfl⟩
    · exact hgiven
    · exact h.given u hu
    · exact (init_clean t).1
  · rcases mem_stages hu with rfl | hu | ⟨t, ht, rfl⟩
    · exact hseen p l hl he
    · exact h.stable hs hreq hp (h.seen u hu p l hl he) he
    · rw [(init_clean t).2.1] at hl
      cases hl
  · rcases mem_stages hu with rfl | hu | ⟨t, ht, rfl⟩
    · exact hsaid off hoff
    · exact h.said u hu off hoff
    · rw [(init_clean t).2.2.1] at hoff
      cases hoff

theorem eof_inv {disks : List Disk} {x : AgentConf}
    (h : agent.Reach (fun x e => drained x e = true) (booted disks) x) : EofInv x.shared (logStages x) := by
  refine (System.Reach.inv EofInv (fun _ => True) logTasks_body ?_ (fun t ht => by cases ht) ?_ ?_ h).1
  · refine ⟨fun p hp => absurd hp Finmap.notMem_empty, fun s hs => (by cases hs), fun p l hl => ?_,
      fun s hs => (by cases hs), fun s hs => (by cases hs), fun s hs => (by cases hs)⟩
    simp only [booted, Guest.boot, Finmap.lookup_empty] at hl
    cases hl
  · intro x t hI hext _
    have hnone : t.readerOf = none := by
      cases t with
      | reader p s => cases hext
      | _ => rfl
    obtain ⟨hm, hse, hsa, hr⟩ := init_clean t
    have hcase : ∀ u, u ∈ logStages x ++ [LogStage.init t] → u ∈ logStages x ∨ u = LogStage.init t := by
      intro u hu
      rcases List.mem_append.mp hu with hu | hu
      · exact .inl hu
      · exact .inr (List.mem_singleton.mp hu)
    refine ⟨hI.known, fun u hu p hup => ?_, fun p l hl he u hu hup => ?_, fun u hu => ?_,
      fun u hu p l hl he => ?_, fun u hu off hoff => ?_⟩
    · rcases hcase u hu with hu | rfl
      · exact hI.readers u hu p hup
      · rw [hr, hnone] at hup
        cases hup
    · rcases hcase u hu with hu | rfl
      · exact hI.quiet p l hl he u hu hup
      · rw [hr, hnone] at hup
        cases hup
    · rcases hcase u hu with hu | rfl
      · exact hI.given u hu
      · exact hm
    · rcases hcase u hu with hu | rfl
      · exact hI.seen u hu p l hl he
      · rw [hse] at hl
        cases hl
    · rcases hcase u hu with hu | rfl
      · exact hI.said u hu off hoff
      · rw [hsa] at hoff
        cases hoff
  · exact fun x i s a c r g' hI hi hreq hp hok => ⟨trivial, eof_step hI hi hreq hp hok⟩

/-- What a task has read and answered, from its log. -/
theorem ghost_views (t : Thread Action Answer TaskName) :
    ((System.ghost logTasks LogStage.init t).seen.map (·.1) = readFrom t) ∧
      (System.ghost logTasks LogStage.init t).said = answered t := by
  obtain ⟨-, hseen, hsaid, -⟩ := init_clean t.task
  constructor
  · refine System.ghost_view (fun s : LogStage => s.seen.map (·.1)) _ t (by rw [hseen]) fun s a r => ?_
    cases a with
    | getLogBuffer id => cases r <;> rfl
    | respond resp => cases resp <;> rfl
    | _ => rfl
  · refine System.ghost_view LogStage.said _ t hsaid fun s a r => ?_
    cases a with
    | getLogBuffer id => cases r <;> rfl
    | respond resp => cases resp <;> rfl
    | _ => rfl

/-- **The end is the end.**  In every run whose steps are `drained`, a call that was told the end has
read a container's buffer to which nothing was added since and nothing will be: both readers are done,
and neither stream goes beyond the offset of that response. -/
theorem eof_is_final {disks : List Disk} {x : AgentConf} {t : Thread Action Answer TaskName} {off : ℕ}
    (h : agent.Reach (fun x e => drained x e = true) (booted disks) x) (ht : t ∈ x.threads)
    (ha : answered t = some (off, true)) :
    ∃ p, readFrom t = some p ∧ reading x p = false ∧ (x.shared.content p).stdout.length ≤ off ∧
      (x.shared.content p).stderr.length ≤ off := by
  have hI := eof_inv h
  obtain ⟨hread, hans⟩ := ghost_views t
  have hs : System.ghost logTasks LogStage.init t ∈ logStages x := List.mem_map_of_mem ht
  obtain ⟨p, l, hseen, he, hoff⟩ := hI.said _ hs off (hans.trans ha)
  have hl := hI.seen _ hs p l hseen he
  refine ⟨p, ?_, notReading.mpr (hI.quiet p l hl he), ?_, ?_⟩
  · rw [← hread, hseen]
    rfl
  · rw [Guest.content, hl, hoff]
    exact Nat.le_max_left _ _
  · rw [Guest.content, hl, hoff]
    exact Nat.le_max_right _ _

/-- Thread `i`, a reader, gets the bytes. -/
def chunk (i : ℕ) (bytes : List UInt8) : Label Choice TaskName := .sched i ⟨Io.ok 10, .changed, "now", some bytes⟩

/-- The container runs and exits; `before` is what happens until the exit task closes the log, after
which it is polled once. -/
def eofRun (before : List (Label Choice TaskName)) (poller : ℕ) : List (Label Choice TaskName) :=
  [.arrive (.runContainer oneContainer), go 0 .changed, .arrive (.procExit 10 0), go 4 .changed,
    go 3 .changed, go 3 .changed, go 3 .changed] ++ before ++ [go 3 .changed,
    .arrive (.getContainerLogs "web" 0), go poller .changed, go poller .changed, go poller .changed]

/-- Both readers came to the end of their streams before the log was closed. -/
theorem eof_is_final_drained : ∃ x t, agent.Reach (fun x e => drained x e = true) (booted twoDisks) x ∧
    t ∈ x.threads ∧ answered t = some (1, true) ∧ ∃ p, readFrom t = some p ∧ reading x p = false ∧
      (x.shared.content p).stdout.length ≤ 1 ∧ (x.shared.content p).stderr.length ≤ 1 := by
  have hrun : (agent.exec drained (booted twoDisks)
      (eofRun [chunk 1 [104], go 5 .changed, go 2 .changed] 6)).any (fun x =>
        x.threads.any fun t => answered t = some (1, true)) = true := by decide +kernel
  obtain ⟨x, hx, hP⟩ := System.exists_reach hrun
  obtain ⟨t, ht, ha⟩ := List.any_eq_true.mp hP
  rw [decide_eq_true_eq] at ha
  exact ⟨x, t, hx, ht, ha, eof_is_final hx ht ha⟩

/-- The log is closed and polled before the reader of stdout got a byte, which is read after it. -/
theorem eof_too_early : ¬ ∀ (disks : List Disk) (x : AgentConf) (t : Thread Action Answer TaskName) (off : ℕ),
    agent.Reach (fun _ _ => True) (booted disks) x → t ∈ x.threads → answered t = some (off, true) →
    ∃ p, readFrom t = some p ∧ reading x p = false ∧ (x.shared.content p).stdout.length ≤ off ∧
      (x.shared.content p).stderr.length ≤ off := by
  intro h
  have hrun : (agent.exec (fun _ _ => true) (booted twoDisks) (eofRun [] 5 ++ [chunk 1 [104]])).any (fun x =>
      decide ((x.shared.content 10).stdout.length = 1) &&
        x.threads.any fun t => answered t = some (0, true) && readFrom t = some 10) = true := by decide +kernel
  obtain ⟨x, hx, hP⟩ := System.exists_reach hrun
  rw [Bool.and_eq_true] at hP
  obtain ⟨t, ht, ha⟩ := List.any_eq_true.mp hP.2
  simp only [Bool.and_eq_true, decide_eq_true_eq] at ha
  obtain ⟨p, hp, -, hlen, -⟩ := h twoDisks x t 0 (hx.mono fun _ _ _ => trivial) ht ha.1
  obtain rfl := Option.some.inj (hp.symm.trans ha.2)
  rw [of_decide_eq_true hP.1] at hlen
  omega

end CloudHv.Agent
