import CloudHv.Agent.Container

/-!
# Methods — what the container manager's methods do to the guest

One specification for each method of the manager, stated on the state before and after.  Everything
`create` does before it enters the container in the table leaves the `core` of the guest alone: the
tables, the children, the channels, the disks.
-/

namespace CloudHv.Agent

open Method

/-! ### create -/

/-- A relation that the effects of preparing a bundle with the layers `is` keep: mounts, the bundle's
`config.json`, the disks that are known. -/
structure Prepares (R : Guest → Guest → Prop) (is : List ℕ) : Prop where
  layer : ∀ g i target, i ∈ is →
    R g { g with mounts := g.mounts ++ [⟨"/dev/" ++ layerDevice i, target, "erofs"⟩] }
  overlay : ∀ g target, R g { g with mounts := g.mounts ++ [⟨"overlay", target, "overlay"⟩] }
  config : ∀ g id, R g { g with configs := insert id g.configs }
  disks : ∀ g ds, R g { g with mgr := { g.mgr with knownDisks := ds } }

section Prepare

variable {R : Guest → Guest → Prop} [Std.Refl R]

theorem checkAs_keeps (io : Io) (c : OsCall) (w : String → Err) : Keeps R (io.checkAs c w) := by
  unfold Io.checkAs
  split
  · exact .pure _
  · exact .throw _

theorem failIf_keeps (c : Prop) [Decidable c] (e : Err) : Keeps R (failIf c e) := .ite (.throw _) (.pure _)

variable [IsTrans Guest R] {is : List ℕ} (hR : Prepares R is)
include hR

theorem mountLayer_keeps (io : Io) (id : String) {i : ℕ} (hi : i ∈ is) : Keeps R (mountLayer io id i) :=
  (checkAs_keeps io _ _).bind fun _ => Keeps.get.bind fun _ => (failIf_keeps _ _).bind fun _ =>
    (checkAs_keeps io _ _).bind fun _ => Keeps.bind (.modify fun g => hR.layer g i _ hi) fun _ => .pure _

theorem mountLayers_keeps (io : Io) (id : String) : ∀ js, js ⊆ is → Keeps R (mountLayers io id js)
  | [], _ => .pure _
  | _ :: js, hj => (mountLayer_keeps hR io id (hj List.mem_cons_self)).bind fun _ =>
    (mountLayers_keeps io id js fun _ hk => hj (List.mem_cons_of_mem _ hk)).bind fun _ => .pure _

omit hR in
theorem forM_keeps {α : Type} {f : α → GuestM PUnit} (hf : ∀ x, Keeps R (f x)) :
    ∀ l : List α, Keeps R (l.forM f)
  | [] => .pure _
  | x :: l => (hf x).bind fun _ => forM_keeps hf l

theorem writeConfig_keeps (io : Io) (req : CreateRequest) : Keeps R (writeConfig io req) :=
  .ite ((checkAs_keeps io _ _).bind fun _ => .modify fun g => hR.config g _)
    (Keeps.get.bind fun _ => failIf_keeps _ _)

omit hR in
theorem writeInlineVolume_keeps (io : Io) (v : VolumeInfo) : Keeps R (writeInlineVolume io v) := by
  have hfile : ∀ f, Keeps R (writeInlineFile io f) := fun f =>
    .ite (.pure _) ((checkAs_keeps io _ _).bind fun _ => (checkAs_keeps io _ _).bind fun _ =>
      .ite (checkAs_keeps io _ _) (.pure _))
  exact .ite (.pure _) ((checkAs_keeps io _ _).bind fun _ => forM_keeps hfile _)

omit [IsTrans Guest R] in
theorem discoverBlockDevice_keeps (io : Io) : Keeps R (discoverBlockDevice io) := by
  intro g
  simp only [discoverBlockDevice, exec_bind, exec_get]
  split
  · split
    · exact hR.disks g _
    · exact Std.Refl.refl g
  · exact Std.Refl.refl g

theorem adaptOciSpecForVm_keeps (io : Io) (b : String) (vs : List VolumeInfo) :
    Keeps R (adaptOciSpecForVm io b vs) :=
  (checkAs_keeps io _ _).bind fun _ => (checkAs_keeps io _ _).bind fun _ =>
    (forM_keeps (fun _ => Keeps.bind (.ite (discoverBlockDevice_keeps hR io) (.pure _)) fun _ => .pure _)
      vs).bind fun _ => checkAs_keeps io _ _

omit hR in
theorem prepareBundle_keeps (io : Io) (req : CreateRequest) (hR : Prepares R (List.range req.erofsLayers)) :
    Keeps R (prepareBundle io req) :=
  (failIf_keeps _ _).bind fun _ => (checkAs_keeps io _ _).bind fun _ =>
  (checkAs_keeps io _ _).bind fun _ => (mountLayers_keeps hR io _ _ fun _ h => h).bind fun _ =>
  (checkAs_keeps io _ _).bind fun _ => (checkAs_keeps io _ _).bind fun _ =>
  (checkAs_keeps io _ _).bind fun _ => Keeps.bind (.modify fun g => hR.overlay g _) fun _ =>
  (writeConfig_keeps hR io req).bind fun _ => (forM_keeps (writeInlineVolume_keeps io) _).bind fun _ =>
  (checkAs_keeps io _ _).bind fun _ => adaptOciSpecForVm_keeps hR io _ _

end Prepare

/-- What the preparation of a bundle does not touch. -/
def Guest.core (g : Guest) :=
  (g.mgr.containers, g.mgr.exitReceivers, g.mgr.logs, g.procs, g.published, g.closed, g.crun, g.disks)

theorem prepares_core (is : List ℕ) : Prepares (SameBy Guest.core) is :=
  ⟨fun _ _ _ _ => rfl, fun _ _ => rfl, fun _ _ => rfl, fun _ _ => rfl⟩

/-- The table with a container that was created and not started. -/
def Guest.withCreated (g : Guest) (id : String) : Guest :=
  { g with mgr := { g.mgr with containers := g.mgr.containers.insert id ⟨some agentPid, none, .created⟩ } }

/-- A failed `create` leaves the core alone; a successful one enters the container. -/
theorem create_spec {io : Io} {req : CreateRequest} {g g' : Guest} {r : Except Err ℕ}
    (h : exec (create io req) g = (r, g')) :
    (∃ e, r = .error e ∧ g'.core = g.core) ∨
      (r = .ok agentPid ∧ ∃ g₁ : Guest, g₁.core = g.core ∧ g' = g₁.withCreated req.containerId) := by
  rcases exec_bind_cases h with ⟨e, he, rfl⟩ | ⟨_, g₁, h₁, h₂⟩
  · exact .inl ⟨e, rfl, (prepareBundle_keeps io req (prepares_core _)).of_exec he⟩
  · obtain ⟨rfl, rfl⟩ := Prod.mk.inj h₂
    exact .inr ⟨rfl, g₁, (prepareBundle_keeps io req (prepares_core _)).of_exec h₁, rfl⟩

/-! ### start, run -/

theorem exec_checkAs_cases {io : Io} {c : OsCall} {w : String → Err} {g g' : Guest} {r : Except Err Unit}
    (h : exec (io.checkAs c w) g = (r, g')) : g' = g ∧ ((∃ e, r = .error e) ∨ r = .ok ()) := by
  unfold Io.checkAs at h
  split at h
  · obtain ⟨rfl, rfl⟩ := Prod.mk.inj h
    exact ⟨rfl, .inr rfl⟩
  · obtain ⟨rfl, rfl⟩ := Prod.mk.inj h
    exact ⟨rfl, .inl ⟨_, rfl⟩⟩

/-- A failed `start` changes nothing; a successful one needs the container in the table. -/
theorem start_spec {io : Io} {id : String} {g g' : Guest} {r : Except Err ℕ}
    (h : exec (start io id) g = (r, g')) :
    (∃ e, r = .error e ∧ g' = g) ∨
      (r = .ok io.pid ∧ id ∈ g.mgr.containers ∧ g' = (g.spawnChild id io.pid).recordStart id io.pid) := by
  simp only [start, exec_bind, exec_get, failIf] at h
  by_cases hid : id ∈ g.mgr.containers
  · simp only [hid, not_true_eq_false, if_false, exec_pure] at h
    rcases hc : exec (io.checkWith .spawnCrun ("spawn crun run (bundle=" ++ mountPoint id ++ ")")) g
      with ⟨q, g₁⟩
    obtain ⟨rfl, hq⟩ := exec_checkAs_cases hc
    rw [hc] at h
    rcases hq with ⟨e, rfl⟩ | rfl
    · obtain ⟨rfl, rfl⟩ := Prod.mk.inj h
      exact .inl ⟨e, rfl, rfl⟩
    · obtain ⟨rfl, rfl⟩ := Prod.mk.inj h
      exact .inr ⟨rfl, hid, rfl⟩
  · simp only [hid, not_false_eq_true, if_true, exec_throw] at h
    obtain ⟨rfl, rfl⟩ := Prod.mk.inj h
    exact .inl ⟨_, rfl, rfl⟩

/-- `run` is a `create` and, if that succeeds, a `start`. -/
theorem run_cases {io : Io} {req : CreateRequest} {g g' : Guest} {r : Except Err ℕ}
    (h : exec (run io req) g = (r, g')) :
    (∃ e, exec (create io req) g = (.error e, g') ∧ r = .error e) ∨
      ∃ p g₁, exec (create io req) g = (.ok p, g₁) ∧ exec (start io req.containerId) g₁ = (r, g') :=
  exec_bind_cases h

/-- A child gets a pid that no child had, and not the agent's own. -/
theorem execSpawn_some {α : Type} {g g' : Guest} {io : Io} {m : GuestM α} {r : Except Err α}
    (h : g.execSpawn io m = some (r, g')) :
    io.pid ∉ g.procs ∧ io.pid ≠ agentPid ∧ exec m g = (r, g') := by
  unfold Guest.execSpawn at h
  split at h
  · cases h
  · next hn => exact ⟨fun hp => hn (.inl hp), fun hp => hn (.inr hp), Option.some.inj h⟩

/-! ### kill, delete, adopt -/

theorem crunKill_cases (g : Guest) (io : Io) (id : String) :
    (g.crunResolves id = none ∧ ∃ stderr, g.crunKill io id = .error stderr ∧ saysNotFound stderr = true) ∨
      ∃ p, g.crunResolves id = some p ∧ (g.crunKill io id = .ok p ∨
        ∃ stderr, g.crunKill io id = .error stderr ∧ saysNotFound stderr = false) := by
  unfold Guest.crunKill
  cases g.crunResolves id with
  | none => exact .inl ⟨rfl, _, rfl, io.unknown id⟩
  | some p =>
    refine .inr ⟨p, rfl, ?_⟩
    cases hf : io.fail .crunKill with
    | none => exact .inl rfl
    | some stderr => exact .inr ⟨stderr, rfl, io.known stderr hf⟩

/-- `kill` changes nothing.  It is quiet about a container whose record says stopped, and about one
crun does not know. -/
theorem kill_spec {io : Io} {id : String} {sig : ℕ} {g g' : Guest} {r : Except Err KillOutcome}
    (h : exec (kill io id sig) g = (r, g')) :
    g' = g ∧ ∀ o, r = .ok o →
      (o = .alreadyStopped ∧ (g.mgr.containers.lookup id).map (·.state) = some .stopped) ∨
      (o = .notFound ∧ g.crunResolves id = none) ∨ ∃ p, o = .signalled p sig ∧ g.crunResolves id = some p := by
  simp only [kill, exec_bind, exec_get] at h
  split at h
  · next hs =>
    obtain ⟨rfl, rfl⟩ := Prod.mk.inj h
    exact ⟨rfl, fun o ho => .inl ⟨(Except.ok.inj ho).symm, hs⟩⟩
  · rcases exec_bind_cases h with ⟨e, he, rfl⟩ | ⟨_, g₁, h₁, h₂⟩
    · exact ⟨(exec_checkAs_cases he).1, fun o ho => by cases ho⟩
    · obtain rfl := (exec_checkAs_cases h₁).1
      rcases crunKill_cases g₁ io id with ⟨hc, stderr, hk, hs⟩ | ⟨p, hc, hk | ⟨stderr, hk, hs⟩⟩
      · simp only [hk, hs, if_true] at h₂
        obtain ⟨rfl, rfl⟩ := Prod.mk.inj h₂
        exact ⟨rfl, fun o ho => .inr (.inl ⟨(Except.ok.inj ho).symm, hc⟩)⟩
      · simp only [hk] at h₂
        obtain ⟨rfl, rfl⟩ := Prod.mk.inj h₂
        exact ⟨rfl, fun o ho => .inr (.inr ⟨p, (Except.ok.inj ho).symm, hc⟩)⟩
      · simp only [hk, hs, if_neg Bool.false_ne_true] at h₂
        obtain ⟨rfl, rfl⟩ := Prod.mk.inj h₂
        exact ⟨rfl, fun o ho => by cases ho⟩

/-- The guest without the container, in crun's table and in the manager's. -/
def Guest.without (g : Guest) (id : String) : Guest :=
  { g with crun := g.crun.erase id, mgr := { g.mgr with containers := g.mgr.containers.erase id } }

/-- A failed `delete` changes nothing; a successful one takes the container out. -/
theorem delete_cases {io : Io} {id : String} {g g' : Guest} {r : Except Err (ℕ × ℤ)}
    (h : exec (delete io id) g = (r, g')) :
    (∃ e, r = .error e ∧ g' = g) ∨
      (r = .ok (((g.mgr.containers.lookup id).bind (·.pid)).getD 0,
        ((g.mgr.containers.lookup id).bind (·.exitCode)).getD 0) ∧ g' = g.without id) := by
  rcases exec_bind_cases h with ⟨e, he, rfl⟩ | ⟨_, g₁, h₁, h₂⟩
  · exact .inl ⟨e, rfl, (exec_checkAs_cases he).1⟩
  · obtain rfl := (exec_checkAs_cases h₁).1
    simp only [exec_bind, exec_get, exec_set] at h₂
    split at h₂
    · next c hc =>
      obtain ⟨rfl, rfl⟩ := Prod.mk.inj h₂
      exact .inr ⟨by rw [hc]; rfl, rfl⟩
    · next hc =>
      obtain ⟨rfl, rfl⟩ := Prod.mk.inj h₂
      exact .inr ⟨by rw [hc]; rfl, rfl⟩

theorem delete_spec {io : Io} {id : String} {g g' : Guest} {r : Except Err (ℕ × ℤ)}
    (h : exec (delete io id) g = (r, g')) : g' = g ∨ g' = g.without id := by
  rcases delete_cases h with ⟨_, -, rfl⟩ | ⟨-, rfl⟩
  · exact .inl rfl
  · exact .inr rfl

/-- The guest after the record of `o` went, with no more done. -/
def Guest.dropped (g : Guest) (o : String) : Guest :=
  { g with mgr := { g.mgr with containers := g.mgr.containers.erase o } }

/-- The guest after the record `c` of `o` and what goes with it moved to `n`. -/
def Guest.adopted (g : Guest) (o n : String) (c : Container) : Guest :=
  { g with mgr := { g.mgr with
    exitReceivers := moveKey g.mgr.exitReceivers o n
    logs := moveKey g.mgr.logs o n
    containers := (g.mgr.containers.erase o).insert n c } }

/-- `adopt` fails for an id that is not there and for a record without a pid, which it loses; else it
moves the record and its entries. -/
theorem adopt_cases {o n : String} {g g' : Guest} {r : Except Err ℕ}
    (h : exec (adopt o n) g = (r, g')) :
    (g.mgr.containers.lookup o = none ∧ (∃ e, r = .error e) ∧ g' = g) ∨
      ∃ c, g.mgr.containers.lookup o = some c ∧
        ((c.pid = none ∧ (∃ e, r = .error e) ∧ g' = g.dropped o) ∨
          ∃ p, c.pid = some p ∧ r = .ok p ∧ g' = g.adopted o n c) := by
  simp only [adopt, exec_bind, exec_get] at h
  split at h
  · next hc =>
    obtain ⟨rfl, rfl⟩ := Prod.mk.inj h
    exact .inl ⟨hc, ⟨_, rfl⟩, rfl⟩
  · next c hc =>
    simp only [exec_bind, exec_set] at h
    split at h
    · next hp =>
      obtain ⟨rfl, rfl⟩ := Prod.mk.inj h
      exact .inr ⟨c, hc, .inl ⟨hp, ⟨_, rfl⟩, rfl⟩⟩
    · next p hp =>
      simp only [exec_bind, exec_modify, exec_pure] at h
      obtain ⟨rfl, rfl⟩ := Prod.mk.inj h
      exact .inr ⟨c, hc, .inr ⟨p, hp, rfl, rfl⟩⟩

/-- `adopt` changes the manager only.  Its table loses `oldId` and, when the record has a pid, gets
the record under `newId`. -/
theorem adopt_spec {o n : String} {g g' : Guest} {r : Except Err ℕ}
    (h : exec (adopt o n) g = (r, g')) : (∃ m, g' = { g with mgr := m }) ∧
      (g'.mgr.containers = g.mgr.containers ∨ g'.mgr.containers = g.mgr.containers.erase o ∨
        ∃ c, g.mgr.containers.lookup o = some c ∧
          g'.mgr.containers = (g.mgr.containers.erase o).insert n c) := by
  rcases adopt_cases h with ⟨-, -, rfl⟩ | ⟨c, hc, ⟨-, -, rfl⟩ | ⟨p, -, -, rfl⟩⟩
  · exact ⟨⟨_, rfl⟩, .inl rfl⟩
  · exact ⟨⟨_, rfl⟩, .inr (.inl rfl)⟩
  · exact ⟨⟨_, rfl⟩, .inr (.inr ⟨c, hc, rfl⟩)⟩

/-! ### The disks of volumes -/

/-- The disks that are not known yet. -/
def Guest.newDevices (g : Guest) : List String := g.scanBlockDevices.filter (· ∉ g.mgr.knownDisks)

/-- The search for a new disk comes to one. -/
def Guest.finds (g : Guest) (io : Io) : Bool := (io.pick g.newDevices).any (· ∈ g.newDevices)

/-- The guest after the disk was found. -/
def Guest.withDisk (g : Guest) (dev : String) : Guest :=
  { g with mgr := { g.mgr with knownDisks := insert dev g.mgr.knownDisks } }

section Volumes

variable {io : Io} {g : Guest}

theorem discover_found {dev : String} (h : io.pick g.newDevices = some dev) (hdev : dev ∈ g.newDevices) :
    exec (discoverBlockDevice io) g = (.ok (some ("/dev/" ++ dev)), g.withDisk dev) := by
  have hd : dev ∈ g.scanBlockDevices.filter (· ∉ g.mgr.knownDisks) := hdev
  have hp : io.pick (g.scanBlockDevices.filter (· ∉ g.mgr.knownDisks)) = some dev := h
  simp only [discoverBlockDevice, exec_bind, exec_get, hp, if_pos hd, exec_set, exec_pure]
  rfl

theorem discover_none (h : g.finds io = false) : exec (discoverBlockDevice io) g = (.ok none, g) := by
  have hf : (io.pick (g.scanBlockDevices.filter (· ∉ g.mgr.knownDisks))).any
      (· ∈ g.scanBlockDevices.filter (· ∉ g.mgr.knownDisks)) = false := h
  simp only [discoverBlockDevice, exec_bind, exec_get]
  split
  · next dev hp =>
    rw [hp, Option.any_some, decide_eq_false_iff_not] at hf
    rw [if_neg hf]
    rfl
  · rfl

theorem exists_of_finds (h : g.finds io = true) : ∃ dev, io.pick g.newDevices = some dev ∧ dev ∈ g.newDevices := by
  obtain ⟨dev, hp, hd⟩ := (Option.any_eq_true _ _).mp h
  exact ⟨dev, hp, of_decide_eq_true hd⟩

end Volumes

/-! ### The layers of a container -/

/-- Mounts are only added, and the erofs mounts among them are the layers `is`. -/
def AddsLayers (is : List ℕ) (g g' : Guest) : Prop :=
  ∃ new, g'.mounts = g.mounts ++ new ∧ ∀ m ∈ new, m.fsType = "erofs" → ∃ i ∈ is, m.source = "/dev/" ++ layerDevice i

theorem AddsLayers.of_mounts {is : List ℕ} {g g' : Guest} (h : g'.mounts = g.mounts) : AddsLayers is g g' :=
  ⟨[], by rw [h, List.append_nil], by simp⟩

instance (is : List ℕ) : Std.Refl (AddsLayers is) := ⟨fun _ => .of_mounts rfl⟩

instance (is : List ℕ) : IsTrans Guest (AddsLayers is) := by
  refine ⟨fun g₁ g₂ g₃ h h' => ?_⟩
  obtain ⟨new, hn, hl⟩ := h
  obtain ⟨new', hn', hl'⟩ := h'
  refine ⟨new ++ new', by rw [hn', hn, List.append_assoc], fun m hm => ?_⟩
  rcases List.mem_append.mp hm with hm | hm
  · exact hl m hm
  · exact hl' m hm

theorem prepares_layers (is : List ℕ) : Prepares (AddsLayers is) is := by
  refine ⟨fun g i target hi => ?_, fun g target => ?_, fun _ _ => .of_mounts rfl, fun _ _ => .of_mounts rfl⟩
  · exact ⟨[_], rfl, fun m hm _ => ⟨i, hi, by rw [List.mem_singleton.mp hm]⟩⟩
  · refine ⟨[_], rfl, fun m hm he => ?_⟩
    rw [List.mem_singleton.mp hm] at he
    exact absurd (show ("overlay" : String) = "erofs" from he) (by decide)

/-- A `run` mounts the devices of its layers, failed or not. -/
theorem run_layers (io : Io) (req : CreateRequest) :
    Keeps (AddsLayers (List.range req.erofsLayers)) (run io req) := by
  refine Keeps.bind (Keeps.bind (prepareBundle_keeps io req (prepares_layers _)) fun _ =>
    Keeps.bind (.modify fun _ => .of_mounts rfl) fun _ => .pure _) fun _ => ?_
  exact Keeps.get.bind fun _ => (failIf_keeps _ _).bind fun _ => (checkAs_keeps io _ _).bind fun _ =>
    Keeps.bind (.modify fun _ => .of_mounts rfl) fun _ => .pure _

end CloudHv.Agent
