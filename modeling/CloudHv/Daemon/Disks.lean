import CloudHv.Agent.Methods
import CloudHv.Daemon.Procs
import CloudHv.Daemon.Wiring

/-!
# Disks — the erofs layer of a container is the disk that was plugged for it

The host plugs a disk and the guest finds it again by a name: Cloud Hypervisor gives each new disk the
next letter, while the agent mounts the device after the rootfs disk, whatever was plugged before.  So
the two agree for a container whose disk is the first one of its VM.
-/

namespace CloudHv.Daemon

open Conc

/-! ### Processes, sockets and state directories -/

/-- The state directory of a process. -/
def Host.dirOf (h : Host) (pid : ℕ) : Option Path := (h.fate pid).map (·.1)

/-- Cloud Hypervisor processes listen in their own state directories, and share none. -/
structure Tidy (h : Host) : Prop where
  sockets : ∀ p pid, h.listeners p = some pid → h.dirOf pid = some p.dropLast
  apart : ∀ pid q d, h.dirOf pid = some d → h.dirOf q = some d → pid = q

section Host

variable {E : Env} {h h' : Host} {c : Choice} {g : Wiring}

theorem dirOf_of_fate (hf : h'.fate = h.fate) : h'.dirOf = h.dirOf := by
  funext pid
  rw [Host.dirOf, Host.dirOf, hf]

theorem dirOf_tell {pid : ℕ} : (h.tell pid).dirOf = h.dirOf := by
  funext p
  unfold Host.dirOf
  rw [fate_tell]
  split
  · cases h.fate p <;> rfl
  · rfl

theorem listeners_tell {pid : ℕ} : (h.tell pid).listeners = h.listeners := by
  unfold Host.tell
  split <;> rfl

theorem listeners_setGuest {pid : ℕ} {u : Agent.Guest} : (h.setGuest pid u).listeners = h.listeners := by
  unfold Host.setGuest
  split <;> rfl

/-- Sockets may go, and may be taken by a process of the directory they are in. -/
theorem Tidy.pass (hT : Tidy h) (hd : h'.dirOf = h.dirOf)
    (hl : ∀ p pid, h'.listeners p = some pid → h.listeners p = some pid ∨ h.dirOf pid = some p.dropLast) :
    Tidy h' := by
  refine ⟨fun p pid hp => ?_, fun pid q d => ?_⟩
  · rw [hd]
    rcases hl p pid hp with hp | hp
    · exact hT.sockets p pid hp
    · exact hp
  · rw [hd]
    exact hT.apart pid q d

theorem dirOf_spawned {pid : ℕ} {dir : Path} (hp : h'.procs = h.procs.insert pid ⟨dir, false, none⟩) (q : ℕ) :
    h'.dirOf q = if q = pid then some dir else h.dirOf q := by
  unfold Host.dirOf Host.fate
  rw [hp]
  by_cases hq : q = pid
  · subst hq
    simp
  · simp [hq, Finmap.lookup_insert_of_ne _ hq]

theorem dirOf_of_not_mem {pid : ℕ} (hp : pid ∉ h.procs) : h.dirOf pid = none := by
  rw [Host.dirOf, Host.fate, Finmap.lookup_eq_none.mpr hp]
  rfl

theorem tidy_spawn {pid : ℕ} {dir : Path} (hT : Tidy h) (hnew : pid ∉ h.procs)
    (hfree : ∀ q, h.dirOf q ≠ some dir) (hp : h'.procs = h.procs.insert pid ⟨dir, false, none⟩)
    (hl : h'.listeners = Function.update h.listeners (dir ++ ["api.sock"]) (some pid)) :
    Tidy h' ∧ ∀ q d, h.dirOf q = some d → h'.dirOf q = some d := by
  have hkeep : ∀ q d, h.dirOf q = some d → h'.dirOf q = some d := by
    intro q d hq
    rw [dirOf_spawned hp, if_neg]
    · exact hq
    · rintro rfl
      rw [dirOf_of_not_mem hnew] at hq
      cases hq
  refine ⟨⟨fun p q hq => ?_, fun q₁ q₂ d h₁ h₂ => ?_⟩, hkeep⟩
  · rw [hl] at hq
    by_cases he : p = dir ++ ["api.sock"]
    · subst he
      rw [Function.update_self] at hq
      obtain rfl := Option.some.inj hq
      rw [dirOf_spawned hp, if_pos rfl, List.dropLast_concat]
    · rw [Function.update_of_ne he] at hq
      exact hkeep _ _ (hT.sockets p q hq)
  · rw [dirOf_spawned hp] at h₁ h₂
    split at h₁
    · next e₁ =>
      split at h₂
      · next e₂ => rw [e₁, e₂]
      · obtain rfl := Option.some.inj h₁
        exact absurd h₂ (hfree q₂)
    · split at h₂
      · obtain rfl := Option.some.inj h₂
        exact absurd h₁ (hfree q₁)
      · exact hT.apart q₁ q₂ d h₁ h₂

theorem tidy_api {sock : Path} {call : ApiCall} {pid : ℕ} (hT : Tidy h)
    (hreq : (wiring E).req g (.host (.api sock call))) (hs : h.listeners sock = some pid)
    (he : h.apiEffect pid call = some h') : Tidy h' := by
  have hd : h'.dirOf = h.dirOf := by
    refine dirOf_of_fate (apiEffect_frame (f := Host.fate) (fun h pid u => fate_setGuest u)
      (fun _ _ _ => rfl) (fun _ _ => rfl) he)
  have hpid : h.dirOf pid = some sock.dropLast := hT.sockets sock pid hs
  have hvsock : ∀ vsock : Path, vsock.dropLast = sock.dropLast →
      h'.listeners = Function.update h.listeners vsock (some pid) → Tidy h' := by
    intro vsock hv hl
    refine hT.pass hd fun p q hq => ?_
    rw [hl] at hq
    by_cases hp : p = vsock
    · subst hp
      rw [Function.update_self] at hq
      obtain rfl := Option.some.inj hq
      exact .inr (by rw [hpid, hv])
    · rw [Function.update_of_ne hp] at hq
      exact .inl hq
  cases call with
  | create disks cid vsock =>
    obtain rfl := Option.some.inj he
    exact hvsock vsock hreq rfl
  | restore src =>
    obtain ⟨u, -, rfl⟩ := Option.map_eq_some_iff.mp he
    exact hvsock src.vsockSocket hreq rfl
  | snapshot dest =>
    obtain ⟨u, -, rfl⟩ := Option.map_eq_some_iff.mp he
    exact hT.pass hd fun p q hq => .inl hq
  | _ =>
    obtain rfl := Option.some.inj he
    exact hT

theorem tidy_removeDirs (dirs : List Path) (hT : Tidy h) :
    Tidy (dirs.foldl Host.removeDir h) ∧ (dirs.foldl Host.removeDir h).dirOf = h.dirOf := by
  have hd := dirOf_of_fate (fate_removeDirs (h := h) dirs)
  refine ⟨?_, hd⟩
  clear hd
  induction dirs generalizing h with
  | nil => exact hT
  | cons d dirs ih =>
    refine ih (hT.pass (dirOf_of_fate rfl) fun p q hq => .inl ?_)
    have hq' : (if d <+: p then none else h.listeners p) = some q := hq
    split at hq'
    · cases hq'
    · exact hq'

/-- The steps after which the agent finds its disk: a disk is plugged into a VM that has the rootfs disk
only, and no VM is started in a state directory that an earlier one had. -/
def Host.firstDisk (h : Host) : HostAct → Bool
  | .addDisk sock _ => (h.listeners sock).all fun pid => (h.guestOf pid).all fun u => u.disks.length == 1
  | .spawnCh dir => decide (∀ pid ∈ h.procs.keys, h.dirOf pid ≠ some dir)
  | _ => true

theorem tidy_host {b : HostAct} {r : b.Answer} (hT : Tidy h) (hreq : (wiring E).req g (.host b))
    (hok : h.firstDisk b = true) (hp : h.perform b c = some (r, h')) :
    Tidy h' ∧ ∀ q d, h.dirOf q = some d → h'.dirOf q = some d := by
  have hrest : h'.fate = h.fate → h'.listeners = h.listeners →
      Tidy h' ∧ ∀ q d, h.dirOf q = some d → h'.dirOf q = some d := by
    intro hf hl
    refine ⟨hT.pass (dirOf_of_fate hf) fun p q hq => .inl (hl ▸ hq), fun q d hq => ?_⟩
    rwa [dirOf_of_fate hf]
  have hframe : b.kind ∉ [.spawn, .signal, .pidFile, .remove, .ch] →
      Tidy h' ∧ ∀ q d, h.dirOf q = some d → h'.dirOf q = some d := by
    intro hk
    have hk' : b.kind ∉ [.spawn, .signal, .pidFile, .remove] := fun hm => hk (by simp at hm ⊢; tauto)
    have hch : b.kind ≠ .ch := fun he => hk (by simp [he])
    refine hrest (same_perform hp hk').1 (perform_frame Host.listeners hp hk' (fun _ h pid u => ?_)
      (fun _ _ _ => rfl) (fun he => absurd he hch) fun _ _ _ _ _ => rfl)
    exact listeners_setGuest
  cases b with
  | spawnCh dir =>
    simp only [Host.perform] at hp
    split at hp
    · obtain ⟨-, rfl⟩ := Prod.mk.inj (Option.some.inj hp)
      exact hrest rfl rfl
    · split at hp
      · cases hp
      · next hnew =>
        obtain ⟨-, rfl⟩ := Prod.mk.inj (Option.some.inj hp)
        refine tidy_spawn hT hnew (fun q hq => ?_) rfl rfl
        have hall := of_decide_eq_true hok
        by_cases hm : q ∈ h.procs
        · exact hall q (Finmap.mem_keys.mpr hm) hq
        · rw [dirOf_of_not_mem hm] at hq
          cases hq
  | sigterm pid =>
    obtain ⟨-, rfl⟩ := Prod.mk.inj (Option.some.inj hp)
    refine ⟨hT.pass dirOf_tell fun p q hq => .inl ?_, fun q d hq => ?_⟩
    · rwa [listeners_tell] at hq
    · rwa [dirOf_tell]
  | awaitGone pid =>
    obtain ⟨-, rfl⟩ := Prod.mk.inj (Option.some.inj hp)
    exact hrest rfl rfl
  | sigkill pid =>
    obtain ⟨-, rfl⟩ := Prod.mk.inj (Option.some.inj hp)
    exact hrest rfl rfl
  | readPid dir =>
    obtain ⟨-, rfl⟩ := Prod.mk.inj (Option.some.inj hp)
    exact hrest rfl rfl
  | writePid dir pid =>
    simp only [Host.perform] at hp
    split at hp <;> (obtain ⟨-, rfl⟩ := Prod.mk.inj (Option.some.inj hp); exact hrest rfl rfl)
  | removeDirAll q =>
    obtain ⟨-, rfl⟩ := Prod.mk.inj (Option.some.inj hp)
    split
    · exact ⟨hT, fun _ _ hq => hq⟩
    · obtain ⟨hT', hd⟩ := tidy_removeDirs [q] hT
      exact ⟨hT', fun p d hq => (by rw [show (h.removeDir q).dirOf = h.dirOf from hd]; exact hq)⟩
  | chReady sock =>
    obtain ⟨-, rfl⟩ := Prod.mk.inj (Option.some.inj hp)
    exact hrest rfl rfl
  | api sock call =>
    rcases request_cases hp with rfl | ⟨u, hd⟩
    · exact hrest rfl rfl
    · obtain ⟨pid, hs, hd⟩ := Option.bind_eq_some_iff.mp hd
      obtain ⟨h₂, he, hq⟩ := Option.map_eq_some_iff.mp hd
      obtain ⟨-, rfl⟩ := Prod.mk.inj hq
      refine ⟨tidy_api hT hreq hs he, fun q d hq => ?_⟩
      rwa [dirOf_of_fate (same_perform hp (by simp [HostAct.kind])).1]
  | _ => exact hframe (by simp [HostAct.kind])

/-! ### What the answers say -/

/-- The first disk plugged into a VM is `vdb`. -/
theorem addDisk_answer {sock : Path} {disk : Agent.Disk} {pid : ℕ} {name : String}
    (hok : h.firstDisk (.addDisk sock disk) = true)
    (hp : h.perform (.addDisk sock disk) c = some (.ok (pid, name), h')) :
    h.listeners sock = some pid ∧ name = "vdb" := by
  obtain ⟨q, hs, hd⟩ := Option.bind_eq_some_iff.mp (request_ok hp)
  obtain ⟨u, hu, hq⟩ := Option.map_eq_some_iff.mp hd
  obtain ⟨hq, -⟩ := Prod.mk.inj hq
  obtain ⟨rfl, rfl⟩ := Prod.mk.inj hq
  have hlen : u.disks.length = 1 := by
    simp only [Host.firstDisk, hs, Option.all_some, hu, beq_iff_eq] at hok
    exact hok
  rw [hlen]
  exact ⟨hs, by decide⟩

theorem connectAgent_answer {vsock : Path} {pid : ℕ}
    (hp : h.perform (.connectAgent vsock) c = some (.ok pid, h')) : h.listeners vsock = some pid := by
  simp only [Host.perform] at hp
  split at hp
  · cases hp
  · next hs =>
    obtain ⟨hq, -⟩ := Prod.mk.inj (Option.some.inj hp)
    rw [hs, Except.ok.inj hq]
  · cases hp

/-- Whatever a container with one layer mounts is `/dev/vdb`. -/
theorem runContainer_answer {pid : ℕ} {req : Agent.CreateRequest} {r : RunAnswer} (hl : req.erofsLayers = 1)
    (hp : h.perform (.runContainer pid req) c = some (r, h')) : ∀ d ∈ r.mounted, d = "/dev/vdb" := by
  have hp' : h.performRun c pid req = some (r, h') := hp
  unfold Host.performRun at hp'
  split at hp'
  · obtain ⟨rfl, -⟩ := Prod.mk.inj (Option.some.inj hp')
    simp
  · split at hp'
    · cases hp'
    · next u hu =>
      split at hp'
      · cases hp'
      · next res u' he =>
        obtain ⟨rfl, -⟩ := Prod.mk.inj (Option.some.inj hp')
        unfold Agent.Guest.execSpawn at he
        split at he
        · cases he
        · obtain ⟨new, hnew, hsrc⟩ := (Agent.run_layers c.io req).of_exec (Option.some.inj he)
          intro d hd
          simp only [Host.newLayers, hnew, List.drop_left, List.mem_map, List.mem_filter,
            decide_eq_true_eq] at hd
          obtain ⟨m, ⟨hm, hfs⟩, rfl⟩ := hd
          obtain ⟨i, hi, hdev⟩ := hsrc m hm hfs
          rw [hl, List.mem_range] at hi
          obtain rfl : i = 0 := by omega
          rw [hdev]
          decide

end Host

/-! ### Runs -/

/-- Every step about disks and new VMs is one after which the agent finds its disk. -/
def firstDisks (x : DaemonConf) : Event Action Answer Task → Bool
  | .act _ (.host b) _ => x.shared.host.firstDisk b
  | _ => true

/-- What a task knows of its disk and its connection is so. -/
def Wiring.Sound (h : Host) (g : Wiring) : Prop :=
  (∀ dir pid name, g.plug = some (dir, pid, name) → h.dirOf pid = some dir ∧ name = "vdb") ∧
    ∀ pid dir, g.conn = some (pid, dir) → h.dirOf pid = some dir

structure WireInv (E : Env) (w : World) (gs : List Wiring) : Prop where
  tidy : Tidy w.host
  registry : ∀ id pid, w.agents.lookup id = some pid → w.host.dirOf pid = some (E.cfg.vmDir id)
  ready : ∀ vm ∈ w.pool.ready, Placed E vm
  active : ∀ id vm, w.pool.active.lookup id = some vm → vm.vmId = id ∧ Placed E vm
  known : ∀ g ∈ gs, g.Sound w.host

section Step

variable {E : Env} {w w' : World} {gs : List Wiring} {i : ℕ} {g : Wiring} {c : Choice}

theorem Wiring.Sound.mono {h h' : Host} (hg : g.Sound h)
    (hd : ∀ q d, h.dirOf q = some d → h'.dirOf q = some d) : g.Sound h' :=
  ⟨fun dir pid name hp => ⟨hd _ _ (hg.1 dir pid name hp).1, (hg.1 dir pid name hp).2⟩,
    fun pid dir hc => hd _ _ (hg.2 pid dir hc)⟩

theorem Wiring.Sound.init (h : Host) (t : Task) : (Wiring.init t).Sound h :=
  ⟨fun _ _ _ hp => (by cases hp), fun _ _ hc => (by cases hc)⟩

/-- The threads after a step: the one that acted, the others, and the new ones. -/
theorem known_next {h h' : Host} {a : Action} {r : Answer a} (hk : ∀ g ∈ gs, g.Sound h)
    (hd : ∀ q d, h.dirOf q = some d → h'.dirOf q = some d) (hg : ((wiring E).upd g a r).Sound h') :
    ∀ u ∈ gs.set i ((wiring E).upd g a r) ++ (spawned a r).map Wiring.init, u.Sound h' := by
  intro u hu
  rcases List.mem_append.mp hu with hu | hu
  · rcases List.mem_or_eq_of_mem_set hu with hu | rfl
    · exact (hk u hu).mono hd
    · exact hg
  · obtain ⟨t, -, rfl⟩ := List.mem_map.mp hu
    exact .init h' t

theorem wire_host {b : HostAct} {r : b.Answer} (hI : WireInv E w gs) (hi : gs[i]? = some g)
    (hreq : (wiring E).req g (.host b)) (hok : w.host.firstDisk b = true)
    (hp : perform E w (.host b) c = some (r, w')) :
    (wiring E).may g (.host b) r ∧
      WireInv E w' (gs.set i ((wiring E).upd g (.host b) r) ++ (spawned (.host b) r).map Wiring.init) := by
  obtain ⟨h', hp', rfl⟩ := perform_host hp
  obtain ⟨hT, hd⟩ := tidy_host hI.tidy hreq hok hp'
  have hg : g.Sound w.host := hI.known g (List.mem_of_getElem? hi)
  have hnext : ((wiring E).upd g (.host b) r).Sound h' := by
    cases b with
    | addDisk sock disk =>
      cases r with
      | error e => exact hg.mono hd
      | ok q =>
        obtain ⟨pid, name⟩ := q
        obtain ⟨hs, hname⟩ := addDisk_answer hok hp'
        refine ⟨fun dir q n hq => ?_, (hg.mono hd).2⟩
        obtain ⟨rfl, rfl, rfl⟩ := by simpa [wiring, Wiring.upd] using hq
        exact ⟨hd _ _ (hI.tidy.sockets sock pid hs), hname⟩
    | connectAgent vsock =>
      cases r with
      | error e => exact hg.mono hd
      | ok pid =>
        refine ⟨(hg.mono hd).1, fun q dir hq => ?_⟩
        obtain ⟨rfl, rfl⟩ := by simpa [wiring, Wiring.upd] using hq
        exact hd _ _ (hI.tidy.sockets vsock pid (connectAgent_answer hp'))
    | _ => exact hg.mono hd
  refine ⟨?_, hT, fun id pid hl => hd _ _ (hI.registry id pid hl), hI.ready, hI.active,
    known_next hI.known hd hnext⟩
  cases b with
  | prepareSnapshot base dir cid vsock =>
    intro p hr
    subst hr
    simp only [Host.perform] at hp'
    split at hp'
    · cases hp'
    · obtain ⟨hq, -⟩ := Prod.mk.inj (Option.some.inj hp')
      rw [← Except.ok.inj hq]
    · cases hp'
  | _ => exact trivial

theorem wire_pool {b : PoolAct} {r : b.Answer} (hI : WireInv E w gs) (hi : gs[i]? = some g)
    (hreq : (wiring E).req g (.pool b)) (hp : perform E w (.pool b) c = some (r, w')) :
    (wiring E).may g (.pool b) r ∧
      WireInv E w' (gs.set i ((wiring E).upd g (.pool b) r) ++ (spawned (.pool b) r).map Wiring.init) := by
  obtain ⟨rfl, rfl⟩ := perform_pool hp
  have hg : g.Sound w.host := hI.known g (List.mem_of_getElem? hi)
  have hknown : ∀ u ∈ gs.set i ((wiring E).upd g (.pool b) (w.pool.perform b).1) ++
      (spawned (.pool b) (w.pool.perform b).1).map Wiring.init, u.Sound w.host := by
    refine known_next hI.known (fun _ _ hq => hq) ?_
    cases b <;> exact hg
  have hrest : (w.takeBack b).host = w.host ∧ (w.takeBack b).agents = w.agents := by
    cases b <;> exact ⟨rfl, rfl⟩
  have hready : ∀ vm ∈ (w.pool.perform b).2.ready, Placed E vm := by
    cases b with
    | readyPop => exact fun vm hvm => hI.ready vm (List.dropLast_subset _ hvm)
    | readyPush v =>
      intro vm hvm
      rcases List.mem_append.mp hvm with hvm | hvm
      · exact hI.ready vm hvm
      · rw [List.mem_singleton.mp hvm]
        exact hreq
    | _ => exact hI.ready
  have hactive : ∀ id vm, (w.pool.perform b).2.active.lookup id = some vm → vm.vmId = id ∧ Placed E vm := by
    cases b with
    | activeInsert v =>
      intro id vm hvm
      have hvm' : (w.pool.active.insert v.vmId v).lookup id = some vm := hvm
      by_cases he : id = v.vmId
      · subst he
        rw [Finmap.lookup_insert] at hvm'
        obtain rfl := Option.some.inj hvm'
        exact ⟨rfl, hreq⟩
      · rw [Finmap.lookup_insert_of_ne _ he] at hvm'
        exact hI.active id vm hvm'
    | activeRemove k =>
      intro id vm hvm
      have hvm' : (w.pool.active.erase k).lookup id = some vm := hvm
      by_cases he : id = k
      · subst he
        rw [Finmap.lookup_erase] at hvm'
        cases hvm'
      · rw [Finmap.lookup_erase_ne he] at hvm'
        exact hI.active id vm hvm'
    | _ => exact hI.active
  refine ⟨?_, ?_, ?_, hready, hactive, ?_⟩
  · cases b with
    | readyPop => exact fun vm hvm => hI.ready vm (List.mem_of_getLast? hvm)
    | activeGet id => exact fun vm hvm => hI.active id vm hvm
    | _ => exact trivial
  · show Tidy (w.takeBack b).host
    rw [hrest.1]
    exact hI.tidy
  · show ∀ id pid, (w.takeBack b).agents.lookup id = some pid →
      (w.takeBack b).host.dirOf pid = some (E.cfg.vmDir id)
    rw [hrest.1, hrest.2]
    exact hI.registry
  · show ∀ u ∈ _, Wiring.Sound (w.takeBack b).host u
    rw [hrest.1]
    exact hknown

theorem wire_step {x : DaemonConf} {a : Action} {r : Answer a} (hI : WireInv E x.shared gs)
    (hi : gs[i]? = some g) (hreq : (wiring E).req g a) (hp : perform E x.shared a c = some (r, w'))
    (hok : firstDisks x (.act i a r) = true) :
    (wiring E).may g a r ∧
      WireInv E w' (gs.set i ((wiring E).upd g a r) ++ (spawned a r).map Wiring.init) := by
  have hg : g.Sound x.shared.host := hI.known g (List.mem_of_getElem? hi)
  cases a with
  | host b => exact wire_host hI hi hreq hok hp
  | pool b => exact wire_pool hI hi hreq hp
  | snap b =>
    obtain ⟨s, dirs, -, rfl⟩ := perform_snap hp
    obtain ⟨hT, hd⟩ := tidy_removeDirs dirs hI.tidy
    have hkeep : ∀ q d, x.shared.host.dirOf q = some d →
        (dirs.foldl Host.removeDir x.shared.host).dirOf q = some d := fun q d hq => by rwa [hd]
    exact ⟨trivial, hT, fun id pid hl => hkeep _ _ (hI.registry id pid hl), hI.ready, hI.active,
      known_next hI.known hkeep (hg.mono hkeep)⟩
  | agentsGet id =>
    obtain ⟨rfl, rfl⟩ := Prod.mk.inj (Option.some.inj hp)
    refine ⟨trivial, hI.tidy, hI.registry, hI.ready, hI.active,
      known_next hI.known (fun _ _ hq => hq) ?_⟩
    cases hl : x.shared.agents.lookup id with
    | none => exact hg
    | some pid =>
      refine ⟨hg.1, fun q dir hq => ?_⟩
      obtain ⟨rfl, rfl⟩ := by simpa [wiring, Wiring.upd] using hq
      exact hI.registry id pid hl
  | agentsInsert id pid =>
    obtain ⟨-, rfl⟩ := Prod.mk.inj (Option.some.inj hp)
    refine ⟨trivial, hI.tidy, fun k q hq => ?_, hI.ready, hI.active,
      known_next hI.known (fun _ _ hq => hq) hg⟩
    have hq' : (x.shared.agents.insert id pid).lookup k = some q := hq
    by_cases he : k = id
    · subst he
      rw [Finmap.lookup_insert] at hq'
      obtain rfl := Option.some.inj hq'
      exact hg.2 pid _ hreq
    · rw [Finmap.lookup_insert_of_ne _ he] at hq'
      exact hI.registry k q hq'
  | agentsRemove id =>
    obtain ⟨-, rfl⟩ := Prod.mk.inj (Option.some.inj hp)
    refine ⟨trivial, hI.tidy, fun k q hq => ?_, hI.ready, hI.active,
      known_next hI.known (fun _ _ hq => hq) hg⟩
    have hq' : (x.shared.agents.erase id).lookup k = some q := hq
    by_cases he : k = id
    · subst he
      rw [Finmap.lookup_erase] at hq'
      cases hq'
    · rw [Finmap.lookup_erase_ne he] at hq'
      exact hI.registry k q hq'
  | bindSocket =>
    rcases perform_bind hp with rfl | rfl <;> exact ⟨trivial, hI.tidy, hI.registry, hI.ready, hI.active,
      known_next hI.known (fun _ _ hq => hq) hg⟩
  | reply resp =>
    obtain ⟨-, rfl⟩ := Prod.mk.inj (Option.some.inj hp)
    cases resp <;> exact ⟨trivial, hI.tidy, hI.registry, hI.ready, hI.active,
      known_next hI.known (fun _ _ hq => hq) hg⟩
  | touch f t =>
    obtain ⟨-, rfl⟩ := Prod.mk.inj (Option.some.inj hp)
    exact ⟨trivial, ⟨hI.tidy.sockets, hI.tidy.apart⟩, hI.registry, hI.ready, hI.active,
      known_next hI.known (fun _ _ hq => hq) hg⟩
  | _ =>
    obtain ⟨-, rfl⟩ := Prod.mk.inj (Option.some.inj hp)
    exact ⟨trivial, hI.tidy, hI.registry, hI.ready, hI.active, known_next hI.known (fun _ _ hq => hq) hg⟩

end Step

theorem wire_inv {E : Env} {h : Host} (hT : Tidy h) {x : DaemonConf}
    (hx : (daemon E).Reach (fun x e => firstDisks x e = true) (boot E h) x) :
    WireInv E x.shared (x.threads.map (System.ghost (wiring E) Wiring.init)) ∧
      ∀ t ∈ x.threads, wp (wiring E) t.prog (fun _ _ => True) (System.ghost (wiring E) Wiring.init t) := by
  refine System.Reach.inv (WireInv E) (fun _ => True) (fun t => body_wiring t) ?_ ?_ ?_ ?_ hx
  · refine ⟨hT, fun id pid hl => ?_, fun vm hvm => ?_, fun id vm hvm => ?_, fun g hg => ?_⟩
    · cases hl
    · cases hvm
    · cases hvm
    · rw [List.mem_singleton.mp hg]
      exact .init h .main
  · intro t ht
    rw [List.mem_singleton.mp ht]
    exact body_wiring .main
  · intro x t hI _ _
    refine ⟨hI.tidy, hI.registry, hI.ready, hI.active, fun g hg => ?_⟩
    rcases List.mem_append.mp hg with hg | hg
    · exact hI.known g hg
    · rw [List.mem_singleton.mp hg]
      exact .init _ t
  · intro x i g a c r w' hI hi hreq hp hok
    exact wire_step hI hi hreq hp hok

/-- At the moment of a call: a disk is that of the task's container, and a container is run, and finds
its layer, in the process that has the disk. -/
def Wiring.WellUsed (g : Wiring) : (a : Action) → Answer a → Prop
  | .host (.addDisk _ disk), _ => ∃ id, g.own = some (id, disk.path)
  | .host (.runContainer pid req), r => (∃ path, g.own = some (req.containerId, path)) ∧
    (∃ dir, g.plug = some (dir, pid, "vdb")) ∧ ∀ d ∈ r.mounted, d = "/dev/vdb"
  | _, _ => True

theorem wellUsed_act {E : Env} {x : DaemonConf} {gs : List Wiring} {i : ℕ} {g : Wiring} {a : Action}
    {c : Choice} {r : Answer a} {w' : World} (hI : WireInv E x.shared gs) (hi : gs[i]? = some g)
    (hreq : (wiring E).req g a) (hp : perform E x.shared a c = some (r, w')) : g.WellUsed a r := by
  cases a with
  | host b =>
    cases b with
    | addDisk sock disk => exact hreq
    | runContainer pid req =>
      obtain ⟨⟨dir, q, name, hplug, hconn⟩, hown, hl⟩ := hreq
      obtain ⟨hknown, hconn'⟩ := hI.known g (List.mem_of_getElem? hi)
      obtain ⟨hq, rfl⟩ := hknown dir q name hplug
      -- the plugged process and the connected one have the same state directory
      obtain rfl : q = pid := hI.tidy.apart q pid dir hq (hconn' pid dir hconn)
      obtain ⟨h', hp', -⟩ := perform_host hp
      exact ⟨hown, ⟨dir, hplug⟩, runContainer_answer hl hp'⟩
    | _ => exact trivial
  | _ => exact trivial

theorem upd_own {E : Env} (g : Wiring) (a : Action) (r : Answer a) : ((wiring E).upd g a r).own = g.own := by
  cases a with
  | host b =>
    cases b with
    | addDisk sock disk => cases r <;> rfl
    | connectAgent vsock => cases r <;> rfl
    | _ => rfl
  | agentsGet id => cases r <;> rfl
  | _ => rfl

theorem upd_plug {E : Env} {g : Wiring} {a : Action} {r : Answer a} {dir : Path} {pid : ℕ} {name : String}
    (h : ((wiring E).upd g a r).plug = some (dir, pid, name)) : g.plug = some (dir, pid, name) ∨
      ∃ sock disk, (⟨a, r⟩ : Act Action Answer) = ⟨.host (.addDisk sock disk), .ok (pid, name)⟩ := by
  cases a with
  | host b =>
    cases b with
    | addDisk sock disk =>
      cases r with
      | error e => exact .inl h
      | ok q =>
        obtain ⟨q, n⟩ := q
        obtain ⟨-, rfl, rfl⟩ := by simpa [wiring, Wiring.upd] using h
        exact .inr ⟨sock, disk, rfl⟩
    | connectAgent vsock => cases r <;> exact .inl h
    | _ => exact .inl h
  | agentsGet id => cases r <;> exact .inl h
  | _ => exact .inl h

/-- The disk a thread knows of is one it plugged. -/
theorem plug_mem {E : Env} {dir : Path} {pid : ℕ} {name : String} (l : List (Act Action Answer)) (g : Wiring)
    (h : (l.foldl (fun g e => (wiring E).upd g e.1 e.2) g).plug = some (dir, pid, name)) :
    g.plug = some (dir, pid, name) ∨
      ∃ sock disk, (⟨.host (.addDisk sock disk), .ok (pid, name)⟩ : Act Action Answer) ∈ l := by
  induction l generalizing g with
  | nil => exact .inl h
  | cons e l ih =>
    rcases ih _ h with hg | ⟨sock, disk, hm⟩
    · rcases upd_plug hg with hg | ⟨sock, disk, he⟩
      · exact .inl hg
      · exact .inr ⟨sock, disk, he ▸ List.mem_cons_self⟩
    · exact .inr ⟨sock, disk, List.mem_cons_of_mem e hm⟩

theorem foldl_own {E : Env} (l : List (Act Action Answer)) (g : Wiring) :
    (l.foldl (fun g e => (wiring E).upd g e.1 e.2) g).own = g.own :=
  System.foldl_reading (f := Wiring.own) upd_own l g

/-- Whatever the container of a task mounts as an erofs layer is the device that the same task plugged
into the same VM, for the image of this container. -/
def MountsOwnDisk (t : Thread Action Answer Task) : Prop :=
  ∀ pid req ans, (⟨.host (.runContainer pid req), ans⟩ : Act Action Answer) ∈ t.log → ∀ d ∈ ans.mounted,
    ∃ sock disk name, (⟨.host (.addDisk sock disk), .ok (pid, name)⟩ : Act Action Answer) ∈ t.log ∧
      d = "/dev/" ++ name ∧ t.task.container = some (req.containerId, disk.path)

/-- **A container's layer is its own disk**, in every run in which each disk is the first one plugged into
its VM and VMs do not share state directories. -/
theorem layer_is_own_disk {E : Env} {h : Host} (hT : Tidy h) {x : DaemonConf}
    (hx : (daemon E).Reach (fun x e => firstDisks x e = true) (boot E h) x) :
    ∀ t ∈ x.threads, MountsOwnDisk t := by
  intro t ht pid req ans hm d hd
  have hlog := System.Reach.log (S := daemon E) Wiring.WellUsed (fun x hx => wire_inv hT hx)
    (fun t ht => by rw [List.mem_singleton.mp ht]; rfl)
    (fun x i g a c r s' hI hi hreq hp _ => wellUsed_act hI hi hreq hp) hx t ht
  obtain ⟨pre, post, hl⟩ := List.append_of_mem hm
  obtain ⟨⟨path, hown⟩, ⟨dir, hplug⟩, hmount⟩ := hlog pre _ ans post hl
  rw [foldl_own] at hown
  rcases plug_mem pre _ hplug with hinit | ⟨sock, disk, hdisk⟩
  · cases hinit
  · obtain ⟨pre', post', hl'⟩ := List.append_of_mem hdisk
    obtain ⟨id, hown'⟩ := hlog pre' (.host (.addDisk sock disk)) (.ok (pid, "vdb"))
      (post' ++ ⟨.host (.runContainer pid req), ans⟩ :: post) (by rw [hl, hl']; simp)
    rw [foldl_own] at hown'
    have hc : t.task.container = some (req.containerId, disk.path) := by
      have heq : some (req.containerId, path) = some (id, disk.path) := hown.symm.trans hown'
      obtain ⟨rfl, rfl⟩ := by simpa using heq
      exact hown
    exact ⟨sock, disk, "vdb", by rw [hl]; exact List.mem_append_left _ hdisk, hmount d hd, hc⟩

/-! ### Two runs -/

/-- The process and the device of a disk that was plugged. -/
def plugged : Act Action Answer → Option (ℕ × String)
  | ⟨.host (.addDisk _ _), .ok d⟩ => some d
  | _ => none

/-- The process of a container that was run, and what it mounted. -/
def mounted : Act Action Answer → Option (ℕ × List String)
  | ⟨.host (.runContainer pid _), r⟩ => some (pid, r.mounted)
  | _ => none

theorem exists_run_of_mounted {l : List (Act Action Answer)} {pid : ℕ} {ds : List String}
    (h : (pid, ds) ∈ l.filterMap mounted) :
    ∃ req ans, (⟨.host (.runContainer pid req), ans⟩ : Act Action Answer) ∈ l ∧ ans.mounted = ds := by
  obtain ⟨⟨a, r⟩, hm, he⟩ := List.mem_filterMap.mp h
  cases a with
  | host b =>
    cases b with
    | runContainer q req =>
      obtain ⟨rfl, rfl⟩ := Prod.mk.inj (Option.some.inj he)
      exact ⟨req, r, hm, rfl⟩
    | addDisk sock disk => cases he
    | _ => cases he
  | _ => cases he

/-- The container of AcquireSandbox, then a second one with another image in the same VM. -/
def twoContainers : List (Label Choice Task) :=
  steps 0 13 100 ++ [.arrive (.request (.acquireSandbox ⟨"", "", "/a.erofs", "web", ""⟩))] ++ steps 1 10 101 ++
    [.arrive (.request (.addContainer ⟨"pool-7-3", "/b.erofs", "side", ""⟩))] ++ steps 3 5 102

/-- The second container of a VM gets the disk of the first one. -/
theorem second_container_crosses : ∃ x, (daemon poolOfOne).Reach (fun _ _ => True)
    (boot poolOfOne (Host.withBase poolOfOne)) x ∧ ¬ ∀ t ∈ x.threads, MountsOwnDisk t := by
  have hrun : ((daemon poolOfOne).exec (fun _ _ => true) (boot poolOfOne (Host.withBase poolOfOne))
      twoContainers).any (fun x => (x.threads[3]?).any fun t =>
        decide (t.log.filterMap mounted = [(100, ["/dev/vdb"])] ∧
          t.log.filterMap plugged = [(100, "vdc")])) = true := by
    decide +kernel
  obtain ⟨x, hx, hP⟩ := System.exists_reach hrun
  rw [Option.any_eq_true] at hP
  obtain ⟨t, ht, hlog⟩ := hP
  obtain ⟨hmounted, hplugged⟩ := of_decide_eq_true hlog
  refine ⟨x, hx.mono fun _ _ _ => trivial, fun hall => ?_⟩
  obtain ⟨req, ans, hm, hans⟩ := exists_run_of_mounted
    (show (100, ["/dev/vdb"]) ∈ t.log.filterMap mounted by rw [hmounted]; exact List.mem_singleton.mpr rfl)
  obtain ⟨sock, disk, name, hdisk, hname, -⟩ := hall t (List.mem_of_getElem? ht) 100 req ans hm "/dev/vdb"
    (by rw [hans]; exact List.mem_singleton.mpr rfl)
  have hmem : (100, name) ∈ t.log.filterMap plugged := List.mem_filterMap.mpr ⟨_, hdisk, rfl⟩
  rw [hplugged, List.mem_singleton] at hmem
  rw [(Prod.mk.inj hmem).2] at hname
  exact absurd hname (by decide)

theorem tidy_withBase (E : Env) : Tidy (Host.withBase E) :=
  ⟨fun _ _ hl => (by cases hl), fun _ _ _ hd => (by cases hd)⟩

/-- One container in each of two VMs. -/
def oneEach : List (Label Choice Task) :=
  steps 0 13 100 ++ [.arrive (.request (.acquireSandbox ⟨"", "", "/a.erofs", "web", ""⟩))] ++ steps 1 10 101 ++
    [.arrive (.request (.acquireSandbox ⟨"", "", "/b.erofs", "side", ""⟩))] ++ steps 3 20 102

theorem layer_is_own_disk_each : ∃ x, (daemon poolOfOne).Reach (fun x e => firstDisks x e = true)
    (boot poolOfOne (Host.withBase poolOfOne)) x ∧
    x.threads.map (fun t => t.log.filterMap mounted) = [[], [(100, ["/dev/vdb"])], [], [(102, ["/dev/vdb"])], []] ∧
    ∀ t ∈ x.threads, MountsOwnDisk t := by
  have hrun : ((daemon poolOfOne).exec firstDisks (boot poolOfOne (Host.withBase poolOfOne)) oneEach).any
      (fun x => decide (x.threads.map (fun t => t.log.filterMap mounted) =
        [[], [(100, ["/dev/vdb"])], [], [(102, ["/dev/vdb"])], []])) = true := by
    decide +kernel
  obtain ⟨x, hx, hP⟩ := System.exists_reach hrun
  exact ⟨x, hx, of_decide_eq_true hP, layer_is_own_disk (tidy_withBase poolOfOne) hx⟩

end CloudHv.Daemon
