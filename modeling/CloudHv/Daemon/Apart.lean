import CloudHv.Daemon.Dealing
import CloudHv.Daemon.Disks

/-!
# Apart — a request reaches the guest of its own VM only

Cloud Hypervisor processes listen in the state directories they were started for, and the registry has for an id
the process of that id's directory.  So whatever a task does to a guest it does to that of the VM it deals with,
whatever the other tasks do meanwhile.
-/

namespace CloudHv.Daemon

open Conc

/-! ### Sockets -/

/-- Processes listen in their own state directories. -/
def Host.Seated (h : Host) : Prop := ∀ p pid, h.listeners p = some pid → h.dirOf pid = some p.dropLast

section Host

variable {h h' : Host} {c : Choice} {pid q : ℕ}

theorem Host.Seated.pass (hS : h.Seated) (hd : h'.dirOf = h.dirOf)
    (hl : ∀ p pid, h'.listeners p = some pid → h.listeners p = some pid ∨ h.dirOf pid = some p.dropLast) :
    h'.Seated := by
  intro p pid hp
  rw [hd]
  rcases hl p pid hp with hp | hp
  · exact hS p pid hp
  · exact hp

theorem seated_spawn {dir : Path} (hS : h.Seated) (hnew : pid ∉ h.procs)
    (hp : h'.procs = h.procs.insert pid ⟨dir, false, none⟩)
    (hl : h'.listeners = Function.update h.listeners (dir ++ ["api.sock"]) (some pid)) :
    h'.Seated ∧ ∀ q d, h.dirOf q = some d → h'.dirOf q = some d := by
  have hkeep : ∀ q d, h.dirOf q = some d → h'.dirOf q = some d := by
    intro q d hq
    rw [dirOf_spawned hp, if_neg]
    · exact hq
    · rintro rfl
      rw [dirOf_of_not_mem hnew] at hq
      cases hq
  refine ⟨fun p q hq => ?_, hkeep⟩
  rw [hl] at hq
  by_cases he : p = dir ++ ["api.sock"]
  · subst he
    rw [Function.update_self] at hq
    obtain rfl := Option.some.inj hq
    rw [dirOf_spawned hp, if_pos rfl, List.dropLast_concat]
  · rw [Function.update_of_ne he] at hq
    exact hkeep _ _ (hS p q hq)

theorem seated_api {sock : Path} {call : ApiCall} (hS : h.Seated) (hreq : Dealing.Beside sock call)
    (hs : h.listeners sock = some pid) (he : h.apiEffect pid call = some h') : h'.Seated := by
  have hd : h'.dirOf = h.dirOf := by
    refine dirOf_of_fate (apiEffect_frame (f := Host.fate) (fun h pid u => fate_setGuest u)
      (fun _ _ _ => rfl) (fun _ _ => rfl) he)
  have hvsock : ∀ vsock : Path, vsock.dropLast = sock.dropLast →
      h'.listeners = Function.update h.listeners vsock (some pid) → h'.Seated := by
    intro vsock hv hl
    refine hS.pass hd fun p q hq => ?_
    rw [hl] at hq
    by_cases hp : p = vsock
    · subst hp
      rw [Function.update_self] at hq
      obtain rfl := Option.some.inj hq
      exact .inr (by rw [hS sock _ hs, hv])
    · rw [Function.update_of_ne hp] at hq
      exact .inl hq
  cases call with
  | create disks cid vsock =>
    obtain rfl := Option.some.inj he
    exact hvsock vsock hreq rfl
  | restore src =>
    obtain ⟨u, -, rfl⟩ := Option.map_eq_some_iff.mp he
    exact hvsock src.vsockSocket hreq rfl
  | snapshot dest =>
    obtain ⟨u, -, rfl⟩ := Option.map_eq_some_iff.mp he
    exact hS.pass hd fun p q hq => .inl hq
  | _ =>
    obtain rfl := Option.some.inj he
    exact hS

theorem seated_removeDirs (dirs : List Path) (hS : h.Seated) :
    (dirs.foldl Host.removeDir h).Seated ∧ (dirs.foldl Host.removeDir h).dirOf = h.dirOf := by
  have hd := dirOf_of_fate (fate_removeDirs (h := h) dirs)
  refine ⟨?_, hd⟩
  clear hd
  induction dirs generalizing h with
  | nil => exact hS
  | cons d dirs ih =>
    refine ih (hS.pass (dirOf_of_fate rfl) fun p q hq => .inl ?_)
    have hq' : (if d <+: p then none else h.listeners p) = some q := hq
    split at hq'
    · cases hq'
    · exact hq'

theorem seated_host {E : Env} {g : Dealing} {b : HostAct} {r : b.Answer} (hS : h.Seated)
    (hreq : (dealing E).req g (.host b)) (hp : h.perform b c = some (r, h')) :
    h'.Seated ∧ ∀ q d, h.dirOf q = some d → h'.dirOf q = some d := by
  have hrest : h'.fate = h.fate → h'.listeners = h.listeners →
      h'.Seated ∧ ∀ q d, h.dirOf q = some d → h'.dirOf q = some d := by
    intro hf hl
    refine ⟨hS.pass (dirOf_of_fate hf) fun p q hq => .inl (hl ▸ hq), fun q d hq => ?_⟩
    rwa [dirOf_of_fate hf]
  have hframe : b.kind ∉ [.spawn, .signal, .pidFile, .remove, .ch] →
      h'.Seated ∧ ∀ q d, h.dirOf q = some d → h'.dirOf q = some d := by
    intro hk
    have hk' : b.kind ∉ [.spawn, .signal, .pidFile, .remove] := fun hm => hk (by simp at hm ⊢; tauto)
    have hch : b.kind ≠ .ch := fun he => hk (by simp [he])
    exact hrest (same_perform hp hk').1 (perform_frame Host.listeners hp hk' (fun _ h pid u => listeners_setGuest)
      (fun _ _ _ => rfl) (fun he => absurd he hch) fun _ _ _ _ _ => rfl)
  cases b with
  | spawnCh dir =>
    simp only [Host.perform] at hp
    split at hp
    · obtain ⟨-, rfl⟩ := Prod.mk.inj (Option.some.inj hp)
      exact hrest rfl rfl
    · split at hp
      · cases hp
      · next hnew =>
        obtain ⟨-, rfl⟩ := Prod.mk.inj (Option.some.inj hp)
        exact seated_spawn hS hnew rfl rfl
  | sigterm pid =>
    obtain ⟨-, rfl⟩ := Prod.mk.inj (Option.some.inj hp)
    refine ⟨hS.pass dirOf_tell fun p q hq => .inl ?_, fun q d hq => ?_⟩
    · rwa [listeners_tell] at hq
    · rwa [dirOf_tell]
  | awaitGone pid =>
    obtain ⟨-, rfl⟩ := Prod.mk.inj (Option.some.inj hp)
    exact hrest rfl rfl
  | sigkill pid =>
    obtain ⟨-, rfl⟩ := Prod.mk.inj (Option.some.inj hp)
    exact hrest rfl rfl
  | readPid dir =>
    obtain ⟨-, rfl⟩ := Prod.mk.inj (Option.some.inj hp)
    exact hrest rfl rfl
  | writePid dir pid =>
    simp only [Host.perform] at hp
    split at hp
    · obtain ⟨-, rfl⟩ := Prod.mk.inj (Option.some.inj hp)
      exact hrest rfl rfl
    · obtain ⟨-, rfl⟩ := Prod.mk.inj (Option.some.inj hp)
      exact hrest rfl rfl
  | removeDirAll dir =>
    obtain ⟨-, rfl⟩ := Prod.mk.inj (Option.some.inj hp)
    split
    · exact ⟨hS, fun _ _ hq => hq⟩
    · obtain ⟨hS', hd⟩ := seated_removeDirs [dir] hS
      exact ⟨hS', fun q d hq => (congrFun hd q).trans hq⟩
  | chReady sock =>
    obtain ⟨-, rfl⟩ := Prod.mk.inj (Option.some.inj hp)
    exact hrest rfl rfl
  | api sock call =>
    have hf : h'.fate = h.fate := (same_perform hp (by simp [HostAct.kind])).1
    rcases request_cases hp with rfl | ⟨u, hd⟩
    · exact hrest rfl rfl
    · obtain ⟨pid, hs, hd⟩ := Option.bind_eq_some_iff.mp hd
      obtain ⟨h₂, he, hq⟩ := Option.map_eq_some_iff.mp hd
      obtain ⟨-, rfl⟩ := Prod.mk.inj hq
      refine ⟨seated_api hS hreq.2 hs he, fun q d hq => ?_⟩
      rwa [dirOf_of_fate hf]
  | _ => exact hframe (by simp [HostAct.kind])

/-! ### Guests -/

theorem guestOf_setGuest_ne {u : Agent.Guest} (hq : q ≠ pid) : (h.setGuest pid u).guestOf q = h.guestOf q := by
  unfold Host.setGuest Host.guestOf
  split
  · rw [Finmap.lookup_insert_of_ne _ hq]
  · rfl

/-- The process whose guest a call can change. -/
def HostAct.callee (h : Host) : HostAct → Option ℕ
  | .api sock _ | .addDisk sock _ => h.listeners sock
  | .configureNetwork conn _ _ _ | .runContainer conn _ | .killContainer conn _ _ | .waitContainer conn _
  | .deleteContainer conn _ => some conn
  | _ => none

theorem rpc_guest {α : Type} {conn : ℕ} {m : Agent.Guest → Option (Except String α × Agent.Guest)}
    {r : Except String α} (hp : h.rpc c conn m = some (r, h')) (hq : q ≠ conn) : h'.guestOf q = h.guestOf q := by
  unfold Host.rpc at hp
  split at hp
  · obtain ⟨-, rfl⟩ := Prod.mk.inj (Option.some.inj hp)
    rfl
  · cases hp
  · split at hp
    · obtain ⟨-, rfl⟩ := Prod.mk.inj (Option.some.inj hp)
      exact guestOf_setGuest_ne hq
    · obtain ⟨-, rfl⟩ := Prod.mk.inj (Option.some.inj hp)
      exact guestOf_setGuest_ne hq

theorem run_guest {conn : ℕ} {req : Agent.CreateRequest} {r : RunAnswer} (hp : h.performRun c conn req = some (r, h'))
    (hq : q ≠ conn) : h'.guestOf q = h.guestOf q := by
  unfold Host.performRun at hp
  split at hp
  · obtain ⟨-, rfl⟩ := Prod.mk.inj (Option.some.inj hp)
    rfl
  · split at hp
    · cases hp
    · split at hp
      · cases hp
      · obtain ⟨-, rfl⟩ := Prod.mk.inj (Option.some.inj hp)
        exact guestOf_setGuest_ne hq

theorem apiEffect_guest {call : ApiCall} (hp : h.apiEffect pid call = some h') (hq : q ≠ pid) :
    h'.guestOf q = h.guestOf q := by
  cases call with
  | create disks cid vsock =>
    obtain rfl := Option.some.inj hp
    exact guestOf_setGuest_ne (h := h) hq
  | snapshot dest =>
    obtain ⟨u, -, rfl⟩ := Option.map_eq_some_iff.mp hp
    rfl
  | restore src =>
    obtain ⟨u, -, rfl⟩ := Option.map_eq_some_iff.mp hp
    exact guestOf_setGuest_ne (h := h) hq
  | _ =>
    obtain rfl := Option.some.inj hp
    rfl

/-- **A call changes the guest of the process it reaches, if any.** -/
theorem guest_frame {b : HostAct} {r : b.Answer} (hp : h.perform b c = some (r, h')) (hq : b.callee h ≠ some q) :
    h'.guestOf q = h.guestOf q := by
  have hto : ∀ {conn : ℕ}, some conn ≠ some q → q ≠ conn := fun hne he => hne (he ▸ rfl)
  have hid : ∀ {α : Type} {x y : α}, some (x, h) = some (y, h') → h'.guestOf q = h.guestOf q := by
    intro α x y he
    obtain ⟨-, rfl⟩ := Prod.mk.inj (Option.some.inj he)
    rfl
  cases b with
  | createDirAll p => rw [orFail_frame hp]
  | createFile p => rw [orFail_frame hp]
  | stripKernelIp p => rw [orFail_frame hp]
  | probePod ns => rw [orFail_frame hp]
  | api sock call =>
    rcases request_cases hp with rfl | ⟨u, hd⟩
    · rfl
    obtain ⟨pid, hs, hd⟩ := Option.bind_eq_some_iff.mp hd
    obtain ⟨h₂, he, he'⟩ := Option.map_eq_some_iff.mp hd
    obtain ⟨-, rfl⟩ := Prod.mk.inj he'
    refine apiEffect_guest he (hto ?_)
    rw [← hs]
    exact hq
  | addDisk sock disk =>
    rcases request_cases hp with rfl | ⟨u, hd⟩
    · rfl
    obtain ⟨pid, hs, hd⟩ := Option.bind_eq_some_iff.mp hd
    obtain ⟨v, -, he'⟩ := Option.map_eq_some_iff.mp hd
    obtain ⟨-, rfl⟩ := Prod.mk.inj he'
    refine guestOf_setGuest_ne (hto ?_)
    rw [← hs]
    exact hq
  | configureNetwork conn ip gw len => exact rpc_guest hp (hto hq)
  | killContainer conn id sig => exact rpc_guest hp (hto hq)
  | waitContainer conn id => exact rpc_guest hp (hto hq)
  | deleteContainer conn id => exact rpc_guest hp (hto hq)
  | runContainer conn req => exact run_guest hp (hto hq)
  | spawnCh dir =>
    simp only [Host.perform] at hp
    split at hp
    · exact hid hp
    · split at hp
      · cases hp
      · next hnew =>
        obtain ⟨-, rfl⟩ := Prod.mk.inj (Option.some.inj hp)
        show ((h.procs.insert c.pid ⟨dir, false, none⟩).lookup q).bind _ = (h.procs.lookup q).bind _
        -- a new process has no guest yet
        by_cases he : q = c.pid
        · rw [he, Finmap.lookup_insert, Finmap.lookup_eq_none.mpr hnew]
          rfl
        · rw [Finmap.lookup_insert_of_ne _ he]
  | sigterm pid =>
    obtain ⟨-, rfl⟩ := Prod.mk.inj (Option.some.inj hp)
    unfold Host.tell Host.guestOf
    split
    · next v hv =>
      by_cases he : q = pid
      · rw [he, Finmap.lookup_insert, hv]
        rfl
      · rw [Finmap.lookup_insert_of_ne _ he]
    · rfl
  | awaitGone pid => exact hid hp
  | sigkill pid => exact hid hp
  | readPid dir => exact hid hp
  | fileMtime f => exact hid hp
  | baseSnapshotValid d => exact hid hp
  | chReady s => exact hid hp
  | agentHealthy s => exact hid hp
  | removeDirAll dir =>
    obtain ⟨-, rfl⟩ := Prod.mk.inj (Option.some.inj hp)
    split <;> rfl
  | writePid dir pid =>
    simp only [Host.perform] at hp
    split at hp <;> (obtain ⟨-, rfl⟩ := Prod.mk.inj (Option.some.inj hp); rfl)
  | prepareSnapshot base dir cid vsock =>
    simp only [Host.perform] at hp
    split at hp
    · exact hid hp
    · obtain ⟨-, rfl⟩ := Prod.mk.inj (Option.some.inj hp)
      rfl
    · cases hp
  | addNet sock tap mac =>
    rcases request_cases hp with rfl | ⟨u, hd⟩
    · rfl
    obtain ⟨pid, -, hd⟩ := Option.bind_eq_some_iff.mp hd
    obtain ⟨d, -, he'⟩ := Option.map_eq_some_iff.mp hd
    obtain ⟨-, rfl⟩ := Prod.mk.inj he'
    rfl
  | connectAgent s =>
    simp only [Host.perform] at hp
    split at hp <;> first | exact hid hp | cases hp
  | delLink tap =>
    simp only [Host.perform] at hp
    split at hp
    · exact hid hp
    · split at hp <;> (obtain ⟨-, rfl⟩ := Prod.mk.inj (Option.some.inj hp); rfl)
  | createTap tap =>
    simp only [Host.perform] at hp
    split at hp
    · exact hid hp
    · obtain ⟨-, rfl⟩ := Prod.mk.inj (Option.some.inj hp)
      unfold Host.openTap
      split <;> rfl
  | linkIndex tap =>
    simp only [Host.perform] at hp
    split at hp <;> first | exact hid hp | cases hp
  | moveToNetns tap link ns =>
    simp only [Host.perform] at hp
    split at hp
    · exact hid hp
    · obtain ⟨-, rfl⟩ := Prod.mk.inj (Option.some.inj hp)
      unfold Host.moveLink
      split <;> rfl
  | wireTap ns tap =>
    simp only [Host.perform] at hp
    split at hp <;> first | exact hid hp | cases hp

end Host

/-! ### The invariant -/

/-- The VMs of the pool are in their own state directories. -/
structure Pool.Housed (E : Env) (p : Pool) : Prop where
  ready : ∀ vm ∈ p.ready, Placed E vm
  active : ∀ id vm, p.active.lookup id = some vm → vm.vmId = id ∧ Placed E vm

theorem Pool.Housed.perform {E : Env} {p : Pool} {g : Dealing} {b : PoolAct} (hp : p.Housed E)
    (hreq : (dealing E).req g (.pool b)) : (p.perform b).2.Housed E := by
  refine ⟨?_, ?_⟩
  · cases b with
    | readyPop => exact fun vm hvm => hp.ready vm (List.dropLast_subset _ hvm)
    | readyPush v =>
      intro vm hvm
      rcases List.mem_append.mp hvm with hvm | hvm
      · exact hp.ready vm hvm
      · rw [List.mem_singleton.mp hvm]
        exact hreq
    | _ => exact hp.ready
  · cases b with
    | activeInsert v =>
      intro id vm hvm
      have hvm' : (p.active.insert v.vmId v).lookup id = some vm := hvm
      by_cases he : id = v.vmId
      · subst he
        rw [Finmap.lookup_insert] at hvm'
        obtain rfl := Option.some.inj hvm'
        exact ⟨rfl, hreq⟩
      · rw [Finmap.lookup_insert_of_ne _ he] at hvm'
        exact hp.active id vm hvm'
    | activeRemove k =>
      intro id vm hvm
      have hvm' : (p.active.erase k).lookup id = some vm := hvm
      by_cases he : id = k
      · subst he
        rw [Finmap.lookup_erase] at hvm'
        cases hvm'
      · rw [Finmap.lookup_erase_ne he] at hvm'
        exact hp.active id vm hvm'
    | _ => exact hp.active

/-- A task's connection reaches a process of the directory it deals with, and that is the directory of the VM that
its request names. -/
structure Dealing.Sound (E : Env) (h : Host) (g : Dealing) : Prop where
  reached : ∀ pid, g.conn = some pid → ∃ d, g.home = some d ∧ h.dirOf pid = some d
  named : ∀ v d, g.task.vm = some v → g.home = some d → d = E.cfg.vmDir v

structure ApartInv (E : Env) (w : World) (gs : List Dealing) : Prop where
  seated : w.host.Seated
  registry : ∀ id pid, w.agents.lookup id = some pid → w.host.dirOf pid = some (E.cfg.vmDir id)
  pool : w.pool.Housed E
  known : ∀ g ∈ gs, g.Sound E w.host

section Step

variable {E : Env} {w w' : World} {gs : List Dealing} {i : ℕ} {g : Dealing} {c : Choice}

theorem Dealing.Sound.mono {h h' : Host} (hg : g.Sound E h) (hd : ∀ q d, h.dirOf q = some d → h'.dirOf q = some d) :
    g.Sound E h' := by
  refine ⟨fun pid hp => ?_, hg.named⟩
  obtain ⟨d, hhome, hdir⟩ := hg.reached pid hp
  exact ⟨d, hhome, hd _ _ hdir⟩

theorem Dealing.Sound.init (h : Host) (t : Task) : (Dealing.init t).Sound E h :=
  ⟨fun _ hc => (by cases hc), fun _ _ _ hd => (by cases hd)⟩

/-- A task that takes up another VM is not connected. -/
theorem Dealing.Sound.settle {h : Host} {d : Path} (hg : g.task.vm = none ∧ g.conn = none) :
    Dealing.Sound E h { g with home := some d } := by
  refine ⟨fun pid hc => ?_, fun v d' hv => ?_⟩
  · have hc' : g.conn = some pid := hc
    rw [hg.2] at hc'
    cases hc'
  · have hv' : g.task.vm = some v := hv
    rw [hg.1] at hv'
    cases hv'

/-- The threads after a step: the one that acted, the others, and the new ones. -/
theorem apart_next {h h' : Host} {a : Action} {r : Answer a} (hk : ∀ g ∈ gs, g.Sound E h)
    (hd : ∀ q d, h.dirOf q = some d → h'.dirOf q = some d) (hg : ((dealing E).upd g a r).Sound E h') :
    ∀ u ∈ gs.set i ((dealing E).upd g a r) ++ (spawned a r).map Dealing.init, u.Sound E h' := by
  intro u hu
  rcases List.mem_append.mp hu with hu | hu
  · rcases List.mem_or_eq_of_mem_set hu with hu | rfl
    · exact (hk u hu).mono hd
    · exact hg
  · obtain ⟨t, -, rfl⟩ := List.mem_map.mp hu
    exact .init h' t

theorem apart_host {b : HostAct} {r : b.Answer} (hI : ApartInv E w gs) (hi : gs[i]? = some g)
    (hreq : (dealing E).req g (.host b)) (hp : perform E w (.host b) c = some (r, w')) :
    (dealing E).may g (.host b) r ∧
      ApartInv E w' (gs.set i ((dealing E).upd g (.host b) r) ++ (spawned (.host b) r).map Dealing.init) := by
  obtain ⟨h', hp', rfl⟩ := perform_host hp
  obtain ⟨hS, hd⟩ := seated_host hI.seated hreq hp'
  have hg : g.Sound E w.host := hI.known g (List.mem_of_getElem? hi)
  have hnext : ((dealing E).upd g (.host b) r).Sound E h' := by
    cases b with
    | spawnCh dir => exact .settle hreq
    | connectAgent vsock =>
      cases r with
      | error e => exact hg.mono hd
      | ok pid =>
        refine ⟨fun q hq => ?_, hg.named⟩
        obtain rfl := Option.some.inj hq
        exact ⟨_, hreq.1, hd _ _ (hI.seated vsock pid (connectAgent_answer hp'))⟩
    | runContainer conn req => exact ⟨(hg.mono hd).reached, hg.named⟩
    | _ => exact hg.mono hd
  refine ⟨?_, hS, fun id pid hl => hd _ _ (hI.registry id pid hl), hI.pool, apart_next hI.known hd hnext⟩
  cases b with
  | prepareSnapshot base dir cid vsock =>
    intro p hr
    subst hr
    simp only [Host.perform] at hp'
    split at hp'
    · cases hp'
    · obtain ⟨hq, -⟩ := Prod.mk.inj (Option.some.inj hp')
      rw [← Except.ok.inj hq]
    · cases hp'
  | _ => exact trivial

theorem apart_pool {b : PoolAct} {r : b.Answer} (hI : ApartInv E w gs) (hi : gs[i]? = some g)
    (hreq : (dealing E).req g (.pool b)) (hp : perform E w (.pool b) c = some (r, w')) :
    (dealing E).may g (.pool b) r ∧
      ApartInv E w' (gs.set i ((dealing E).upd g (.pool b) r) ++ (spawned (.pool b) r).map Dealing.init) := by
  obtain ⟨rfl, rfl⟩ := perform_pool hp
  have hg : g.Sound E w.host := hI.known g (List.mem_of_getElem? hi)
  have hhost : (w.takeBack b).host = w.host := by cases b <;> rfl
  have hagents : (w.takeBack b).agents = w.agents := by cases b <;> rfl
  have hnext : ((dealing E).upd g (.pool b) (w.pool.perform b).1).Sound E w.host := by
    cases b with
    | readyPop =>
      show Dealing.Sound E w.host (match w.pool.ready.getLast? with
        | some vm => { g with home := some (E.cfg.vmDir vm.vmId) }
        | none => g)
      cases w.pool.ready.getLast? with
      | some vm => exact .settle hreq
      | none => exact hg
    | activeGet id =>
      refine ⟨fun pid hc => ?_, fun v d hv hd => ?_⟩
      · have hc' : g.conn = some pid := hc
        rw [hreq.2] at hc'
        cases hc'
      · rw [hreq.1 v hv]
        exact (Option.some.inj hd).symm
    | _ => exact hg
  refine ⟨?_, ?_, ?_, hI.pool.perform hreq, ?_⟩
  · cases b with
    | readyPop => exact fun vm hvm => hI.pool.ready vm (List.mem_of_getLast? hvm)
    | activeGet id => exact fun vm hvm => hI.pool.active id vm hvm
    | _ => exact trivial
  · show (w.takeBack b).host.Seated
    rw [hhost]
    exact hI.seated
  · show ∀ id pid, (w.takeBack b).agents.lookup id = some pid → (w.takeBack b).host.dirOf pid = some (E.cfg.vmDir id)
    rw [hhost, hagents]
    exact hI.registry
  · show ∀ u ∈ _, Dealing.Sound E (w.takeBack b).host u
    rw [hhost]
    exact apart_next hI.known (fun _ _ hq => hq) hnext

theorem apart_step {a : Action} {r : Answer a} (hI : ApartInv E w gs) (hi : gs[i]? = some g)
    (hreq : (dealing E).req g a) (hp : perform E w a c = some (r, w')) :
    (dealing E).may g a r ∧
      ApartInv E w' (gs.set i ((dealing E).upd g a r) ++ (spawned a r).map Dealing.init) := by
  have hg : g.Sound E w.host := hI.known g (List.mem_of_getElem? hi)
  cases a with
  | host b => exact apart_host hI hi hreq hp
  | pool b => exact apart_pool hI hi hreq hp
  | snap b =>
    obtain ⟨s, dirs, -, rfl⟩ := perform_snap hp
    obtain ⟨hS, hd⟩ := seated_removeDirs dirs hI.seated
    have hkeep : ∀ q d, w.host.dirOf q = some d → (dirs.foldl Host.removeDir w.host).dirOf q = some d :=
      fun q d hq => by rwa [hd]
    exact ⟨trivial, hS, fun id pid hl => hkeep _ _ (hI.registry id pid hl), hI.pool,
      apart_next hI.known hkeep (hg.mono hkeep)⟩
  | agentsGet id =>
    obtain ⟨rfl, rfl⟩ := Prod.mk.inj (Option.some.inj hp)
    refine ⟨trivial, hI.seated, hI.registry, hI.pool, apart_next hI.known (fun _ _ hq => hq) ⟨fun pid hc => ?_, ?_⟩⟩
    · exact ⟨_, rfl, hI.registry id pid hc⟩
    · intro v d hv hd
      rw [hreq.1 v hv]
      exact (Option.some.inj hd).symm
  | agentsInsert id pid =>
    obtain ⟨-, rfl⟩ := Prod.mk.inj (Option.some.inj hp)
    refine ⟨trivial, hI.seated, fun k q hq => ?_, hI.pool, apart_next hI.known (fun _ _ hq => hq) hg⟩
    have hq' : (w.agents.insert id pid).lookup k = some q := hq
    by_cases he : k = id
    · subst he
      rw [Finmap.lookup_insert] at hq'
      obtain rfl := Option.some.inj hq'
      obtain ⟨d, hhome, hdir⟩ := hg.reached pid hreq.2
      rw [hreq.1] at hhome
      rw [Option.some.inj hhome]
      exact hdir
    · rw [Finmap.lookup_insert_of_ne _ he] at hq'
      exact hI.registry k q hq'
  | agentsRemove id =>
    obtain ⟨-, rfl⟩ := Prod.mk.inj (Option.some.inj hp)
    refine ⟨trivial, hI.seated, fun k q hq => ?_, hI.pool, apart_next hI.known (fun _ _ hq => hq) hg⟩
    have hq' : (w.agents.erase id).lookup k = some q := hq
    by_cases he : k = id
    · subst he
      rw [Finmap.lookup_erase] at hq'
      cases hq'
    · rw [Finmap.lookup_erase_ne he] at hq'
      exact hI.registry k q hq'
  | bindSocket =>
    rcases perform_bind hp with rfl | rfl <;> exact ⟨trivial, hI.seated, hI.registry, hI.pool,
      apart_next hI.known (fun _ _ hq => hq) hg⟩
  | reply resp =>
    obtain ⟨-, rfl⟩ := Prod.mk.inj (Option.some.inj hp)
    cases resp <;> exact ⟨trivial, hI.seated, hI.registry, hI.pool, apart_next hI.known (fun _ _ hq => hq) hg⟩
  | touch f t =>
    obtain ⟨-, rfl⟩ := Prod.mk.inj (Option.some.inj hp)
    exact ⟨trivial, hI.seated, hI.registry, hI.pool,
      apart_next hI.known (fun _ _ hq => hq) (hg.mono fun _ _ hq => hq)⟩
  | _ =>
    obtain ⟨-, rfl⟩ := Prod.mk.inj (Option.some.inj hp)
    exact ⟨trivial, hI.seated, hI.registry, hI.pool, apart_next hI.known (fun _ _ hq => hq) hg⟩

end Step

/-- The VM directory a thread deals with. -/
def dealings (E : Env) (t : Thread Action Answer Task) : Dealing := System.ghost (dealing E) Dealing.init t

section Runs

variable {E : Env} {h : Host} {x : DaemonConf} {ok : DaemonConf → Event Action Answer Task → Prop}

theorem apart_inv (hS : h.Seated) (hx : (daemon E).Reach ok (boot E h) x) :
    ApartInv E x.shared (x.threads.map (dealings E)) ∧
      ∀ t ∈ x.threads, wp (dealing E) t.prog (fun _ _ => True) (dealings E t) := by
  refine System.Reach.inv (ApartInv E) (fun _ => True) (fun t => body_dealing t) ?_ ?_ ?_ ?_ hx
  · refine ⟨hS, fun id pid hl => (by cases hl), ⟨fun vm hvm => (by cases hvm), fun id vm hvm => (by cases hvm)⟩, ?_⟩
    intro g hg
    rw [List.mem_singleton.mp hg]
    exact .init h .main
  · intro t ht
    rw [List.mem_singleton.mp ht]
    exact body_dealing .main
  · intro x t hI _ _
    refine ⟨hI.seated, hI.registry, hI.pool, fun g hg => ?_⟩
    rcases List.mem_append.mp hg with hg | hg
    · exact hI.known g hg
    · rw [List.mem_singleton.mp hg]
      exact .init _ t
  · intro x i g a c r w' hI hi hreq hp _
    exact apart_step hI hi hreq hp

/-- Only host calls change guests. -/
theorem guests_frame {w w' : World} {a : Action} {c : Choice} {r : Answer a} (hp : perform E w a c = some (r, w'))
    (ha : ¬ ∃ b, a = .host b) (q : ℕ) : w'.host.guestOf q = w.host.guestOf q := by
  cases a with
  | host b => exact absurd ⟨b, rfl⟩ ha
  | pool b =>
    obtain ⟨-, rfl⟩ := perform_pool hp
    show (w.takeBack b).host.guestOf q = _
    cases b <;> rfl
  | snap b =>
    obtain ⟨s, dirs, -, rfl⟩ := perform_snap hp
    show (dirs.foldl Host.removeDir w.host).guestOf q = _
    clear hp
    generalize w.host = h
    induction dirs generalizing h with
    | nil => rfl
    | cons d dirs ih => rw [List.foldl_cons, ih, Host.guestOf, Host.removeDir, Host.guestOf]
  | bindSocket => rcases perform_bind hp with rfl | rfl <;> rfl
  | reply resp =>
    obtain ⟨-, rfl⟩ := Prod.mk.inj (Option.some.inj hp)
    cases resp <;> rfl
  | _ =>
    obtain ⟨-, rfl⟩ := Prod.mk.inj (Option.some.inj hp)
    rfl

/-! ### Along a log -/

/-- A connected task stays with its VM. -/
def Dealing.Stays (g g' : Dealing) : Prop :=
  g'.task = g.task ∧ ∀ pid, g.conn = some pid → g'.conn = some pid ∧ g'.home = g.home

theorem Dealing.Stays.refl (g : Dealing) : g.Stays g := ⟨rfl, fun _ hc => ⟨hc, rfl⟩⟩

theorem Dealing.Stays.trans {g₁ g₂ g₃ : Dealing} (h₁ : g₁.Stays g₂) (h₂ : g₂.Stays g₃) : g₁.Stays g₃ := by
  refine ⟨h₂.1.trans h₁.1, fun pid hc => ?_⟩
  obtain ⟨hc₂, hh₂⟩ := h₁.2 pid hc
  obtain ⟨hc₃, hh₃⟩ := h₂.2 pid hc₂
  exact ⟨hc₃, hh₃.trans hh₂⟩

theorem stays_upd {g : Dealing} {a : Action} {r : Answer a} (hreq : (dealing E).req g a) :
    g.Stays ((dealing E).upd g a r) := by
  have hfree : ∀ g' : Dealing, g'.task = g.task → g.conn = none → g.Stays g' := by
    intro g' ht hn
    refine ⟨ht, fun pid hc => ?_⟩
    rw [hn] at hc
    cases hc
  cases a with
  | pool b =>
    cases b with
    | readyPop =>
      cases r with
      | none => exact .refl g
      | some vm => exact hfree _ rfl hreq.2
    | activeGet id => exact hfree _ rfl hreq.2
    | _ => exact .refl g
  | host b =>
    cases b with
    | spawnCh dir => exact hfree _ rfl hreq.2
    | connectAgent vsock =>
      cases r with
      | error e => exact .refl g
      | ok pid => exact hfree _ rfl hreq.2
    | runContainer conn req => exact ⟨rfl, fun _ hc => ⟨hc, rfl⟩⟩
    | _ => exact .refl g
  | agentsGet id => exact hfree _ rfl hreq.2
  | _ => exact .refl g

/-- What the log of a task is checked for, entry by entry. -/
theorem dealings_log (hS : h.Seated) (hx : (daemon E).Reach ok (boot E h) x) {t : Thread Action Answer Task}
    (ht : t ∈ x.threads) {pre post : List (Act Action Answer)} {a : Action} {r : Answer a}
    (hl : t.log = pre ++ ⟨a, r⟩ :: post) :
    (dealing E).req (pre.foldl (fun g e => (dealing E).upd g e.1 e.2) (Dealing.init t.task)) a :=
  System.Reach.log (S := daemon E) (fun g a _ => (dealing E).req g a) (fun x hx => apart_inv hS hx)
    (fun t ht => by rw [List.mem_singleton.mp ht]; rfl) (fun _ _ _ _ _ _ _ _ _ hreq _ _ => hreq) hx t ht pre a r post hl

/-- From one point of a log to a later one. -/
theorem dealings_stay (hS : h.Seated) (hx : (daemon E).Reach ok (boot E h) x) {t : Thread Action Answer Task}
    (ht : t ∈ x.threads) (pre mid post : List (Act Action Answer)) (hl : t.log = pre ++ (mid ++ post)) :
    (pre.foldl (fun g e => (dealing E).upd g e.1 e.2) (Dealing.init t.task)).Stays
      ((pre ++ mid).foldl (fun g e => (dealing E).upd g e.1 e.2) (Dealing.init t.task)) := by
  induction mid generalizing pre with
  | nil =>
    rw [List.append_nil]
    exact .refl _
  | cons e mid ih =>
    obtain ⟨a, r⟩ := e
    have hl' : t.log = pre ++ ⟨a, r⟩ :: (mid ++ post) := by rw [hl, List.cons_append]
    have hone := stays_upd (r := r) (dealings_log hS hx ht hl')
    have hrest := ih (pre ++ [⟨a, r⟩]) (by rw [hl', List.append_assoc, List.singleton_append])
    rw [List.foldl_append, List.foldl_cons, List.foldl_nil, List.append_assoc, List.singleton_append] at hrest
    exact hone.trans hrest

/-! ### What a task has run -/

/-- The process of a call to the agent. -/
def HostAct.agentCall : HostAct → Option ℕ
  | .configureNetwork conn _ _ _ | .runContainer conn _ | .killContainer conn _ _ | .waitContainer conn _
  | .deleteContainer conn _ => some conn
  | _ => none

theorem conn_of_agentCall {g : Dealing} {b : HostAct} {pid : ℕ} (hreq : (dealing E).req g (.host b))
    (hb : b.agentCall = some pid) : g.conn = some pid := by
  cases b with
  | configureNetwork conn ip gw len =>
    obtain rfl := Option.some.inj hb
    exact hreq
  | killContainer conn id sig =>
    obtain rfl := Option.some.inj hb
    exact hreq
  | waitContainer conn id =>
    obtain rfl := Option.some.inj hb
    exact hreq
  | deleteContainer conn id =>
    obtain rfl := Option.some.inj hb
    exact hreq
  | runContainer conn req =>
    obtain rfl := Option.some.inj hb
    exact hreq.1
  | _ => cases hb

/-- Whatever guest a call can change is one of the directory that the task deals with. -/
theorem callee_home {g : Dealing} {b : HostAct} {q : ℕ} (hS : h.Seated) (hg : g.Sound E h)
    (hreq : (dealing E).req g (.host b)) (hb : b.callee h = some q) : ∃ d, g.home = some d ∧ h.dirOf q = some d := by
  have hcall : ∀ pid, b.agentCall = some pid → some pid = some q → ∃ d, g.home = some d ∧ h.dirOf q = some d := by
    intro pid hpid hq
    obtain rfl := Option.some.inj hq
    exact hg.reached pid (conn_of_agentCall hreq hpid)
  cases b with
  | api sock call => exact ⟨_, hreq.1, hS sock q hb⟩
  | addDisk sock disk => exact ⟨_, hreq, hS sock q hb⟩
  | configureNetwork conn ip gw len => exact hcall conn rfl hb
  | killContainer conn id sig => exact hcall conn rfl hb
  | waitContainer conn id => exact hcall conn rfl hb
  | deleteContainer conn id => exact hcall conn rfl hb
  | runContainer conn req => exact hcall conn rfl hb
  | _ => cases hb

/-- The process of a call is, for good, one of the directory that the task dealt with then and deals with now. -/
theorem agentCall_dir (hS : h.Seated) (hx : (daemon E).Reach ok (boot E h) x) {t : Thread Action Answer Task}
    (ht : t ∈ x.threads) {pre post : List (Act Action Answer)} {b : HostAct} {r : b.Answer} {pid : ℕ}
    (hl : t.log = pre ++ ⟨.host b, r⟩ :: post) (hb : b.agentCall = some pid) :
    ∃ d, (pre.foldl (fun g e => (dealing E).upd g e.1 e.2) (Dealing.init t.task)).home = some d ∧
      (dealings E t).home = some d ∧ x.shared.host.dirOf pid = some d := by
  have hc := conn_of_agentCall (dealings_log hS hx ht hl) hb
  have hstay := dealings_stay hS hx ht pre (⟨.host b, r⟩ :: post) [] (by rw [hl, List.append_nil])
  rw [← hl] at hstay
  obtain ⟨hconn, hhome⟩ := hstay.2 pid hc
  obtain ⟨d, hd, hdir⟩ := ((apart_inv hS hx).1.known (dealings E t) (List.mem_map_of_mem ht)).reached pid hconn
  exact ⟨d, hhome.symm.trans hd, hd, hdir⟩

theorem task_dealings (t : Thread Action Answer Task) : (dealings E t).task = t.task := by
  refine System.ghost_reading (f := Dealing.task) (fun g a r => ?_) t
  cases a with
  | pool b =>
    cases b with
    | readyPop => cases r <;> rfl
    | _ => rfl
  | host b =>
    cases b with
    | connectAgent vsock => cases r <;> rfl
    | _ => rfl
  | _ => rfl

/-- **Guests are apart.**  Whatever runs at the same time, the calls of a request that names a VM go to a process of
that VM's directory, and so do the calls of an acquire to the VM that it answers with; and a step changes no guest
but one in the directory its own task deals with. -/
theorem guests_apart (hS : h.Seated) (hx : (daemon E).Reach (fun _ _ => True) (boot E h) x) :
    (∀ t ∈ x.threads, ∀ id, t.task.vm = some id → ∀ b r pid, (⟨.host b, r⟩ : Act Action Answer) ∈ t.log →
      b.agentCall = some pid → x.shared.host.dirOf pid = some (E.cfg.vmDir id)) ∧
    (∀ t ∈ x.threads, ∀ pre a u post, t.log = pre ++ ⟨.reply (.acquired a), u⟩ :: post → ∀ b r pid,
      (⟨.host b, r⟩ : Act Action Answer) ∈ pre → b.agentCall = some pid →
      x.shared.host.dirOf pid = some (E.cfg.vmDir a.vmId)) ∧
    ∀ y i a r, (daemon E).Step x (.act i a r) y → ∀ q, y.shared.host.guestOf q ≠ x.shared.host.guestOf q →
      ∃ t d, x.threads[i]? = some t ∧ (dealings E t).home = some d ∧ x.shared.host.dirOf q = some d ∧
        ∀ id, t.task.vm = some id → d = E.cfg.vmDir id := by
  obtain ⟨hI, hprog⟩ := apart_inv hS hx
  have hsound : ∀ t ∈ x.threads, (dealings E t).Sound E x.shared.host := fun t ht =>
    hI.known _ (List.mem_map_of_mem ht)
  have hnamed : ∀ t ∈ x.threads, ∀ id d, t.task.vm = some id → (dealings E t).home = some d → d = E.cfg.vmDir id :=
    fun t ht id d hv hd => (hsound t ht).named id d (by rw [task_dealings, hv]) hd
  refine ⟨fun t ht id hv b r pid hm hb => ?_, fun t ht pre a u post hl b r pid hm hb => ?_, fun y i a r hs q hq => ?_⟩
  · obtain ⟨pre, post, hl⟩ := List.append_of_mem hm
    obtain ⟨d, -, hd, hdir⟩ := agentCall_dir hS hx ht hl hb
    rw [hdir, hnamed t ht id d hv hd]
  · obtain ⟨pre', mid, hpre⟩ := List.append_of_mem hm
    have hl' : t.log = pre' ++ ⟨.host b, r⟩ :: (mid ++ ⟨.reply (.acquired a), u⟩ :: post) := by
      rw [hl, hpre, List.append_assoc, List.cons_append]
    obtain ⟨d, hthen, -, hdir⟩ := agentCall_dir hS hx ht hl' hb
    -- between the call and the answer the task stays with its VM
    have hstay := dealings_stay hS hx ht pre' (⟨.host b, r⟩ :: mid) (⟨.reply (.acquired a), u⟩ :: post)
      (by rw [hl', List.cons_append])
    have hhome := (hstay.2 pid (conn_of_agentCall (dealings_log hS hx ht hl') hb)).2
    have hans : Dealing.Answers E _ (.acquired a) := dealings_log hS hx ht hl
    rw [← hpre, hans.2.1, hthen] at hhome
    rw [hdir, ← Option.some.inj hhome]
  · cases hs with
    | @act _ t a k l c r w' hi hp =>
      have ht := List.mem_of_getElem? hi
      have hreq : (dealing E).req (dealings E ⟨t, .act a k, l⟩) a := (hprog _ ht).1
      have hfound : ∃ d, (dealings E ⟨t, .act a k, l⟩).home = some d ∧ x.shared.host.dirOf q = some d := by
        by_cases hb : ∃ b, a = .host b
        · obtain ⟨b, rfl⟩ := hb
          obtain ⟨h', hp', rfl⟩ := perform_host (E := E) hp
          refine callee_home hI.seated (hsound _ ht) hreq ?_
          by_contra hne
          exact hq (guest_frame hp' hne)
        · exact absurd (guests_frame (E := E) hp hb q) hq
      obtain ⟨d, hd, hdir⟩ := hfound
      exact ⟨_, d, hi, hd, hdir, fun id hv => hnamed _ ht id d hv hd⟩

end Runs

/-- A container in a VM of its own, and a request that kills it. -/
def killedLater : List (Label Choice Task) :=
  steps 0 13 100 ++ [.arrive (.request (.acquireSandbox ⟨"", "", "/a.erofs", "web", ""⟩))] ++ steps 1 10 101 ++
    [.arrive (.request (.killContainer "pool-7-3" "web" 9))] ++ steps 3 3 102

/-- A call to the agent behind process `pid`. -/
def Action.calls (pid : ℕ) : Action → Bool
  | .host b => b.agentCall == some pid
  | _ => false

theorem guests_apart_killed : ∃ x, (daemon poolOfOne).Reach (fun _ _ => True)
    (boot poolOfOne (Host.withBase poolOfOne)) x ∧ x.shared.host.dirOf 100 = some ["s", "pool-7-3"] := by
  have hrun : ((daemon poolOfOne).exec (fun _ _ => true) (boot poolOfOne (Host.withBase poolOfOne)) killedLater).any
      (fun x => (x.threads[3]?).any fun t => decide (t.task = .request (.killContainer "pool-7-3" "web" 9)) &&
        t.log.any fun e => e.1.calls 100) = true := by
    decide +kernel
  obtain ⟨x, hx, hP⟩ := System.exists_reach hrun
  have hx' : (daemon poolOfOne).Reach (fun _ _ => True) (boot poolOfOne (Host.withBase poolOfOne)) x :=
    hx.mono fun _ _ _ => trivial
  rw [Option.any_eq_true] at hP
  obtain ⟨t, ht, hlog⟩ := hP
  obtain ⟨htask, hcall⟩ := Bool.and_eq_true_iff.mp hlog
  obtain ⟨⟨a, r⟩, hm, hb⟩ := List.any_eq_true.mp hcall
  have hseated : (Host.withBase poolOfOne).Seated := fun _ _ hl => (by cases hl)
  obtain ⟨hnamed, -, -⟩ := guests_apart hseated hx'
  cases a with
  | host b =>
    have hvm : t.task.vm = some "pool-7-3" := by rw [of_decide_eq_true htask, Task.vm]
    have hdir := hnamed t (List.mem_of_getElem? ht) "pool-7-3" hvm b r 100 hm (eq_of_beq hb)
    refine ⟨x, hx', hdir.trans ?_⟩
    decide +kernel
  | _ => cases hb

end CloudHv.Daemon
