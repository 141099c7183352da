import CloudHv.Daemon.Rules

/-!
# Frame — what a call leaves alone on the host

Most calls of the host change a guest, the snapshots or the links.  `perform_frame` says so once, for
any reading `f` of the host that does not look at these.
-/

namespace CloudHv.Daemon

/-- The requests that write a snapshot directory. -/
def ApiCall.writes : ApiCall → Bool
  | .snapshot _ => true
  | _ => false

def HostAct.writes : HostAct → Bool
  | .prepareSnapshot _ _ _ _ => true
  | .api _ call => call.writes
  | _ => false

section Calls

variable {β : Type} {f : Host → β} {h h' : Host} {c : Choice}

theorem orFail_frame {α : Type} {x : α} {r : Except Agent.Err α} (hp : h.orFail c x = some (r, h')) :
    h' = h := by
  unfold Host.orFail at hp
  split at hp <;> exact (Prod.mk.inj (Option.some.inj hp)).2.symm

/-- A request was carried out or changed nothing. -/
theorem request_cases {α : Type} {d : Option (α × Host)} {r : Except ApiFailure α}
    (hp : h.request c d = some (r, h')) : h' = h ∨ ∃ x, d = some (x, h') := by
  unfold Host.request at hp
  split at hp
  · obtain ⟨-, rfl⟩ := Prod.mk.inj (Option.some.inj hp)
    exact .inr ⟨_, rfl⟩
  · cases hp
  · obtain ⟨-, rfl⟩ := Prod.mk.inj (Option.some.inj hp)
    split
    · exact .inr ⟨_, rfl⟩
    · exact .inl rfl
  · exact .inl (Prod.mk.inj (Option.some.inj hp)).2.symm

/-- A request that was answered was carried out. -/
theorem request_ok {α : Type} {d : Option (α × Host)} {x : α} (hp : h.request c d = some (.ok x, h')) :
    d = some (x, h') := by
  unfold Host.request at hp
  split at hp
  · obtain ⟨hx, rfl⟩ := Prod.mk.inj (Option.some.inj hp)
    rw [Except.ok.inj hx]
  · cases hp
  · cases hp
  · cases hp

theorem rpc_frame {α : Type} {conn : ℕ} {m : Agent.Guest → Option (Except String α × Agent.Guest)}
    {r : Except String α} (hguest : ∀ h pid g, f (h.setGuest pid g) = f h)
    (hp : h.rpc c conn m = some (r, h')) : f h' = f h := by
  unfold Host.rpc at hp
  split at hp
  · obtain ⟨-, rfl⟩ := Prod.mk.inj (Option.some.inj hp)
    rfl
  · cases hp
  · split at hp <;> (obtain ⟨-, rfl⟩ := Prod.mk.inj (Option.some.inj hp); exact hguest _ _ _)

theorem run_frame {conn : ℕ} {req : Agent.CreateRequest} {r : RunAnswer}
    (hguest : ∀ h pid g, f (h.setGuest pid g) = f h) (hp : h.performRun c conn req = some (r, h')) :
    f h' = f h := by
  unfold Host.performRun at hp
  split at hp
  · obtain ⟨-, rfl⟩ := Prod.mk.inj (Option.some.inj hp)
    rfl
  · split at hp
    · cases hp
    · split at hp
      · cases hp
      · obtain ⟨-, rfl⟩ := Prod.mk.inj (Option.some.inj hp)
        exact hguest _ _ _

theorem apiEffect_frame {pid : ℕ} {call : ApiCall} (hguest : ∀ h pid g, f (h.setGuest pid g) = f h)
    (hsnap : call.writes = true → ∀ (h : Host) s, f { h with snaps := s } = f h)
    (hlisten : ∀ (h : Host) l, f { h with listeners := l } = f h) (hp : h.apiEffect pid call = some h') :
    f h' = f h := by
  cases call with
  | create disks cid vsock =>
    obtain rfl := Option.some.inj hp
    exact (hlisten _ _).trans (hguest _ _ _)
  | snapshot dest =>
    obtain ⟨g, -, rfl⟩ := Option.map_eq_some_iff.mp hp
    exact hsnap rfl _ _
  | restore src =>
    obtain ⟨g, -, rfl⟩ := Option.map_eq_some_iff.mp hp
    exact (hlisten _ _).trans (hguest _ _ _)
  | _ =>
    obtain rfl := Option.some.inj hp
    rfl

end Calls

/-- **The frame rule of the host.**  A reading that does not look at what this kind of call is about is the same
after the call. -/
theorem perform_frame {β : Type} (f : Host → β) {h h' : Host} {a : HostAct} {c : Choice} {r : a.Answer}
    (hp : h.perform a c = some (r, h')) (hk : a.kind ∉ [.spawn, .signal, .pidFile, .remove])
    (hguest : a.kind ≠ .link → ∀ h pid g, f (h.setGuest pid g) = f h)
    (hsnap : a.writes = true → ∀ (h : Host) s, f { h with snaps := s } = f h)
    (hlisten : a.kind = .ch → ∀ (h : Host) l, f { h with listeners := l } = f h)
    (hlink : a.kind = .link → ∀ (h : Host) l p n, f { h with links := l, podLinks := p, nextLink := n } = f h) :
    f h' = f h := by
  have hid : ∀ {α : Type} {x y : α}, some (x, h) = some (y, h') → f h' = f h := by
    intro α x y he
    obtain ⟨-, rfl⟩ := Prod.mk.inj (Option.some.inj he)
    rfl
  cases a with
  | createDirAll p => rw [orFail_frame hp]
  | createFile p => rw [orFail_frame hp]
  | stripKernelIp p => rw [orFail_frame hp]
  | probePod ns => rw [orFail_frame hp]
  | fileMtime f => exact hid hp
  | baseSnapshotValid d => exact hid hp
  | chReady s => exact hid hp
  | agentHealthy s => exact hid hp
  | prepareSnapshot base dir cid vsock =>
    simp only [Host.perform] at hp
    split at hp
    · exact hid hp
    · obtain ⟨-, rfl⟩ := Prod.mk.inj (Option.some.inj hp)
      exact hsnap rfl _ _
    · cases hp
  | api sock call =>
    rcases request_cases hp with rfl | ⟨x, hd⟩
    · rfl
    obtain ⟨pid, -, hd⟩ := Option.bind_eq_some_iff.mp hd
    obtain ⟨h₂, he, hq⟩ := Option.map_eq_some_iff.mp hd
    obtain ⟨-, rfl⟩ := Prod.mk.inj hq
    exact apiEffect_frame (hguest (by simp [HostAct.kind])) hsnap (hlisten rfl) he
  | addDisk sock disk =>
    rcases request_cases hp with rfl | ⟨x, hd⟩
    · rfl
    obtain ⟨pid, -, hd⟩ := Option.bind_eq_some_iff.mp hd
    obtain ⟨g, -, hq⟩ := Option.map_eq_some_iff.mp hd
    obtain ⟨-, rfl⟩ := Prod.mk.inj hq
    exact hguest (by simp [HostAct.kind]) _ _ _
  | addNet sock tap mac =>
    rcases request_cases hp with rfl | ⟨x, hd⟩
    · rfl
    obtain ⟨pid, -, hd⟩ := Option.bind_eq_some_iff.mp hd
    obtain ⟨d, -, hq⟩ := Option.map_eq_some_iff.mp hd
    obtain ⟨-, rfl⟩ := Prod.mk.inj hq
    rfl
  | connectAgent s =>
    simp only [Host.perform] at hp
    split at hp <;> first | exact hid hp | cases hp
  | configureNetwork conn ip gw len => exact rpc_frame (hguest (by simp [HostAct.kind])) hp
  | killContainer conn id sig => exact rpc_frame (hguest (by simp [HostAct.kind])) hp
  | waitContainer conn id => exact rpc_frame (hguest (by simp [HostAct.kind])) hp
  | deleteContainer conn id => exact rpc_frame (hguest (by simp [HostAct.kind])) hp
  | runContainer conn req => exact run_frame (hguest (by simp [HostAct.kind])) hp
  | delLink tap =>
    simp only [Host.perform] at hp
    split at hp
    · exact hid hp
    · split at hp <;> (obtain ⟨-, rfl⟩ := Prod.mk.inj (Option.some.inj hp); exact hlink rfl h _ _ _)
  | createTap tap =>
    simp only [Host.perform] at hp
    split at hp
    · exact hid hp
    · obtain ⟨-, rfl⟩ := Prod.mk.inj (Option.some.inj hp)
      unfold Host.openTap
      split
      · rfl
      · exact hlink rfl h _ _ _
  | linkIndex tap =>
    simp only [Host.perform] at hp
    split at hp <;> first | exact hid hp | cases hp
  | moveToNetns tap link ns =>
    simp only [Host.perform] at hp
    split at hp
    · exact hid hp
    · obtain ⟨-, rfl⟩ := Prod.mk.inj (Option.some.inj hp)
      unfold Host.moveLink
      split
      · exact hlink rfl h _ _ _
      · rfl
  | wireTap ns tap =>
    simp only [Host.perform] at hp
    split at hp <;> first | exact hid hp | cases hp
  | _ => exact absurd (List.elem_iff.mp rfl) hk

end CloudHv.Daemon
