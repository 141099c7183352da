import CloudHv.Daemon.Taps

/-!
# PodNet — whose device ends in which pod

The devices that a call of `setup_vm_networking` creates, has hot-plugged and moves to its pod are one
device, and no call deletes the device of another, in every run in which a call starts on a name only
when no other call is using it.  Names are the first eight bytes of the VM's id, so pool VMs of one
daemon share them: there is a run in which two calls overlap and a pod gets the other pod's device.
-/

namespace CloudHv.Daemon

open Conc

/-! ### Links -/

/-- A device has one name in one namespace. -/
structure Host.Named (h : Host) : Prop where
  links : ∀ n m d, h.links.lookup n = some d → h.links.lookup m = some d → n = m
  apart : ∀ n k d, h.links.lookup n = some d → h.podLinks.lookup k ≠ some d
  linkOld : ∀ n d, h.links.lookup n = some d → d < h.nextLink
  podOld : ∀ k d, h.podLinks.lookup k = some d → d < h.nextLink

/-- What the host knows about links. -/
def Host.net (h : Host) : Finmap (fun _ : String => ℕ) × Finmap (fun _ : String × String => ℕ) × ℕ :=
  (h.links, h.podLinks, h.nextLink)

section Links

variable {h h' : Host}

theorem Host.Named.congr (hN : h.Named) (he : h'.net = h.net) : h'.Named := by
  obtain ⟨hl, hp, hn⟩ : h'.links = h.links ∧ h'.podLinks = h.podLinks ∧ h'.nextLink = h.nextLink := by
    simpa [Host.net] using he
  refine ⟨?_, ?_, ?_, ?_⟩
  · rw [hl]; exact hN.links
  · rw [hl, hp]; exact hN.apart
  · rw [hl, hn]; exact hN.linkOld
  · rw [hp, hn]; exact hN.podOld

theorem Host.Named.erase (hN : h.Named) (tap : String) : { h with links := h.links.erase tap }.Named := by
  have hold : ∀ {n d}, (h.links.erase tap).lookup n = some d → h.links.lookup n = some d :=
    fun hl => (Finmap.lookup_of_erase hl).2
  exact ⟨fun n m d hn hm => hN.links n m d (hold hn) (hold hm), fun n k d hn => hN.apart n k d (hold hn),
    fun n d hn => hN.linkOld n d (hold hn), hN.podOld⟩

theorem Host.Named.openTap (hN : h.Named) (tap : String) : (h.openTap tap).2.Named := by
  unfold Host.openTap
  split
  · exact hN
  · -- the new device has a number that no other device has
    have hcases : ∀ {n d}, (h.links.insert tap h.nextLink).lookup n = some d →
        (n = tap ∧ d = h.nextLink) ∨ h.links.lookup n = some d := by
      intro n d hl
      rw [Finmap.lookup_insert_eq] at hl
      split at hl
      · next hn => exact .inl ⟨hn, (Option.some.inj hl).symm⟩
      · exact .inr hl
    refine ⟨fun n m d hn hm => ?_, fun n k d hn hk => ?_, fun n d hn => ?_, fun k d hk => ?_⟩
    · rcases hcases hn with ⟨rfl, rfl⟩ | hn'
      · rcases hcases hm with ⟨rfl, -⟩ | hm'
        · rfl
        · exact absurd (hN.linkOld m _ hm') (lt_irrefl _)
      · rcases hcases hm with ⟨rfl, rfl⟩ | hm'
        · exact absurd (hN.linkOld n _ hn') (lt_irrefl _)
        · exact hN.links n m d hn' hm'
    · rcases hcases hn with ⟨rfl, rfl⟩ | hn'
      · exact absurd (hN.podOld k _ hk) (lt_irrefl _)
      · exact hN.apart n k d hn' hk
    · rcases hcases hn with ⟨rfl, rfl⟩ | hn'
      · exact Nat.lt_succ_self _
      · exact (hN.linkOld n d hn').trans (Nat.lt_succ_self _)
    · exact (hN.podOld k d hk).trans (Nat.lt_succ_self _)

theorem Host.Named.moveLink (hN : h.Named) (tap : String) (link : ℕ) (netns : String) :
    (h.moveLink tap link netns).Named := by
  unfold Host.moveLink
  split
  · next hc =>
    obtain ⟨hlink, -⟩ := hc
    have hold : ∀ {n d}, (h.links.erase tap).lookup n = some d → n ≠ tap ∧ h.links.lookup n = some d :=
      Finmap.lookup_of_erase
    have hpod : ∀ {k d}, (h.podLinks.insert (netns, tap) link).lookup k = some d →
        d = link ∨ h.podLinks.lookup k = some d := by
      intro k d hl
      rw [Finmap.lookup_insert_eq] at hl
      split at hl
      · exact .inl (Option.some.inj hl).symm
      · exact .inr hl
    refine ⟨fun n m d hn hm => hN.links n m d (hold hn).2 (hold hm).2, fun n k d hn hk => ?_,
      fun n d hn => hN.linkOld n d (hold hn).2, fun k d hk => ?_⟩
    · rcases hpod hk with rfl | hk'
      · exact (hold hn).1 (hN.links n tap d (hold hn).2 hlink)
      · exact hN.apart n k d (hold hn).2 hk'
    · rcases hpod hk with rfl | hk'
      · exact hN.linkOld tap d hlink
      · exact hN.podOld k d hk'
  · exact hN

end Links

/-! ### The step -/

section Frame

variable {E : Env} {w w' : World} {c : Choice}

theorem net_setGuest (h : Host) (pid : ℕ) (g : Agent.Guest) : (h.setGuest pid g).net = h.net := by
  unfold Host.setGuest
  split <;> rfl

theorem net_removeDirs (dirs : List Path) (h : Host) : (dirs.foldl Host.removeDir h).net = h.net := by
  induction dirs generalizing h with
  | nil => rfl
  | cons d dirs ih => exact ih _

/-- Only the steps of a setup change links. -/
theorem net_frame {a : Action} {r : Answer a} (hp : perform E w a c = some (r, w')) (hk : a.kind ≠ .link) :
    w'.host.net = w.host.net := by
  cases a with
  | host b =>
    obtain ⟨h', hp', rfl⟩ := perform_host hp
    by_cases hb : b.kind ∈ [Kind.spawn, .signal, .pidFile, .remove]
    · have hid : ∀ {α : Type} {x y : α} {h₂ : Host}, some (x, h₂) = some (y, h') → h₂.net = w.host.net →
          h'.net = w.host.net := by
        intro α x y h₂ he hn
        obtain ⟨-, rfl⟩ := Prod.mk.inj (Option.some.inj he)
        exact hn
      cases b with
      | spawnCh dir =>
        simp only [Host.perform] at hp'
        split at hp'
        · exact hid hp' rfl
        · split at hp'
          · cases hp'
          · exact hid hp' rfl
      | sigterm pid =>
        refine hid hp' ?_
        unfold Host.tell
        split <;> rfl
      | awaitGone pid => exact hid hp' rfl
      | sigkill pid => exact hid hp' rfl
      | readPid dir => exact hid hp' rfl
      | writePid dir pid =>
        simp only [Host.perform] at hp'
        split at hp' <;> exact hid hp' rfl
      | removeDirAll p =>
        refine hid hp' ?_
        split <;> rfl
      | _ => simp [HostAct.kind] at hb
    · exact perform_frame Host.net hp' hb (fun _ => net_setGuest) (fun _ _ _ => rfl)
        (fun _ _ _ => rfl) fun hl => absurd hl hk
  | snap b =>
    obtain ⟨s, dirs, -, rfl⟩ := perform_snap hp
    exact net_removeDirs dirs _
  | pool b =>
    obtain ⟨-, rfl⟩ := perform_pool hp
    cases b <;> rfl
  | bindSocket => rcases perform_bind hp with rfl | rfl <;> rfl
  | reply resp =>
    obtain ⟨rfl, rfl⟩ := Prod.mk.inj (Option.some.inj hp)
    cases resp <;> rfl
  | _ => obtain ⟨rfl, rfl⟩ := Prod.mk.inj (Option.some.inj hp); rfl

end Frame

/-- What a task knows of its device: where it is, and that it met no other. -/
def Setup.Holds (h : Host) (g : Setup) : Prop :=
  match g.phase with
  | .created n d => h.links.lookup n = some d
  | .plugged n d q => h.links.lookup n = some d ∧ q = d
  | .indexed n d q l => h.links.lookup n = some d ∧ q = d ∧ l = d
  | .moved n d q l => (∃ ns, g.pod = some ns ∧ h.podLinks.lookup (ns, n) = some d) ∧ q = d ∧ l = d
  | .wired n d q l v => (∃ ns, g.pod = some ns ∧ h.podLinks.lookup (ns, n) = some d) ∧ q = d ∧ l = d ∧ v = d
  | _ => True

theorem Setup.Holds.mono {h h' : Host} {g : Setup} (hg : g.Holds h)
    (hl : ∀ n d, g.phase.name = some n → h.links.lookup n = some d → h'.links.lookup n = some d)
    (hp : ∀ ns n d, g.pod = some ns → h.podLinks.lookup (ns, n) = some d →
      h'.podLinks.lookup (ns, n) = some d) : g.Holds h' := by
  obtain ⟨pod, phase⟩ := g
  cases phase with
  | created n d => exact hl n d rfl hg
  | plugged n d q => exact ⟨hl n d rfl hg.1, hg.2⟩
  | indexed n d q l => exact ⟨hl n d rfl hg.1, hg.2⟩
  | moved n d q l =>
    obtain ⟨⟨ns, hns, hd⟩, he⟩ := hg
    exact ⟨⟨ns, hns, hp ns n d hns hd⟩, he⟩
  | wired n d q l v =>
    obtain ⟨⟨ns, hns, hd⟩, he⟩ := hg
    exact ⟨⟨ns, hns, hp ns n d hns hd⟩, he⟩
  | _ => trivial

/-- A device that a task has is under its name in the host, or in a pod. -/
theorem Setup.Holds.located {h : Host} {g : Setup} {d : ℕ} (hg : g.Holds h) (hd : g.phase.device = some d) :
    (∃ n, g.phase.name = some n ∧ h.links.lookup n = some d) ∨ ∃ k, h.podLinks.lookup k = some d := by
  obtain ⟨pod, phase⟩ := g
  cases phase with
  | created n e => obtain rfl := Option.some.inj hd; exact .inl ⟨n, rfl, hg⟩
  | plugged n e q => obtain rfl := Option.some.inj hd; exact .inl ⟨n, rfl, hg.1⟩
  | indexed n e q l => obtain rfl := Option.some.inj hd; exact .inl ⟨n, rfl, hg.1⟩
  | moved n e q l =>
    obtain rfl := Option.some.inj hd
    obtain ⟨⟨ns, -, hk⟩, -⟩ := hg
    exact .inr ⟨_, hk⟩
  | wired n e q l v =>
    obtain rfl := Option.some.inj hd
    obtain ⟨⟨ns, -, hk⟩, -⟩ := hg
    exact .inr ⟨_, hk⟩
  | _ => cases hd

structure TapInv (w : World) (gs : List Setup) : Prop where
  named : w.host.Named
  names : Apart (fun g : Setup => g.phase.name) gs
  pods : Apart Setup.pod gs
  moved : ∀ k, k ∈ w.host.podLinks → ∃ g ∈ gs, g.pod = some k.1 ∧ g.phase.left = true
  held : ∀ g ∈ gs, g.Holds w.host

/-! ### Conditions on a run -/

/-- How far a task is with its network. -/
def setupPhase (t : Thread Action Answer Task) : Phase := (System.ghost taps Setup.init t).phase

/-- Requests come with different pod namespaces. -/
def podsDistinct (x : DaemonConf) : Event Action Answer Task → Bool
  | .arrive t => x.threads.all fun u => decide (t.pod = none ∨ u.task.pod ≠ t.pod)
  | _ => true

/-- A setup starts on a name that no other setup is using. -/
def namesFree (x : DaemonConf) : Event Action Answer Task → Bool
  | .act i (.host (.delLink tap)) _ =>
    x.threads.zipIdx.all fun (u, j) => decide (j = i ∨ (setupPhase u).name ≠ some tap)
  | _ => true

theorem pod_ghost (t : Thread Action Answer Task) : (System.ghost taps Setup.init t).pod = t.task.pod := by
  refine System.ghost_reading (f := Setup.pod) (fun g a r => ?_) t
  cases a <;> rfl

theorem namesFree_ghost {x : DaemonConf} {i : ℕ} {tap : String} {r : (HostAct.delLink tap).Answer}
    (h : namesFree x (.act i (.host (.delLink tap)) r) = true) {j : ℕ} {u : Setup}
    (hj : (x.threads.map (System.ghost taps Setup.init))[j]? = some u) (hu : u.phase.name = some tap) :
    j = i := by
  by_contra hji
  obtain ⟨t, -, rfl, hother⟩ := others_of_all (P := fun u => (setupPhase u).name ≠ some tap) (System.ghost taps Setup.init) h hji hj
  exact hother hu

/-! ### One step -/

section Step

variable {E : Env} {w : World} {gs : List Setup} {i : ℕ} {g : Setup}

/-- A step of thread `i`: it keeps its name or takes a free one, and the others keep what they know. -/
theorem TapInv.set (hI : TapInv w gs) (hi : gs[i]? = some g) {h' : Host} {p : Phase} (hN : h'.Named)
    (hname : ∀ n, p.name = some n → ∀ j u, gs[j]? = some u → u.phase.name = some n → j = i)
    (hleft : g.phase.left = true → p.left = true)
    (hmoved : ∀ k, k ∈ h'.podLinks → k ∈ w.host.podLinks ∨ g.pod = some k.1 ∧ p.left = true)
    (hheld : ({ g with phase := p } : Setup).Holds h')
    (hothers : ∀ j u, j ≠ i → gs[j]? = some u → u.Holds w.host → u.Holds h') :
    TapInv { w with host := h' } (gs.set i { g with phase := p }) := by
  have hlt : i < gs.length := (List.getElem?_eq_some_iff.mp hi).1
  refine ⟨hN, hI.names.set hname, hI.pods.set fun ns hns j u hj hu => hI.pods j i u g ns hj hi hu hns,
    fun k hk => ?_, fun u hu => ?_⟩
  · have hnew : ({ g with phase := p } : Setup) ∈ gs.set i { g with phase := p } :=
      List.mem_of_getElem? (List.getElem?_set_self hlt)
    rcases hmoved k hk with hk' | ⟨hpod, hp⟩
    · obtain ⟨u, hu, hupod, huleft⟩ := hI.moved k hk'
      obtain ⟨j, hj⟩ := List.getElem?_of_mem hu
      by_cases hji : j = i
      · subst hji
        obtain rfl := Option.some.inj (hi.symm.trans hj)
        exact ⟨_, hnew, hupod, hleft huleft⟩
      · refine ⟨u, List.mem_of_getElem? (i := j) ?_, hupod, huleft⟩
        rw [List.getElem?_set_ne (Ne.symm hji)]
        exact hj
    · exact ⟨_, hnew, hpod, hp⟩
  · obtain ⟨j, hj⟩ := List.getElem?_of_mem hu
    rw [List.getElem?_set] at hj
    split at hj
    · obtain rfl : { g with phase := p } = u := by simpa [hlt] using hj
      exact hheld
    · next hij => exact hothers j u (Ne.symm hij) hj (hI.held u (List.mem_of_getElem? hj))

/-- A step that leaves the links alone, after which the thread uses no name or the one it had. -/
theorem TapInv.set_same (hI : TapInv w gs) (hi : gs[i]? = some g) {p : Phase}
    (hname : ∀ n, p.name = some n → g.phase.name = some n) (hleft : g.phase.left = true → p.left = true)
    (hheld : ({ g with phase := p } : Setup).Holds w.host) : TapInv w (gs.set i { g with phase := p }) :=
  hI.set hi hI.named (fun n hn j u hj hu => hI.names j i u g n hj hi hu (hname n hn)) hleft
    (fun _ hk => .inl hk) hheld fun _ _ _ _ hu => hu

theorem TapInv.fail (hI : TapInv w gs) (hi : gs[i]? = some g) :
    TapInv w (gs.set i { g with phase := .failed }) :=
  hI.set_same hi (fun _ hn => (by cases hn)) (fun _ => rfl) trivial

variable {pod : Option String} {c : Choice} {h' : Host}

theorem delLink_inv {tap : String} {r : (HostAct.delLink tap).Answer} (hI : TapInv w gs)
    (hi : gs[i]? = some ⟨pod, .idle⟩) (hp : w.host.perform (.delLink tap) c = some (r, h'))
    (hfree : ∀ j u, gs[j]? = some u → u.phase.name = some tap → j = i) :
    TapInv { w with host := h' } (gs.set i ⟨pod, Phase.idle.after (.delLink tap) r⟩) := by
  have hname : ∀ n, (Phase.cleared tap).name = some n → ∀ j u, gs[j]? = some u → u.phase.name = some n →
      j = i := by
    intro n hn
    obtain rfl := Option.some.inj hn
    exact hfree
  simp only [Host.perform] at hp
  split at hp
  · obtain ⟨rfl, rfl⟩ := Prod.mk.inj (Option.some.inj hp)
    exact hI.fail hi
  · split at hp
    · obtain ⟨rfl, rfl⟩ := Prod.mk.inj (Option.some.inj hp)
      refine hI.set hi (hI.named.erase tap) hname (fun hl => (by cases hl)) (fun _ hk => .inl hk) trivial
        fun j u hji hj hu => hu.mono (fun n d hn hd => ?_) fun _ _ _ _ hd => hd
      -- another setup that knows a link has another name
      have hne : n ≠ tap := fun he => hji (hfree j u hj (he ▸ hn))
      rw [Finmap.lookup_erase_eq, if_neg hne]
      exact hd
    · obtain ⟨rfl, rfl⟩ := Prod.mk.inj (Option.some.inj hp)
      exact hI.set hi hI.named hname (fun hl => (by cases hl)) (fun _ hk => .inl hk) trivial
        fun _ _ _ _ hu => hu

theorem openTap_links (h : Host) (tap : String) :
    (h.openTap tap).2.links.lookup tap = some (h.openTap tap).1 ∧
      (∀ n d, h.links.lookup n = some d → (h.openTap tap).2.links.lookup n = some d) ∧
      (h.openTap tap).2.podLinks = h.podLinks := by
  unfold Host.openTap
  split
  · next d hd => exact ⟨hd, fun _ _ hn => hn, rfl⟩
  · next hnone =>
    refine ⟨Finmap.lookup_insert _, fun n d hn => ?_, rfl⟩
    have hne : n ≠ tap := by
      rintro rfl
      rw [hnone] at hn
      cases hn
    exact (Finmap.lookup_insert_of_ne _ hne).trans hn

theorem createTap_inv {tap : String} {r : (HostAct.createTap tap).Answer} (hI : TapInv w gs)
    (hi : gs[i]? = some ⟨pod, .cleared tap⟩) (hp : w.host.perform (.createTap tap) c = some (r, h')) :
    TapInv { w with host := h' } (gs.set i ⟨pod, (Phase.cleared tap).after (.createTap tap) r⟩) := by
  simp only [Host.perform] at hp
  split at hp
  · obtain ⟨rfl, rfl⟩ := Prod.mk.inj (Option.some.inj hp)
    exact hI.fail hi
  · obtain ⟨rfl, rfl⟩ := Prod.mk.inj (Option.some.inj hp)
    obtain ⟨hnew, hold, hpod⟩ := openTap_links w.host tap
    refine hI.set hi (hI.named.openTap tap) (fun n hn j u hj hu => hI.names j i u _ n hj hi hu hn)
      (fun hl => (by cases hl)) (fun k hk => .inl (hpod ▸ hk)) hnew fun j u _ _ hu =>
        hu.mono (fun n d _ hd => hold n d hd) fun ns n d _ hd => ?_
    rw [hpod]
    exact hd

theorem addNet_inv {sock : Path} {tap mac : String} {d : ℕ} {r : (HostAct.addNet sock tap mac).Answer}
    (hI : TapInv w gs) (hi : gs[i]? = some ⟨pod, .created tap d⟩)
    (hp : w.host.perform (.addNet sock tap mac) c = some (r, h')) :
    TapInv { w with host := h' } (gs.set i ⟨pod, (Phase.created tap d).after (.addNet sock tap mac) r⟩) := by
  have hh : h' = w.host := by
    rcases request_cases hp with rfl | ⟨x, hd⟩
    · rfl
    · obtain ⟨pid, -, hd⟩ := Option.bind_eq_some_iff.mp hd
      obtain ⟨e, -, hq⟩ := Option.map_eq_some_iff.mp hd
      exact (Prod.mk.inj hq).2.symm
  subst hh
  cases r with
  | error e => exact hI.fail hi
  | ok q =>
    obtain ⟨pid, -, hd⟩ := Option.bind_eq_some_iff.mp (request_ok hp)
    obtain ⟨e, he, hq⟩ := Option.map_eq_some_iff.mp hd
    have hlink : w.host.links.lookup tap = some d := hI.held _ (List.mem_of_getElem? hi)
    obtain rfl : e = d := Option.some.inj (he.symm.trans hlink)
    obtain ⟨rfl, -⟩ := Prod.mk.inj hq
    exact hI.set_same hi (fun _ hn => hn) (fun hl => (by cases hl)) ⟨hlink, rfl⟩

theorem linkIndex_inv {tap : String} {d q : ℕ} {r : (HostAct.linkIndex tap).Answer} (hI : TapInv w gs)
    (hi : gs[i]? = some ⟨pod, .plugged tap d q⟩) (hp : w.host.perform (.linkIndex tap) c = some (r, h')) :
    TapInv { w with host := h' } (gs.set i ⟨pod, (Phase.plugged tap d q).after (.linkIndex tap) r⟩) := by
  simp only [Host.perform] at hp
  split at hp
  · obtain ⟨rfl, rfl⟩ := Prod.mk.inj (Option.some.inj hp)
    exact hI.fail hi
  · next l _ hl =>
    obtain ⟨rfl, rfl⟩ := Prod.mk.inj (Option.some.inj hp)
    obtain ⟨hlink, hq⟩ := hI.held _ (List.mem_of_getElem? hi)
    have hld : l = d := Option.some.inj (hl.symm.trans hlink)
    exact hI.set_same hi (fun _ hn => hn) (fun hl => (by cases hl)) ⟨hlink, hq, hld⟩
  · cases hp

theorem moveToNetns_inv {tap ns : String} {d q l : ℕ} {r : (HostAct.moveToNetns tap l ns).Answer}
    (hI : TapInv w gs) (hi : gs[i]? = some ⟨some ns, .indexed tap d q l⟩)
    (hp : w.host.perform (.moveToNetns tap l ns) c = some (r, h')) :
    TapInv { w with host := h' }
      (gs.set i ⟨some ns, (Phase.indexed tap d q l).after (.moveToNetns tap l ns) r⟩) := by
  simp only [Host.perform] at hp
  split at hp
  · obtain ⟨rfl, rfl⟩ := Prod.mk.inj (Option.some.inj hp)
    exact hI.fail hi
  · obtain ⟨rfl, rfl⟩ := Prod.mk.inj (Option.some.inj hp)
    obtain ⟨hlink, hq, rfl⟩ := hI.held _ (List.mem_of_getElem? hi)
    -- nobody has moved a device to this pod before
    have hnew : (ns, tap) ∉ w.host.podLinks := by
      intro hm
      obtain ⟨u, hu, hpod, hleft⟩ := hI.moved _ hm
      obtain ⟨j, hj⟩ := List.getElem?_of_mem hu
      obtain rfl := hI.pods j i u _ ns hj hi hpod rfl
      obtain rfl := Option.some.inj (hi.symm.trans hj)
      cases hleft
    have hmv : w.host.moveLink tap l ns = { w.host with
        links := w.host.links.erase tap, podLinks := w.host.podLinks.insert (ns, tap) l } :=
      if_pos ⟨hlink, hnew⟩
    refine hI.set hi (hI.named.moveLink tap l ns) (fun n hn j u hj hu => hI.names j i u _ n hj hi hu hn)
      (fun _ => rfl) (fun k hk => ?_) ?_ fun j u hji hj hu => hu.mono (fun n e hn he => ?_)
        fun ms n e hms he => ?_
    · rw [hmv] at hk
      rcases Finmap.mem_insert.mp hk with rfl | hk'
      · exact .inr ⟨rfl, rfl⟩
      · exact .inl hk'
    · rw [hmv]
      exact ⟨⟨ns, rfl, Finmap.lookup_insert _⟩, hq, rfl⟩
    · have hne : n ≠ tap := fun he => hji (hI.names j i u _ n hj hi hn (he ▸ rfl))
      rw [hmv]
      exact (Finmap.lookup_erase_ne hne).trans he
    · have hne : (ms, n) ≠ (ns, tap) := by
        intro he
        obtain ⟨rfl, -⟩ := Prod.mk.inj he
        exact hji (hI.pods j i u _ ms hj hi hms rfl)
      rw [hmv]
      exact (Finmap.lookup_insert_of_ne _ hne).trans he

theorem wireTap_inv {tap ns : String} {d q l : ℕ} {r : (HostAct.wireTap ns tap).Answer}
    (hI : TapInv w gs) (hi : gs[i]? = some ⟨some ns, .moved tap d q l⟩)
    (hp : w.host.perform (.wireTap ns tap) c = some (r, h')) :
    TapInv { w with host := h' } (gs.set i ⟨some ns, (Phase.moved tap d q l).after (.wireTap ns tap) r⟩) := by
  simp only [Host.perform] at hp
  split at hp
  · obtain ⟨rfl, rfl⟩ := Prod.mk.inj (Option.some.inj hp)
    exact hI.fail hi
  · next v _ hv =>
    obtain ⟨rfl, rfl⟩ := Prod.mk.inj (Option.some.inj hp)
    obtain ⟨⟨ms, hms, hd⟩, hq, hl⟩ := hI.held _ (List.mem_of_getElem? hi)
    obtain rfl := Option.some.inj hms
    have hvd : v = d := Option.some.inj (hv.symm.trans hd)
    exact hI.set_same hi (fun _ hn => (by cases hn)) (fun _ => rfl) ⟨⟨ns, rfl, hd⟩, hq, hl, hvd⟩
  · cases hp

theorem TapInv.congr {w' : World} (hI : TapInv w gs) (he : w'.host.net = w.host.net) : TapInv w' gs := by
  obtain ⟨hl, hp, -⟩ : w'.host.links = w.host.links ∧ w'.host.podLinks = w.host.podLinks ∧
      w'.host.nextLink = w.host.nextLink := by simpa [Host.net] using he
  refine ⟨hI.named.congr he, hI.names, hI.pods, fun k hk => hI.moved k (hp ▸ hk), fun g hg =>
    (hI.held g hg).mono (fun n d _ hd => ?_) fun ns n d _ hd => ?_⟩
  · rw [hl]; exact hd
  · rw [hp]; exact hd

/-- Tasks that come without a pod. -/
theorem TapInv.append (hI : TapInv w gs) (ts : List Task) (hts : ∀ t ∈ ts, t.pod = none) :
    TapInv w (gs ++ ts.map Setup.init) := by
  refine ⟨hI.named, hI.names.append fun g hg => ?_, hI.pods.append fun g hg => ?_, fun k hk => ?_,
    fun g hg => ?_⟩
  · obtain ⟨t, -, rfl⟩ := List.mem_map.mp hg
    rfl
  · obtain ⟨t, ht, rfl⟩ := List.mem_map.mp hg
    exact hts t ht
  · obtain ⟨g, hg, hk'⟩ := hI.moved k hk
    exact ⟨g, List.mem_append_left _ hg, hk'⟩
  · rcases List.mem_append.mp hg with hg | hg
    · exact hI.held g hg
    · obtain ⟨t, -, rfl⟩ := List.mem_map.mp hg
      trivial

theorem spawned_pod {a : Action} {r : Answer a} : ∀ t ∈ spawned a r, t.pod = none := by
  intro t ht
  cases a with
  | spawnReplenish => rw [List.mem_singleton.mp ht]; rfl
  | spawnShadow key erofs => rw [List.mem_singleton.mp ht]; rfl
  | _ => cases ht

theorem tap_step {x : DaemonConf} {a : Action} {r : Answer a} {w' : World}
    (hI : TapInv x.shared (x.threads.map (System.ghost taps Setup.init)))
    (hi : (x.threads.map (System.ghost taps Setup.init))[i]? = some g) (hreq : taps.req g a)
    (hp : perform E x.shared a c = some (r, w')) (hok : namesFree x (.act i a r) = true) :
    TapInv w' ((x.threads.map (System.ghost taps Setup.init)).set i (taps.upd g a r) ++
      (spawned a r).map Setup.init) := by
  by_cases hk : a.kind = .link
  · cases a with
    | host b =>
      obtain ⟨h', hp', rfl⟩ := perform_host hp
      rw [show spawned (.host b) r = [] from rfl, List.map_nil, List.append_nil]
      obtain ⟨pod, phase⟩ := g
      cases b with
      | probePod ns =>
        rw [orFail_frame hp']
        exact hI.set_same hi (fun _ hn => hn) (fun hl => hl) (hI.held _ (List.mem_of_getElem? hi))
      | delLink tap =>
        obtain rfl : phase = .idle := hreq
        exact delLink_inv hI hi hp' fun j u hj hu => namesFree_ghost hok hj hu
      | createTap tap =>
        obtain rfl : phase = .cleared tap := hreq
        exact createTap_inv hI hi hp'
      | addNet sock tap mac =>
        obtain ⟨d, rfl⟩ : ∃ d, phase = .created tap d := hreq
        exact addNet_inv hI hi hp'
      | linkIndex tap =>
        obtain ⟨d, q, rfl⟩ : ∃ d q, phase = .plugged tap d q := hreq
        exact linkIndex_inv hI hi hp'
      | moveToNetns tap l ns =>
        obtain ⟨⟨d, q, rfl⟩, rfl⟩ : (∃ d q, phase = .indexed tap d q l) ∧ pod = some ns := hreq
        exact moveToNetns_inv hI hi hp'
      | wireTap ns tap =>
        obtain ⟨⟨d, q, l, rfl⟩, rfl⟩ : (∃ d q l, phase = .moved tap d q l) ∧ pod = some ns := hreq
        exact wireTap_inv hI hi hp'
      | _ => cases hk
    | pool b => cases b <;> cases hk
    | _ => cases hk
  · have hself : (x.threads.map (System.ghost taps Setup.init)).set i g =
        x.threads.map (System.ghost taps Setup.init) := set_self hi
    rw [(taps_plain hk).2 r trivial, hself]
    exact (hI.congr (net_frame hp hk)).append _ spawned_pod

end Step

/-! ### Runs -/

/-- The condition on the steps of a run. -/
def tapsFree (x : DaemonConf) (e : Event Action Answer Task) : Bool := podsDistinct x e && namesFree x e

section Runs

variable {E : Env} {h : Host} {x : DaemonConf}

theorem tap_inv (hN : h.Named) (hpods : h.podLinks = ∅)
    (hx : (daemon E).Reach (fun x e => tapsFree x e = true) (boot E h) x) :
    TapInv x.shared (x.threads.map (System.ghost taps Setup.init)) ∧
      ∀ t ∈ x.threads, wp taps t.prog (fun _ _ => True) (System.ghost taps Setup.init t) := by
  refine System.Reach.inv TapInv (fun _ => True) (fun t => body_taps t) ?_ ?_ ?_ ?_ hx
  · have hnil : TapInv (World.start h) [] :=
      ⟨hN, fun i j g g' k hi => (by simp at hi), fun i j g g' k hi => (by simp at hi),
        fun k hk => absurd hk (by rw [show (World.start h).host.podLinks = ∅ from hpods]; exact Finmap.notMem_empty),
        fun g hg => (by cases hg)⟩
    exact hnil.append [.main] fun t ht => by rw [List.mem_singleton.mp ht]; rfl
  · intro t ht
    rw [List.mem_singleton.mp ht]
    exact body_taps .main
  · intro x t hI _ hok
    have hpod : podsDistinct x (.arrive t) = true := (Bool.and_eq_true_iff.mp hok).1
    refine ⟨hI.named, hI.names.concat fun n hn => (by cases hn), hI.pods.concat fun ns hns u hu hup => ?_,
      fun k hk => ?_, fun g hg => ?_⟩
    · obtain ⟨v, hv, rfl⟩ := List.mem_map.mp hu
      rw [pod_ghost] at hup
      rcases of_decide_eq_true (List.all_eq_true.mp hpod v hv) with hnone | hne
      · exact absurd (hns.symm.trans hnone) (by simp)
      · exact hne (hup.trans hns.symm)
    · obtain ⟨g, hg, hk'⟩ := hI.moved k hk
      exact ⟨g, List.mem_append_left _ hg, hk'⟩
    · rcases List.mem_append.mp hg with hg | hg
      · exact hI.held g hg
      · rw [List.mem_singleton.mp hg]
        trivial
  · intro x i g a c r w' hI hi hreq hp hok
    exact ⟨trivial, tap_step hI hi hreq hp (Bool.and_eq_true_iff.mp hok).2⟩

/-- The device that a successful setup wired in its pod is the one it created, had hot-plugged and moved. -/
def OwnTap (t : Thread Action Answer Task) : Prop :=
  ∀ n d q l v, setupPhase t = .wired n d q l v → q = d ∧ l = d ∧ v = d

/-- A deleted link is not the device of another setup, in progress or successful. -/
def SparesOthers (x : DaemonConf) : Event Action Answer Task → Prop
  | .act i (.host (.delLink _)) (.ok (some d)) =>
    ∀ j u, j ≠ i → x.threads[j]? = some u → (setupPhase u).device ≠ some d
  | _ => True

theorem delLink_link {w w' : World} {c : Choice} {tap : String} {d : ℕ}
    (hp : perform E w (.host (.delLink tap)) c = some (.ok (some d), w')) : w.host.links.lookup tap = some d := by
  obtain ⟨h', hp', -⟩ := perform_host hp
  simp only [Host.perform] at hp'
  split at hp'
  · cases hp'
  · split at hp'
    · exact Except.ok.inj (Prod.mk.inj (Option.some.inj hp')).1
    · cases hp'

/-- **No cross-wiring of pods.**  In every run of the daemon in which requests come with different pod
namespaces and a setup starts only on a name that no other setup is using: what a setup wires in its pod
is its own device, and the next step deletes no device of another setup. -/
theorem taps_stay_own (hN : h.Named) (hpods : h.podLinks = ∅)
    (hx : (daemon E).Reach (fun x e => tapsFree x e = true) (boot E h) x) :
    (∀ t ∈ x.threads, OwnTap t) ∧
      ∀ e y, (daemon E).Step x e y → tapsFree x e = true → SparesOthers x e := by
  obtain ⟨hI, -⟩ := tap_inv hN hpods hx
  constructor
  · intro t ht n d q l v hph
    have hheld := hI.held _ (List.mem_map_of_mem ht)
    unfold Setup.Holds at hheld
    rw [show (System.ghost taps Setup.init t).phase = .wired n d q l v from hph] at hheld
    exact hheld.2
  · intro e y hs hok
    cases hs with
    | arrive ht => trivial
    | @act i t a k l c r w' hi hp =>
      cases a with
      | host b =>
        cases b with
        | delLink tap =>
          rcases r with e | _ | d
          · trivial
          · trivial
          · intro j u hji hj hd
            have hgj : (x.threads.map (System.ghost taps Setup.init))[j]? =
                some (System.ghost taps Setup.init u) := by rw [List.getElem?_map, hj]; rfl
            have hlink := delLink_link (E := E) hp
            rcases (hI.held _ (List.mem_of_getElem? hgj)).located hd with ⟨n, hn, hl⟩ | ⟨k, hk⟩
            · obtain rfl := hI.named.links n tap d hl hlink
              exact hji (namesFree_ghost (Bool.and_eq_true_iff.mp hok).2 hgj hn)
            · exact hI.named.apart tap k d hlink hk
        | _ => trivial
      | _ => trivial

end Runs

/-! ### Two runs -/

/-- A daemon with a process id of four digits. -/
def pidOfFour : Env := { poolOfOne with pid := 4321 }

def acquireFor (netns ctr : String) : Task := .request (.acquireSandbox ⟨netns, "", "/img.erofs", ctr, ""⟩)

/-- The second of two requests sets its network up while the first one has its device hot-plugged. -/
def overlapping : List (Label Choice Task) :=
  steps 0 13 100 ++ [.arrive (acquireFor "/ns/a" "web")] ++ steps 1 8 101 ++
    [.arrive (acquireFor "/ns/b" "db")] ++ steps 3 18 102 ++ steps 1 3 101

/-- Device 0 is in the first VM, and the first pod gets device 1. -/
theorem overlapping_setups_cross : ∃ x, (daemon pidOfFour).Reach (fun x e => podsDistinct x e = true)
    (boot pidOfFour (Host.withBase pidOfFour)) x ∧ ¬ ∀ t ∈ x.threads, OwnTap t := by
  have hrun : ((daemon pidOfFour).exec podsDistinct (boot pidOfFour (Host.withBase pidOfFour)) overlapping).any
      (fun x => (x.threads[1]?).any fun t => decide (setupPhase t = .wired "tap_pool-432" 0 0 1 1)) = true := by
    decide +kernel
  obtain ⟨x, hx, hP⟩ := System.exists_reach hrun
  rw [Option.any_eq_true] at hP
  obtain ⟨t, ht, hph⟩ := hP
  refine ⟨x, hx, fun hall => ?_⟩
  obtain ⟨-, hl, -⟩ := hall t (List.mem_of_getElem? ht) _ _ _ _ _ (of_decide_eq_true hph)
  exact absurd hl (by decide)

/-- The same requests one after the other. -/
def oneByOne : List (Label Choice Task) :=
  steps 0 13 100 ++ [.arrive (acquireFor "/ns/a" "web")] ++ steps 1 11 101 ++
    [.arrive (acquireFor "/ns/b" "db")] ++ steps 3 21 102

theorem named_withBase (E : Env) : (Host.withBase E).Named :=
  ⟨fun _ _ _ hl => (by cases hl), fun _ _ _ hl => (by cases hl), fun _ _ hl => (by cases hl),
    fun _ _ hl => (by cases hl)⟩

theorem taps_stay_own_oneByOne : ∃ x, (daemon pidOfFour).Reach (fun x e => tapsFree x e = true)
    (boot pidOfFour (Host.withBase pidOfFour)) x ∧
    x.threads.map setupPhase = [.idle, .wired "tap_pool-432" 0 0 0 0, .idle, .wired "tap_pool-432" 1 1 1 1, .idle] ∧
    (∀ t ∈ x.threads, OwnTap t) ∧
      ∀ e y, (daemon pidOfFour).Step x e y → tapsFree x e = true → SparesOthers x e := by
  have hrun : ((daemon pidOfFour).exec tapsFree (boot pidOfFour (Host.withBase pidOfFour)) oneByOne).any
      (fun x => decide (x.threads.map setupPhase =
        [.idle, .wired "tap_pool-432" 0 0 0 0, .idle, .wired "tap_pool-432" 1 1 1 1, .idle])) = true := by
    decide +kernel
  obtain ⟨x, hx, hP⟩ := System.exists_reach hrun
  exact ⟨x, hx, of_decide_eq_true hP, taps_stay_own (named_withBase pidOfFour) rfl hx⟩

end CloudHv.Daemon
