import CloudHv.Agent.Spec

/-!
# Blocks — which disk a block volume gets

Disks are hot-plugged for the layers of a rootfs and for block volumes.  `create` mounts the layers by the letters of
their devices; `adapt_oci_spec_for_vm` then looks for the disk of each block volume among those that the manager does
not know, in the order in which a hash set yields them.  The manager knows the disks that were there when it started
and those it has given to a volume, so a disk that was plugged for a layer is one it does not know.

The guest is followed through hot plugs and `create` calls in any order.
-/

namespace CloudHv.Agent

open Method

/-! ### The names of the disks -/

/-- The number that a row of letters stands for. -/
def letters (l : List Char) : ℕ := l.foldl (fun n c => n * 26 + (c.toNat - 96)) 0

theorem letters_concat (l : List Char) (c : Char) : letters (l ++ [c]) = letters l * 26 + (c.toNat - 96) := by
  simp [letters]

theorem letter_toNat {k : ℕ} (h : k < 26) : (Char.ofNat (97 + k)).toNat - 96 = k + 1 := by
  have hall : ∀ k < 26, (Char.ofNat (97 + k)).toNat - 96 = k + 1 := by decide
  exact hall k h

theorem letters_diskSuffix {fuel k : ℕ} (h : k < fuel) : letters (diskSuffix fuel k) = k + 1 := by
  induction fuel generalizing k with
  | zero => omega
  | succ fuel ih =>
    rw [diskSuffix]
    by_cases hk : k < 26
    · rw [if_pos hk, ← List.nil_append [_], letters_concat, letter_toNat hk]
      simp [letters]
    · have hrec : letters (diskSuffix fuel (k / 26 - 1)) = k / 26 - 1 + 1 := ih (by omega)
      rw [if_neg hk, letters_concat, letter_toNat (Nat.mod_lt k (by omega)), hrec]
      omega

theorem diskName_injective : Function.Injective diskName := by
  intro k k' h
  have hlist : diskSuffix (k + 1) k = diskSuffix (k' + 1) k' := by
    have happ : (diskName k).toList = (diskName k').toList := congrArg String.toList h
    simpa [diskName] using happ
  have hnum : k + 1 = k' + 1 := by
    rw [← letters_diskSuffix (Nat.lt_succ_self k), ← letters_diskSuffix (Nat.lt_succ_self k'), hlist]
  exact Nat.succ.inj hnum

/-! ### Layers -/

/-- Only mounts are added, and those of layers are of devices that are there. -/
structure Laid (is : List ℕ) (g g' : Guest) : Prop where
  base : g'.base = g.base
  mounts : ∀ m ∈ g'.mounts, m ∈ g.mounts ∨ m.fsType ≠ "erofs" ∨
    ∃ i ∈ is, layerDevice i ∈ g.scanBlockDevices ∧ m.source = "/dev/" ++ layerDevice i

theorem scan_of_base {g g' : Guest} (h : g'.base = g.base) : g'.scanBlockDevices = g.scanBlockDevices := by
  have hd : g'.disks = g.disks := (Prod.mk.inj h).2
  rw [Guest.scanBlockDevices, hd]
  rfl

instance (is : List ℕ) : Std.Refl (Laid is) := ⟨fun _ => ⟨rfl, fun _ hm => .inl hm⟩⟩

instance (is : List ℕ) : IsTrans Guest (Laid is) where
  trans a b c hab hbc := by
    refine ⟨hbc.base.trans hab.base, fun m hm => ?_⟩
    rcases hbc.mounts m hm with hb | hfs | ⟨i, hi, hscan, hsrc⟩
    · exact hab.mounts m hb
    · exact .inr (.inl hfs)
    · exact .inr (.inr ⟨i, hi, scan_of_base hab.base ▸ hscan, hsrc⟩)

section Layers

variable {io : Io} {is : List ℕ}

theorem mountLayer_laid (id : String) {i : ℕ} (hi : i ∈ is) : Keeps (Laid is) (mountLayer io id i) := by
  refine (checkAs_keeps io _ _).bind fun _ => ?_
  intro g
  simp only [exec_bind, exec_get, failIf]
  by_cases hdev : layerDevice i ∉ g.scanBlockDevices
  · rw [if_pos hdev]
    exact Std.Refl.refl g
  · rw [if_neg hdev]
    simp only [exec_pure]
    have hscan : layerDevice i ∈ g.scanBlockDevices := not_not.mp hdev
    cases hf : io.fail (.mountLayer i) with
    | none =>
      simp only [Io.checkAs, hf, exec_pure]
      refine ⟨rfl, fun m hm => ?_⟩
      rcases List.mem_append.mp hm with hm | hm
      · exact .inl hm
      · rw [List.mem_singleton.mp hm]
        exact .inr (.inr ⟨i, hi, hscan, rfl⟩)
    | some e =>
      simp only [Io.checkAs, hf, exec_throw]
      exact Std.Refl.refl g

theorem mountLayers_laid (id : String) : ∀ js, js ⊆ is → Keeps (Laid is) (mountLayers io id js)
  | [], _ => .pure _
  | _ :: js, hj => (mountLayer_laid id (hj List.mem_cons_self)).bind fun _ =>
    (mountLayers_laid id js fun _ hk => hj (List.mem_cons_of_mem _ hk)).bind fun _ => .pure _

theorem mountBundle_laid (req : CreateRequest) : Keeps (Laid (List.range req.erofsLayers)) (mountBundle io req) := by
  have hoverlay : ∀ t, Keeps (Laid (List.range req.erofsLayers)) (addMount ⟨"overlay", t, "overlay"⟩) := by
    intro t
    refine .modify fun g => ⟨rfl, fun m hm => ?_⟩
    rcases List.mem_append.mp hm with hm | hm
    · exact .inl hm
    · rw [List.mem_singleton.mp hm]
      exact .inr (.inl (show "overlay" ≠ "erofs" by decide))
  exact (failIf_keeps _ _).bind fun _ => (checkAs_keeps io _ _).bind fun _ => (checkAs_keeps io _ _).bind fun _ =>
    (mountLayers_laid _ _ fun _ h => h).bind fun _ => (checkAs_keeps io _ _).bind fun _ =>
    (checkAs_keeps io _ _).bind fun _ => (checkAs_keeps io _ _).bind fun _ => hoverlay _

theorem bundle_laid (req : CreateRequest) : Keeps (Laid (List.range req.erofsLayers))
    (do mountBundle io req; writeConfig io req; fillBundle io req : GuestM Unit) := by
  have hconfig : Keeps (Laid (List.range req.erofsLayers)) (writeConfig io req) :=
    .ite ((checkAs_keeps io _ _).bind fun _ => .modify fun g => ⟨rfl, fun _ hm => .inl hm⟩)
      (Keeps.get.bind fun _ => failIf_keeps _ _)
  exact (mountBundle_laid req).bind fun _ => hconfig.bind fun _ =>
    (forM_keeps (writeInlineVolume_keeps io) _).bind fun _ => (checkAs_keeps io _ _).bind fun _ =>
    (checkAs_keeps io _ _).bind fun _ => checkAs_keeps io _ _

end Layers

/-! ### The disks of the volumes -/

/-- The devices of the block volumes, in the order of the volumes. -/
def blockDevices (vs : List VolumeInfo) (ds : List (Option String)) : List (Option String) :=
  ((vs.zip ds).filter (·.1.isBlock)).map (·.2)

theorem newDevices_withDisk (g : Guest) (dev : String) :
    (g.withDisk dev).newDevices = g.newDevices.filter (· ≠ dev) := by
  unfold Guest.newDevices
  rw [List.filter_filter]
  refine List.filter_congr fun x _ => ?_
  simp [Guest.withDisk, not_or]

section Devices

variable {io : Io}

theorem mapM_cons_exec {v : VolumeInfo} {vs : List VolumeInfo} {g g₁ g₂ : Guest} {d : Option String}
    {ds : List (Option String)} (hd : exec (volumeDevice io v) g = (.ok d, g₁))
    (hds : exec (vs.mapM (volumeDevice io)) g₁ = (.ok ds, g₂)) :
    exec ((v :: vs).mapM (volumeDevice io)) g = (.ok (d :: ds), g₂) := by
  rw [List.mapM_cons, exec_bind, hd]
  simp only
  rw [exec_bind, hds]
  rfl

/-- A volume gets no device and nothing changes, or it is a block volume and gets one that is new. -/
theorem volumeDevice_exec (v : VolumeInfo) (g : Guest) :
    (exec (volumeDevice io v) g = (.ok none, g) ∧ (v.isBlock = true → g.finds io = false)) ∨
      ∃ dev ∈ g.newDevices, v.isBlock = true ∧ exec (volumeDevice io v) g = (.ok (some ("/dev/" ++ dev)), g.withDisk dev) := by
  unfold volumeDevice
  by_cases hb : v.isBlock = true
  · rw [if_pos hb]
    by_cases hf : g.finds io = true
    · obtain ⟨dev, hp, hd⟩ := exists_of_finds hf
      exact .inr ⟨dev, hd, hb, discover_found hp hd⟩
    · rw [Bool.not_eq_true] at hf
      exact .inl ⟨discover_none hf, fun _ => hf⟩
  · rw [if_neg hb]
    exact .inl ⟨rfl, fun h => absurd h hb⟩

theorem blockDevices_none (v : VolumeInfo) (vs : List VolumeInfo) (ds : List (Option String)) :
    (blockDevices (v :: vs) (none :: ds)).filterMap id = (blockDevices vs ds).filterMap id := by
  unfold blockDevices
  rw [List.zip_cons_cons, List.filter_cons]
  split <;> simp

theorem blockDevices_block {v : VolumeInfo} (hb : v.isBlock = true) (vs : List VolumeInfo) (d : Option String)
    (ds : List (Option String)) : blockDevices (v :: vs) (d :: ds) = d :: blockDevices vs ds := by
  simp [blockDevices, hb]

/-- What is given is new and is given once; from then on it is known. -/
theorem devices_taken (io : Io) (vs : List VolumeInfo) (g : Guest) : ∃ (ds : List (Option String)) (ks : List String),
    exec (vs.mapM (volumeDevice io)) g = (.ok ds, ks.foldl Guest.withDisk g) ∧
    (blockDevices vs ds).filterMap id = ks.map ("/dev/" ++ ·) ∧ ks.Nodup ∧ ∀ k ∈ ks, k ∈ g.newDevices := by
  induction vs generalizing g with
  | nil => exact ⟨[], [], rfl, rfl, List.nodup_nil, by simp⟩
  | cons v vs ih =>
    rcases volumeDevice_exec v g with ⟨hd, -⟩ | ⟨dev, hdev, hb, hd⟩
    · obtain ⟨ds, ks, hds, hgiven, hnodup, hnew⟩ := ih g
      exact ⟨none :: ds, ks, mapM_cons_exec hd hds, (blockDevices_none v vs ds).trans hgiven, hnodup, hnew⟩
    · obtain ⟨ds, ks, hds, hgiven, hnodup, hnew⟩ := ih (g.withDisk dev)
      have hrest : ∀ k ∈ ks, k ∈ g.newDevices ∧ k ≠ dev := by
        intro k hk
        have hmem : k ∈ g.newDevices.filter (· ≠ dev) := newDevices_withDisk g dev ▸ hnew k hk
        exact ⟨(List.mem_filter.mp hmem).1, of_decide_eq_true (List.mem_filter.mp hmem).2⟩
      refine ⟨some ("/dev/" ++ dev) :: ds, dev :: ks, mapM_cons_exec hd hds, ?_, ?_, ?_⟩
      · have hid : id (some ("/dev/" ++ dev)) = some ("/dev/" ++ dev) := rfl
        rw [blockDevices_block hb, List.filterMap_cons_some hid, hgiven, List.map_cons]
      · exact List.nodup_cons.mpr ⟨fun hk => (hrest dev hk).2 rfl, hnodup⟩
      · exact List.forall_mem_cons.mpr ⟨hdev, fun k hk => (hrest k hk).1⟩

/-- A hash set that is not empty yields one of its elements first. -/
def Io.Picks (io : Io) : Prop := ∀ l, l ≠ [] → ∃ x ∈ l, io.pick l = some x

theorem finds_of_picks (h : io.Picks) {g : Guest} (hne : g.newDevices ≠ []) : g.finds io = true := by
  obtain ⟨x, hx, hp⟩ := h g.newDevices hne
  rw [Guest.finds, hp]
  exact decide_eq_true hx

/-- With at most one new disk the block volumes get the new disks in order. -/
theorem devices_single (hio : io.Picks) (vs : List VolumeInfo) {g g' : Guest} {ds : List (Option String)}
    (hone : g.newDevices.length ≤ 1) (h : exec (vs.mapM (volumeDevice io)) g = (.ok ds, g')) :
    ∀ (i : ℕ) (d : Option String), (blockDevices vs ds)[i]? = some d → d = (g.newDevices[i]?).map ("/dev/" ++ ·) := by
  induction vs generalizing g g' ds with
  | nil => simp [blockDevices]
  | cons v vs ih =>
    obtain ⟨ds', ks, hds', -⟩ := devices_taken io vs (exec (volumeDevice io v) g).2
    rcases volumeDevice_exec v g with ⟨hd, hnone⟩ | ⟨dev, hdev, hb, hd⟩
    · rw [hd] at hds'
      obtain rfl : none :: ds' = ds := by
        have heq := (mapM_cons_exec hd hds').symm.trans h
        exact Except.ok.inj (Prod.mk.inj heq).1
      by_cases hb : v.isBlock = true
      · have hempty : g.newDevices = [] := by
          by_contra hne
          rw [finds_of_picks hio hne] at hnone
          cases hnone hb
        rw [blockDevices_block hb]
        intro i d hi
        match i with
        | 0 => rw [hempty]; exact (Option.some.inj hi).symm
        | i + 1 =>
          have hrest := ih hone hds' i d hi
          rw [hempty] at hrest ⊢
          exact hrest
      · have hskip : blockDevices (v :: vs) (none :: ds') = blockDevices vs ds' := by simp [blockDevices, hb]
        rw [hskip]
        exact ih hone hds'
    · rw [hd] at hds'
      obtain rfl : some ("/dev/" ++ dev) :: ds' = ds := by
        have heq := (mapM_cons_exec hd hds').symm.trans h
        exact Except.ok.inj (Prod.mk.inj heq).1
      obtain ⟨x, hx⟩ := List.length_eq_one_iff.mp (le_antisymm hone (List.length_pos_of_mem hdev))
      obtain rfl : dev = x := by simpa [hx] using hdev
      have hempty : (g.withDisk dev).newDevices = [] := by simp [newDevices_withDisk, hx]
      rw [blockDevices_block hb, hx]
      intro i d hi
      match i with
      | 0 => exact (Option.some.inj hi).symm
      | i + 1 =>
        have hrest := ih (show (g.withDisk dev).newDevices.length ≤ 1 by simp [hempty]) hds' i d hi
        rw [hempty] at hrest
        exact hrest

end Devices

/-! ### Runs -/

/-- `create` up to the container's entry in the table, with the devices that stand in the spec it has written. -/
def writeSpecDevices (io : Io) (req : CreateRequest) : GuestM (List (Option String)) := do
  (do mountBundle io req; writeConfig io req; fillBundle io req)
  let ds ← req.volumes.mapM (volumeDevice io)
  io.checkWith .writeSpec ("failed to write " ++ mountPoint req.containerId ++ "/config.json")
  pure (blockDevices req.volumes ds)

theorem mapM_takeDisks (io : Io) (vs : List VolumeInfo) :
    (vs.mapM (volumeDevice io) >>= fun _ => pure PUnit.unit) = takeDisks io vs := by
  induction vs with
  | nil => rfl
  | cons v vs ih =>
    have hcons : takeDisks io (v :: vs) = (volumeDevice io v >>= fun _ => pure PUnit.unit) >>=
      fun _ => takeDisks io vs := rfl
    rw [hcons, ← ih, List.mapM_cons]
    simp only [bind_assoc, pure_bind]

theorem create_eq_devices (io : Io) (req : CreateRequest) : create io req = (do
    let _ ← writeSpecDevices io req
    modify fun g => g.withCreated req.containerId
    pure agentPid) := by
  rw [create_eq, ← mapM_takeDisks]
  simp only [writeSpecDevices, bind_assoc, pure_bind]

/-- A call that has written a spec: the disks that were waiting for volumes, and the devices of the block volumes. -/
structure Call where
  waiting : List String
  devices : List (Option String)

/-- The guest, the devices of the disks that were plugged for volumes, and the calls so far. -/
structure Plugged where
  guest : Guest
  volumeDisks : List String
  calls : List Call

/-- The disks that were plugged for volumes and not given to one, in the order in which they came. -/
def Plugged.waiting (s : Plugged) : List String := s.volumeDisks.filter (· ∉ s.guest.mgr.knownDisks)

/-- The devices that stand in specs. -/
def Plugged.given (s : Plugged) : List String := s.calls.flatMap fun c => c.devices.filterMap id

inductive Event where
  | plug (forVolume : Bool) (disk : Disk)
  | create (io : Io) (req : CreateRequest)

def Plugged.step (s : Plugged) : Event → Plugged
  | .plug forVolume disk =>
    { s with
      guest := { s.guest with disks := s.guest.disks ++ [disk] }
      volumeDisks := s.volumeDisks ++ if forVolume then [diskName s.guest.disks.length] else [] }
  | .create io req =>
    { s with
      guest := (exec (create io req) s.guest).2
      calls := s.calls ++
        match (exec (writeSpecDevices io req) s.guest).1 with
        | .ok ds => [⟨s.waiting, ds⟩]
        | .error _ => [] }

/-- An agent that has just started with the disks it finds. -/
def Plugged.start (disks : List Disk) : Plugged := ⟨Guest.boot disks, [], []⟩

/-- No device in a spec is mounted as a layer, none is in two places, and the block volumes of a call have the disks
that were waiting for volumes, in order. -/
structure Plugged.Placed (s : Plugged) : Prop where
  notLayer : ∀ d ∈ s.given, ∀ m ∈ s.guest.mounts, m.fsType = "erofs" → m.source ≠ d
  nodup : s.given.Nodup
  inOrder : ∀ c ∈ s.calls, ∀ (i : ℕ) (d : Option String), c.devices[i]? = some d →
    d = (c.waiting[i]?).map ("/dev/" ++ ·)

/-- A `create` that cannot take a wrong disk: its layers are on no disk that was plugged for a volume, and if it has
a block volume, there is at most one disk that the manager does not know, and that one was plugged for a volume. -/
def Plugged.careful (s : Plugged) : Event → Prop
  | .plug _ _ => True
  | .create _ req =>
    (∀ i ∈ List.range req.erofsLayers, layerDevice i ∉ s.volumeDisks) ∧
    ((∃ v ∈ req.volumes, v.isBlock = true) →
      s.guest.newDevices.length ≤ 1 ∧ ∀ d ∈ s.guest.newDevices, d ∈ s.volumeDisks)

/-- Every event of the run is careful where it happens. -/
def Plugged.CarefulRun : Plugged → List Event → Prop
  | _, [] => True
  | s, e :: es => s.careful e ∧ (s.step e).CarefulRun es

theorem withDisks_fields (ks : List String) (g : Guest) :
    (ks.foldl Guest.withDisk g).disks = g.disks ∧ (ks.foldl Guest.withDisk g).mounts = g.mounts ∧
    ∀ k, k ∈ (ks.foldl Guest.withDisk g).mgr.knownDisks ↔ k ∈ g.mgr.knownDisks ∨ k ∈ ks := by
  induction ks generalizing g with
  | nil => simp
  | cons x ks ih =>
    obtain ⟨hdisks, hmounts, hknown⟩ := ih (g.withDisk x)
    refine ⟨hdisks, hmounts, fun k => (hknown k).trans ?_⟩
    simp only [Guest.withDisk, Finset.mem_insert, List.mem_cons]
    tauto

theorem newDevices_of_base {g g' : Guest} (h : g'.base = g.base) : g'.newDevices = g.newDevices := by
  have hmgr : g'.mgr = g.mgr := (Prod.mk.inj h).1
  rw [Guest.newDevices, scan_of_base h, hmgr]
  rfl

/-- What a `create` does to disks and mounts, whether it fails or not: it mounts layers, then it takes disks. -/
theorem create_devices (io : Io) (req : CreateRequest) (g : Guest) : ∃ (g₁ : Guest) (ks : List String),
    Laid (List.range req.erofsLayers) g g₁ ∧
    (exec (create io req) g).2.base.2 = g.disks ∧ (exec (create io req) g).2.mounts = g₁.mounts ∧
    (∀ k, k ∈ (exec (create io req) g).2.mgr.knownDisks ↔ k ∈ g.mgr.knownDisks ∨ k ∈ ks) ∧
    ks.Nodup ∧ (∀ k ∈ ks, k ∈ g.newDevices) ∧ (ks ≠ [] → ∃ v ∈ req.volumes, v.isBlock = true) ∧
    ∀ ds, (exec (writeSpecDevices io req) g).1 = .ok ds → ds.filterMap id = ks.map ("/dev/" ++ ·) ∧
      ∃ ds₀ g₂, exec (req.volumes.mapM (volumeDevice io)) g₁ = (.ok ds₀, g₂) ∧ ds = blockDevices req.volumes ds₀ := by
  have hlaid : Laid (List.range req.erofsLayers) g
      (exec (do mountBundle io req; writeConfig io req; fillBundle io req : GuestM Unit) g).2 := bundle_laid req g
  rw [create_eq_devices, exec_bind]
  unfold writeSpecDevices
  rw [exec_bind]
  rcases hb : exec (do mountBundle io req; writeConfig io req; fillBundle io req : GuestM Unit) g with ⟨r, g₁⟩
  rw [hb] at hlaid
  obtain ⟨hmgr, hdisks⟩ := Prod.mk.inj hlaid.base
  cases r with
  | error e => exact ⟨g₁, [], hlaid, hdisks, rfl, by simp [show g₁.mgr = g.mgr from hmgr], List.nodup_nil, by simp,
      by simp, fun ds h => (by cases h)⟩
  | ok u =>
    obtain ⟨ds₀, ks, hds, hgiven, hnodup, hnew⟩ := devices_taken io req.volumes g₁
    obtain ⟨hdisks', hmounts', hknown⟩ := withDisks_fields ks g₁
    have hblock : ks ≠ [] → ∃ v ∈ req.volumes, v.isBlock = true := by
      intro hne
      by_contra hno
      simp only [not_exists, not_and] at hno
      have hempty : blockDevices req.volumes ds₀ = [] := by
        unfold blockDevices
        rw [List.map_eq_nil_iff, List.filter_eq_nil_iff]
        exact fun p hp => hno p.1 (List.of_mem_zip hp).1
      rw [hempty] at hgiven
      exact hne (List.map_eq_nil_iff.mp hgiven.symm)
    simp only
    rw [exec_bind, hds]
    simp only
    rw [exec_bind]
    have hknown' : ∀ k, k ∈ (ks.foldl Guest.withDisk g₁).mgr.knownDisks ↔ k ∈ g.mgr.knownDisks ∨ k ∈ ks :=
      fun k => (hknown k).trans (by rw [show g₁.mgr = g.mgr from hmgr])
    have hnew' : ∀ k ∈ ks, k ∈ g.newDevices := fun k hk => newDevices_of_base hlaid.base ▸ hnew k hk
    cases hw : io.fail .writeSpec with
    | none =>
      simp only [Io.checkWith, Io.checkAs, hw, exec_pure]
      exact ⟨g₁, ks, hlaid, hdisks'.trans hdisks, hmounts', hknown', hnodup, hnew', hblock, fun ds h => by
        obtain rfl : blockDevices req.volumes ds₀ = ds := Except.ok.inj h
        exact ⟨hgiven, ds₀, _, hds, rfl⟩⟩
    | some e =>
      simp only [Io.checkWith, Io.checkAs, hw, exec_throw]
      exact ⟨g₁, ks, hlaid, hdisks'.trans hdisks, hmounts', hknown', hnodup, hnew', hblock, fun ds h => (by cases h)⟩

/-- The property with what carries it: a device in a spec is one that was plugged for a volume, and the device of a
layer is not. -/
structure Plugged.Inv (s : Plugged) : Prop where
  placed : s.Placed
  plugged : s.volumeDisks.Sublist s.guest.scanBlockDevices
  volumes : ∀ d ∈ s.given, ∃ k ∈ s.volumeDisks, k ∈ s.guest.mgr.knownDisks ∧ d = "/dev/" ++ k
  layers : ∀ m ∈ s.guest.mounts, m.fsType = "erofs" →
    ∃ k ∈ s.guest.scanBlockDevices, k ∉ s.volumeDisks ∧ m.source = "/dev/" ++ k

theorem dev_injective {a b : String} (h : "/dev/" ++ a = "/dev/" ++ b) : a = b := by
  have hlist : ("/dev/" ++ a).toList = ("/dev/" ++ b).toList := congrArg String.toList h
  exact String.toList_inj.mp (by simpa using hlist)

theorem notLayer_of_inv {s : Plugged}
    (hv : ∀ d ∈ s.given, ∃ k ∈ s.volumeDisks, k ∈ s.guest.mgr.knownDisks ∧ d = "/dev/" ++ k)
    (hl : ∀ m ∈ s.guest.mounts, m.fsType = "erofs" →
      ∃ k ∈ s.guest.scanBlockDevices, k ∉ s.volumeDisks ∧ m.source = "/dev/" ++ k) :
    ∀ d ∈ s.given, ∀ m ∈ s.guest.mounts, m.fsType = "erofs" → m.source ≠ d := by
  intro d hd m hm hfs heq
  obtain ⟨k, hk, -, rfl⟩ := hv d hd
  obtain ⟨k', -, hk', hsrc⟩ := hl m hm hfs
  have hsame : k' = k := dev_injective (hsrc.symm.trans heq)
  exact hk' (hsame ▸ hk)

theorem scan_plug (g : Guest) (disk : Disk) :
    ({ g with disks := g.disks ++ [disk] } : Guest).scanBlockDevices =
      g.scanBlockDevices ++ [diskName g.disks.length] := by
  simp [Guest.scanBlockDevices, List.range_succ]

theorem plug_inv {s : Plugged} (h : s.Inv) (forVolume : Bool) (disk : Disk) : (s.step (.plug forVolume disk)).Inv := by
  have hfresh : diskName s.guest.disks.length ∉ s.guest.scanBlockDevices := by
    intro hmem
    obtain ⟨k, hk, heq⟩ := List.mem_map.mp hmem
    have hlt : k < s.guest.disks.length := List.mem_range.mp hk
    have hsame : k = s.guest.disks.length := diskName_injective heq
    omega
  have hvolumes : ∀ d ∈ s.given, ∃ k ∈ (s.step (.plug forVolume disk)).volumeDisks,
      k ∈ s.guest.mgr.knownDisks ∧ d = "/dev/" ++ k := by
    intro d hd
    obtain ⟨k, hk, hrest⟩ := h.volumes d hd
    exact ⟨k, List.mem_append_left _ hk, hrest⟩
  have hlayers : ∀ m ∈ s.guest.mounts, m.fsType = "erofs" →
      ∃ k ∈ (s.step (.plug forVolume disk)).guest.scanBlockDevices,
        k ∉ (s.step (.plug forVolume disk)).volumeDisks ∧ m.source = "/dev/" ++ k := by
    intro m hm hfs
    obtain ⟨k, hk, hnot, hsrc⟩ := h.layers m hm hfs
    refine ⟨k, (scan_plug s.guest disk).symm ▸ List.mem_append_left _ hk, fun hmem => ?_, hsrc⟩
    rcases List.mem_append.mp hmem with hmem | hmem
    · exact hnot hmem
    · cases forVolume with
      | false => simp at hmem
      | true => exact hfresh (List.mem_singleton.mp hmem ▸ hk)
  refine ⟨⟨notLayer_of_inv hvolumes hlayers, h.placed.nodup, h.placed.inOrder⟩, ?_, hvolumes, hlayers⟩
  show (s.volumeDisks ++ _).Sublist _
  rw [show (s.step (.plug forVolume disk)).guest.scanBlockDevices = _ from scan_plug s.guest disk]
  refine h.plugged.append ?_
  cases forVolume with
  | false => exact List.nil_sublist _
  | true => exact List.Sublist.refl _

/-- With at most one unknown disk, plugged for a volume, the unknown disks are the waiting ones. -/
theorem newDevices_eq_waiting {s : Plugged} (hsub : s.volumeDisks.Sublist s.guest.scanBlockDevices)
    (hone : s.guest.newDevices.length ≤ 1) (hmine : ∀ d ∈ s.guest.newDevices, d ∈ s.volumeDisks) :
    s.guest.newDevices = s.waiting := by
  have hle : s.waiting.Sublist s.guest.newDevices := hsub.filter _
  refine (hle.eq_of_length_le ?_).symm
  rcases Nat.eq_zero_or_pos s.guest.newDevices.length with hzero | hpos
  · omega
  · obtain ⟨d, hd⟩ := List.exists_mem_of_length_pos hpos
    have hwait : d ∈ s.waiting := List.mem_filter.mpr ⟨hmine d hd, (List.mem_filter.mp hd).2⟩
    have hpos' : 0 < s.waiting.length := List.length_pos_of_mem hwait
    omega

theorem given_create (s : Plugged) (io : Io) (req : CreateRequest) {ks : List String}
    (h : ∀ ds, (exec (writeSpecDevices io req) s.guest).1 = .ok ds → ds.filterMap id = ks.map ("/dev/" ++ ·)) :
    ∃ new, (s.step (.create io req)).given = s.given ++ new ∧ new.Sublist (ks.map ("/dev/" ++ ·)) := by
  cases hr : (exec (writeSpecDevices io req) s.guest).1 with
  | error e => exact ⟨[], by simp [Plugged.step, Plugged.given, hr], List.nil_sublist _⟩
  | ok ds => exact ⟨ds.filterMap id, by simp [Plugged.step, Plugged.given, hr], (h ds hr).symm ▸ List.Sublist.refl _⟩

theorem create_inv {s : Plugged} (h : s.Inv) {io : Io} {req : CreateRequest} (hio : io.Picks)
    (hc : s.careful (.create io req)) : (s.step (.create io req)).Inv := by
  obtain ⟨hlayer, hdisk⟩ := hc
  obtain ⟨g₁, ks, hlaid, hdisks, hmounts, hknown, hnodup, hnew, hblock, hds⟩ := create_devices io req s.guest
  obtain ⟨new, hgiven, hsub⟩ := given_create s io req fun ds hr => (hds ds hr).1
  have hscan : (s.step (.create io req)).guest.scanBlockDevices = s.guest.scanBlockDevices := by
    have hd : (s.step (.create io req)).guest.disks = s.guest.disks := hdisks
    rw [Guest.scanBlockDevices, hd]
    rfl
  have hvolumes : ∀ d ∈ (s.step (.create io req)).given, ∃ k ∈ s.volumeDisks,
      k ∈ (s.step (.create io req)).guest.mgr.knownDisks ∧ d = "/dev/" ++ k := by
    intro d hd
    rw [hgiven] at hd
    rcases List.mem_append.mp hd with hd | hd
    · obtain ⟨k, hk, hold, hdk⟩ := h.volumes d hd
      exact ⟨k, hk, (hknown k).mpr (.inl hold), hdk⟩
    · obtain ⟨k, hk, rfl⟩ := List.mem_map.mp (hsub.subset hd)
      have hmine : ∀ d ∈ s.guest.newDevices, d ∈ s.volumeDisks :=
        (hdisk (hblock (List.ne_nil_of_mem hk))).2
      exact ⟨k, hmine k (hnew k hk), (hknown k).mpr (.inr hk), rfl⟩
  have hlayers : ∀ m ∈ (s.step (.create io req)).guest.mounts, m.fsType = "erofs" →
      ∃ k ∈ (s.step (.create io req)).guest.scanBlockDevices, k ∉ s.volumeDisks ∧ m.source = "/dev/" ++ k := by
    intro m hm hfs
    rw [hscan]
    rcases hlaid.mounts m (hmounts ▸ hm) with hold | hne | ⟨i, hi, hdev, hsrc⟩
    · exact h.layers m hold hfs
    · exact absurd hfs hne
    · exact ⟨layerDevice i, hdev, hlayer i hi, hsrc⟩
  refine ⟨⟨notLayer_of_inv hvolumes hlayers, ?_, ?_⟩, hscan ▸ h.plugged, hvolumes, hlayers⟩
  · -- what was given before is known, what is given now was not
    rw [hgiven]
    refine List.Nodup.append h.placed.nodup ((hnodup.map fun a b => dev_injective).sublist hsub) ?_
    intro d hold hd
    obtain ⟨k, -, hk, rfl⟩ := h.volumes d hold
    obtain ⟨k', hk', heq⟩ := List.mem_map.mp (hsub.subset hd)
    have hunknown : k' ∉ s.guest.mgr.knownDisks := of_decide_eq_true (List.mem_filter.mp (hnew k' hk')).2
    exact hunknown (dev_injective heq ▸ hk)
  · intro c hmem i d hi
    rcases List.mem_append.mp hmem with hmem | hmem
    · exact h.placed.inOrder c hmem i d hi
    · cases hr : (exec (writeSpecDevices io req) s.guest).1 with
      | error e => simp [hr] at hmem
      | ok ds =>
        obtain rfl : c = ⟨s.waiting, ds⟩ := by simpa [hr] using hmem
        obtain ⟨-, ds₀, g₂, hrun, rfl⟩ := hds ds hr
        have hb : ∃ v ∈ req.volumes, v.isBlock = true := by
          obtain ⟨p, hp, -⟩ := List.mem_map.mp (List.mem_of_getElem? hi)
          obtain ⟨hzip, hp⟩ := List.mem_filter.mp hp
          exact ⟨p.1, (List.of_mem_zip hzip).1, hp⟩
        obtain ⟨hone, hmine⟩ := hdisk hb
        have hsame : g₁.newDevices = s.waiting :=
          (newDevices_of_base hlaid.base).trans (newDevices_eq_waiting h.plugged hone hmine)
        have hone₁ : g₁.newDevices.length ≤ 1 := newDevices_of_base hlaid.base ▸ hone
        exact hsame ▸ devices_single hio req.volumes hone₁ hrun i d hi

theorem start_inv (disks : List Disk) : (Plugged.start disks).Inv where
  placed := ⟨by simp [Plugged.start, Plugged.given], List.nodup_nil, by simp [Plugged.start]⟩
  plugged := List.nil_sublist _
  volumes := by simp [Plugged.start, Plugged.given]
  layers := by simp [Plugged.start, Guest.boot]

theorem run_inv {s : Plugged} (h : s.Inv) (es : List Event)
    (hio : ∀ io req, Event.create io req ∈ es → io.Picks) (hc : s.CarefulRun es) : (es.foldl Plugged.step s).Inv := by
  induction es generalizing s with
  | nil => exact h
  | cons e es ih =>
    refine ih ?_ (fun io req hmem => hio io req (List.mem_cons_of_mem e hmem)) hc.2
    cases e with
    | plug forVolume disk => exact plug_inv h forVolume disk
    | create io req => exact create_inv h (hio io req List.mem_cons_self) hc.1

/-- **Block volumes have their own disks, in order, in every run whose `create` calls cannot take a wrong one.** -/
theorem block_volumes_placed (disks : List Disk) (es : List Event)
    (hio : ∀ io req, Event.create io req ∈ es → io.Picks) (hc : (Plugged.start disks).CarefulRun es) :
    (es.foldl Plugged.step (Plugged.start disks)).Placed :=
  (run_inv (start_inv disks) es hio hc).placed

theorem ok_picks (pid : ℕ) : (Io.ok pid).Picks := by
  intro l hne
  obtain ⟨x, xs, rfl⟩ := List.exists_cons_of_ne_nil hne
  exact ⟨x, List.mem_cons_self, rfl⟩

def dataVolume : VolumeInfo := ⟨"/data", "/dev/pvc", false, true, "ext4", []⟩

def dataContainer : CreateRequest := { oneContainer with volumes := [dataVolume] }

/-- The disk of the volume comes while the layer is there from the start. -/
def volumePlugged : List Event := [.plug true ⟨"/pvc.img", false, "vol"⟩, .create (Io.ok 10) dataContainer]

theorem block_volume_placed : (volumePlugged.foldl Plugged.step (Plugged.start twoDisks)).given = ["/dev/vdc"] ∧
    (volumePlugged.foldl Plugged.step (Plugged.start twoDisks)).Placed := by
  refine ⟨by decide +kernel, block_volumes_placed twoDisks volumePlugged ?_ ?_⟩
  · intro io req hmem
    obtain ⟨rfl, rfl⟩ : io = Io.ok 10 ∧ req = dataContainer := by simpa [volumePlugged] using hmem
    exact ok_picks 10
  · have hlayers : ∀ i ∈ List.range dataContainer.erofsLayers,
        layerDevice i ∉ ((Plugged.start twoDisks).step (.plug true ⟨"/pvc.img", false, "vol"⟩)).volumeDisks := by
      decide +kernel
    have hdisks : ((Plugged.start twoDisks).step (.plug true ⟨"/pvc.img", false, "vol"⟩)).guest.newDevices.length ≤ 1 ∧
        ∀ d ∈ ((Plugged.start twoDisks).step (.plug true ⟨"/pvc.img", false, "vol"⟩)).guest.newDevices,
          d ∈ ((Plugged.start twoDisks).step (.plug true ⟨"/pvc.img", false, "vol"⟩)).volumeDisks := by
      decide +kernel
    exact ⟨trivial, ⟨hlayers, fun _ => hdisks⟩, trivial⟩

/-- Layer and volume are plugged, and the set yields the layer's disk first. -/
theorem volume_gets_layer : ¬ ∀ (disks : List Disk) (es : List Event),
    (∀ io req, Event.create io req ∈ es → io.Picks) → (es.foldl Plugged.step (Plugged.start disks)).Placed := by
  intro hall
  let es : List Event := .plug false ⟨"/img.erofs", true, "ctr-rootfs"⟩ :: volumePlugged
  have hplaced : (es.foldl Plugged.step (Plugged.start [⟨"/rootfs", true, "_disk0"⟩])).Placed := by
    refine hall _ es fun io req hmem => ?_
    obtain ⟨rfl, rfl⟩ : io = Io.ok 10 ∧ req = dataContainer := by simpa [es, volumePlugged] using hmem
    exact ok_picks 10
  have hrun : "/dev/vdb" ∈ (es.foldl Plugged.step (Plugged.start [⟨"/rootfs", true, "_disk0"⟩])).given ∧
      ∃ m ∈ (es.foldl Plugged.step (Plugged.start [⟨"/rootfs", true, "_disk0"⟩])).guest.mounts,
        m.fsType = "erofs" ∧ m.source = "/dev/vdb" := by
    decide +kernel
  obtain ⟨hgiven, m, hm, hfs, hsrc⟩ := hrun
  exact hplaced.notLayer _ hgiven m hm hfs hsrc

end CloudHv.Agent
