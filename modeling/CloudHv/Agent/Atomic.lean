import CloudHv.Agent.Tables

/-!
# Atomic — what a failed call leaves behind

`adopt` moves the entries of one id to another.  Every record has a pid, so it does not fail half way; but it does
not look at what the new id has.  `run` is `create` and `start`: a `start` that fails leaves the record that `create`
entered, and a `create` that fails at its last step leaves the disks that it took for its volumes among the known
ones.
-/

namespace CloudHv.Agent

open Conc Method

/-! ### adopt -/

/-- What was under `o` is under `n`, and the rest is as it was. -/
structure ContainerManager.Renamed (o n : String) (m m' : ContainerManager) : Prop where
  record : m'.containers.lookup n = m.containers.lookup o
  receiver : m'.exitReceivers.lookup n = m.exitReceivers.lookup o
  log : m'.logs.lookup n = m.logs.lookup o
  gone : o ≠ n → o ∉ m'.containers ∧ o ∉ m'.exitReceivers ∧ o ∉ m'.logs
  others : ∀ id, id ≠ o → id ≠ n → m'.containers.lookup id = m.containers.lookup id ∧
    m'.exitReceivers.lookup id = m.exitReceivers.lookup id ∧ m'.logs.lookup id = m.logs.lookup id
  count : m'.containers.keys.card = m.containers.keys.card

/-- `adopt` renames, or fails and changes none of the three maps. -/
def Guest.AdoptsWell (g : Guest) (o n : String) : Prop :=
  ∀ r g', exec (adopt o n) g = (r, g') →
    (∀ e, r = .error e → g'.mgr.containers = g.mgr.containers ∧ g'.mgr.exitReceivers = g.mgr.exitReceivers ∧
      g'.mgr.logs = g.mgr.logs) ∧
    ∀ p, r = .ok p → g.mgr.Renamed o n g'.mgr

section Move

variable {ν : Type} {m : Finmap (fun _ : String => ν)} {o n : String}

/-- An entry that moves takes the place of what is at the new id. -/
theorem lookup_moveKey_new (h : o = n ∨ o ∈ m ∨ n ∉ m) : (moveKey m o n).lookup n = m.lookup o := by
  unfold moveKey
  split
  · next v hv => rw [Finmap.lookup_insert, hv]
  · next hv =>
    have hom : o ∉ m := Finmap.lookup_eq_none.mp hv
    rcases h with rfl | h | h
    · rfl
    · exact absurd h hom
    · rw [hv, Finmap.lookup_eq_none.mpr h]

theorem lookup_moveKey_old (hne : o ≠ n) : (moveKey m o n).lookup o = none := by
  unfold moveKey
  split
  · rw [Finmap.lookup_insert_eq, if_neg hne, Finmap.lookup_erase]
  · next hv => exact hv

theorem lookup_moveKey_other {id : String} (ho : id ≠ o) (hn : id ≠ n) :
    (moveKey m o n).lookup id = m.lookup id := by
  unfold moveKey
  split
  · rw [Finmap.lookup_insert_eq, if_neg hn, Finmap.lookup_erase_eq, if_neg ho]
  · rfl

/-- With nothing to move, what is at the new id stays. -/
theorem moveKey_of_notMem (h : o ∉ m) : moveKey m o n = m := by
  unfold moveKey
  rw [Finmap.lookup_eq_none.mpr h]

end Move

/-- What an adoption needs to be a renaming: the new id is free, or it is the old one. -/
def ContainerManager.freeFor (m : ContainerManager) (o n : String) : Prop :=
  o ∉ m.containers ∨ o = n ∨
    (n ∉ m.containers ∧ (o ∈ m.exitReceivers ∨ n ∉ m.exitReceivers) ∧ (o ∈ m.logs ∨ n ∉ m.logs))

section Adopt

variable {g : Guest} {o n : String} {c : Container}

theorem card_keys_adopted (hc : g.mgr.containers.lookup o = some c) (h : o = n ∨ n ∉ g.mgr.containers) :
    (g.adopted o n c).mgr.containers.keys.card = g.mgr.containers.keys.card := by
  have ho : o ∈ g.mgr.containers.keys := Finmap.mem_keys.mpr (Finmap.mem_of_lookup hc)
  have hn : n ∉ g.mgr.containers.keys.erase o := by
    intro hin
    rw [Finset.mem_erase] at hin
    rcases h with rfl | h
    · exact hin.1 rfl
    · exact h (Finmap.mem_keys.mp hin.2)
  show ((g.mgr.containers.erase o).insert n c).keys.card = _
  rw [Finmap.keys_insert, Finmap.keys_erase, Finset.card_insert_of_notMem hn, Finset.card_erase_add_one ho]

/-- The record moves to a free id, or to its own. -/
theorem renamed_adopted (hc : g.mgr.containers.lookup o = some c)
    (hfree : o = n ∨ (n ∉ g.mgr.containers ∧ (o ∈ g.mgr.exitReceivers ∨ n ∉ g.mgr.exitReceivers) ∧
      (o ∈ g.mgr.logs ∨ n ∉ g.mgr.logs))) : g.mgr.Renamed o n (g.adopted o n c).mgr where
  record := by
    show ((g.mgr.containers.erase o).insert n c).lookup n = _
    rw [Finmap.lookup_insert, hc]
  receiver := lookup_moveKey_new (hfree.imp_right fun h => h.2.1)
  log := lookup_moveKey_new (hfree.imp_right fun h => h.2.2)
  gone := by
    intro hne
    refine ⟨?_, Finmap.lookup_eq_none.mp (lookup_moveKey_old hne), Finmap.lookup_eq_none.mp (lookup_moveKey_old hne)⟩
    rw [← Finmap.lookup_eq_none]
    show ((g.mgr.containers.erase o).insert n c).lookup o = none
    rw [Finmap.lookup_insert_eq, if_neg hne, Finmap.lookup_erase]
  others := by
    intro id ho hn
    refine ⟨?_, lookup_moveKey_other ho hn, lookup_moveKey_other ho hn⟩
    show ((g.mgr.containers.erase o).insert n c).lookup id = _
    rw [Finmap.lookup_insert_eq, if_neg hn, Finmap.lookup_erase_eq, if_neg ho]
  count := card_keys_adopted hc (hfree.imp_right And.left)

/-- An adoption to an id that is in use loses a record or mixes entries. -/
theorem free_of_renamed (hc : g.mgr.containers.lookup o = some c) (h : g.mgr.Renamed o n (g.adopted o n c).mgr)
    (hne : o ≠ n) : n ∉ g.mgr.containers ∧ (o ∈ g.mgr.exitReceivers ∨ n ∉ g.mgr.exitReceivers) ∧
      (o ∈ g.mgr.logs ∨ n ∉ g.mgr.logs) := by
  have hmoved : ∀ m : Finmap (fun _ : String => ℕ), (moveKey m o n).lookup n = m.lookup o → o ∈ m ∨ n ∉ m := by
    intro m hm
    by_cases ho : o ∈ m
    · exact .inl ho
    · rw [moveKey_of_notMem ho, Finmap.lookup_eq_none.mpr ho] at hm
      exact .inr (Finmap.lookup_eq_none.mp hm)
  refine ⟨fun hn => ?_, hmoved _ h.receiver, hmoved _ h.log⟩
  -- the record of `n` is written over, and there is one less
  have ho : o ∈ g.mgr.containers.keys := Finmap.mem_keys.mpr (Finmap.mem_of_lookup hc)
  have hmem : n ∈ g.mgr.containers.keys.erase o := Finset.mem_erase.mpr ⟨Ne.symm hne, Finmap.mem_keys.mpr hn⟩
  have hcount : ((g.mgr.containers.erase o).insert n c).keys.card = g.mgr.containers.keys.card := h.count
  rw [Finmap.keys_insert, Finmap.keys_erase, Finset.insert_eq_of_mem hmem] at hcount
  have := Finset.card_erase_add_one ho
  omega

end Adopt

/-- **Adoption is a renaming** if and only if the old id is not there, or is the new one, or the new id has no
record and no receiver and no log that the old one does not replace. -/
theorem adopt_renames_iff {disks : List Disk} {x : AgentConf}
    (h : agent.Reach (fun _ _ => True) (booted disks) x) (o n : String) :
    x.shared.AdoptsWell o n ↔ x.shared.mgr.freeFor o n := by
  have hsane := tables_sane h
  constructor
  · intro hw
    by_cases ho : o ∈ x.shared.mgr.containers
    · obtain ⟨c, hc⟩ := Finmap.mem_iff.mp ho
      obtain ⟨p, hp, -⟩ := hsane.record o c hc
      have hren := (hw _ _ (adopt_ok hc hp n)).2 p rfl
      by_cases hne : o = n
      · exact .inr (.inl hne)
      · exact .inr (.inr (free_of_renamed hc hren hne))
    · exact .inl ho
  · intro hfree r g' hr
    rcases adopt_cases hr with ⟨-, ⟨e, rfl⟩, rfl⟩ | ⟨c, hc, ⟨hp, -, -⟩ | ⟨p, -, rfl, rfl⟩⟩
    · exact ⟨fun _ _ => ⟨rfl, rfl, rfl⟩, nofun⟩
    · obtain ⟨q, hq, -⟩ := hsane.record o c hc
      rw [hp] at hq
      cases hq
    · refine ⟨nofun, fun _ _ => renamed_adopted hc ?_⟩
      exact hfree.resolve_left fun ho => ho (Finmap.mem_of_lookup hc)

/-- The container runs as `web`, and no other id is in use. -/
theorem adopt_renames_web : ∃ x, agent.Reach (fun _ _ => True) (booted twoDisks) x ∧
    "web" ∈ x.shared.mgr.containers ∧ x.shared.AdoptsWell "web" "pod" := by
  have hrun : (agent.exec (fun _ _ => true) (booted twoDisks)
      [.arrive (.runContainer oneContainer), go 0 .changed]).any (fun x =>
        decide ("web" ∈ x.shared.mgr.containers ∧ "pod" ∉ x.shared.mgr.containers ∧
          "pod" ∉ x.shared.mgr.exitReceivers ∧ "pod" ∉ x.shared.mgr.logs)) = true := by decide +kernel
  obtain ⟨x, hx, hP⟩ := System.exists_reach hrun
  obtain ⟨hweb, hc, hr, hl⟩ := of_decide_eq_true hP
  have hreach : agent.Reach (fun _ _ => True) (booted twoDisks) x := hx.mono fun _ _ _ => trivial
  exact ⟨x, hreach, hweb, (adopt_renames_iff hreach "web" "pod").mpr (.inr (.inr ⟨hc, .inr hr, .inr hl⟩))⟩

/-- A container that was created as `pod` is lost when `web` is adopted to this id. -/
theorem adopt_loses_record : ¬ ∀ (disks : List Disk) (x : AgentConf) (o n : String),
    agent.Reach (fun _ _ => True) (booted disks) x → x.shared.AdoptsWell o n := by
  intro hall
  have hrun : (agent.exec (fun _ _ => true) (booted twoDisks) [.arrive (.runContainer oneContainer), go 0 .changed,
      .arrive (.createContainer { oneContainer with containerId := "pod" }), go 4 .changed]).any (fun x =>
        decide (x.shared.mgr.containers.lookup "web" = some ⟨some 10, none, .running⟩ ∧
          "pod" ∈ x.shared.mgr.containers)) = true := by decide +kernel
  obtain ⟨x, hx, hP⟩ := System.exists_reach hrun
  obtain ⟨hc, hpod⟩ := of_decide_eq_true hP
  have hw := hall twoDisks x "web" "pod" (hx.mono fun _ _ _ => trivial)
  have hren := (hw _ _ (adopt_ok hc rfl "pod")).2 10 rfl
  exact (free_of_renamed hc hren (by decide)).1 hpod

/-! ### run: up to the disks of the volumes -/

/-- The calls for an inline file; a file with an unsafe path is skipped. -/
def inlineCalls (f : InlineFileInfo) : List OsCall :=
  if unsafePath f.path then []
  else [.createInlineDir f, .writeInline f] ++ if f.mode ≠ 0 then [.chmodInline f] else []

def volumeCalls (v : VolumeInfo) : List OsCall :=
  if v.isBlock || v.inlineFiles.isEmpty then [] else .createVolume v :: v.inlineFiles.flatMap inlineCalls

/-- The layers of the container can be mounted and put together. -/
def mountReady (io : Io) (req : CreateRequest) (disks : List Disk) : Prop :=
  req.erofsLayers ≠ 0 ∧ io.fail .createMountPoint = none ∧ io.fail .createRootfs = none ∧
    (∀ i ∈ List.range req.erofsLayers, io.fail (.createLayer i) = none ∧
      layerDevice i ∈ (List.range disks.length).map diskName ∧ io.fail (.mountLayer i) = none) ∧
    io.fail .createUpper = none ∧ io.fail .createWork = none ∧ io.fail .mountOverlay = none

/-- There is a config: it can be written, or is there from before. -/
def configReady (io : Io) (req : CreateRequest) (configs : Finset String) : Prop :=
  if req.configJson.isEmpty then req.containerId ∈ configs else io.fail .writeConfig = none

/-- The files of the volumes can be written, and the config can be read. -/
def fillReady (io : Io) (req : CreateRequest) : Prop :=
  (∀ v ∈ req.volumes, ∀ c ∈ volumeCalls v, io.fail c = none) ∧ io.fail .symlinkVolumes = none ∧
    io.fail .readSpec = none ∧ io.fail .parseSpec = none

/-- `create` comes to the disks of its volumes. -/
def bundleReady (io : Io) (req : CreateRequest) (g : Guest) : Prop :=
  mountReady io req g.disks ∧ configReady io req g.configs ∧ fillReady io req

/-- `create` up to the config. -/
def mountBundle (io : Io) (req : CreateRequest) : GuestM Unit := do
  failIf (req.erofsLayers = 0) ["erofs_layers must be > 0: the erofs snapshotter is required"]
  let mp := mountPoint req.containerId
  io.check .createMountPoint
  io.check .createRootfs
  let lowerdirs ← mountLayers io req.containerId (List.range req.erofsLayers)
  io.check .createUpper
  io.check .createWork
  let opts := "lowerdir=" ++ String.intercalate ":" lowerdirs ++ ",upperdir=" ++ mp ++ "/upper,workdir=" ++
    mp ++ "/work"
  io.checkWith .mountOverlay ("overlayfs mount with erofs layers: " ++ opts)
  addMount ⟨"overlay", mp ++ "/rootfs", "overlay"⟩

/-- The rest, up to the disks of the volumes. -/
def fillBundle (io : Io) (req : CreateRequest) : GuestM Unit := do
  req.volumes.forM (writeInlineVolume io)
  io.checkWith .symlinkVolumes "symlink disk volumes to bundle"
  io.checkWith .readSpec ("failed to read " ++ mountPoint req.containerId ++ "/config.json")
  io.checkWith .parseSpec "failed to parse config.json"

section Ready

variable {io : Io}

/-- The part of the guest on which it depends whether a bundle can be prepared, with the manager. -/
def Guest.ground (g : Guest) : ContainerManager × List Disk × Finset String := (g.mgr, g.disks, g.configs)

/-- The same without the bundles that have a `config.json`. -/
def Guest.base (g : Guest) : ContainerManager × List Disk := (g.mgr, g.disks)

theorem checkAs_decided {β : Type} (f : Guest → β) (c : OsCall) (w : String → Err) :
    Decided f (fun _ => io.fail c = none) (io.checkAs c w) := by
  intro g
  unfold Io.checkAs
  split
  · next h => exact ⟨rfl, iff_of_true ⟨_, rfl⟩ h⟩
  · next e h => exact ⟨rfl, iff_of_false (fun ⟨x, hx⟩ => (by cases hx)) (by rw [h]; exact nofun)⟩

theorem failIf_decided {β : Type} (f : Guest → β) (c : Prop) [Decidable c] (e : Err) :
    Decided f (fun _ => ¬ c) (failIf c e) := by
  intro g
  unfold failIf
  split
  · next h => exact ⟨rfl, iff_of_false (fun ⟨x, hx⟩ => (by cases hx)) (not_not.mpr h)⟩
  · next h => exact ⟨rfl, iff_of_true ⟨_, rfl⟩ h⟩

/-- A check of the state that looks at the part `f` of it. -/
theorem checkState_decided {β : Type} (f : Guest → β) (P : β → Prop) (c : Guest → Prop) [DecidablePred c] (e : Err)
    (h : ∀ g, c g ↔ ¬ P (f g)) : Decided f P (do failIf (c (← get)) e : GuestM Unit) := by
  intro g
  simp only [exec_bind, exec_get, failIf]
  split
  · next hc =>
    refine ⟨rfl, iff_of_false ?_ ((h g).mp hc)⟩
    rintro ⟨x, hx⟩
    cases hx
  · next hc => exact ⟨rfl, iff_of_true ⟨_, rfl⟩ (not_not.mp fun hn => hc ((h g).mpr hn))⟩

theorem addMount_decided (m : Mount) : Decided Guest.ground (fun _ => True) (addMount m) := .modify fun _ => rfl

theorem mountLayer_decided (id : String) (i : ℕ) : Decided Guest.ground
    (fun b => io.fail (.createLayer i) = none ∧ layerDevice i ∈ (List.range b.2.1.length).map diskName ∧
      io.fail (.mountLayer i) = none) (mountLayer io id i) := by
  have hrest : Decided Guest.ground (fun _ => io.fail (.mountLayer i) = none) (do
      io.checkAs (.mountLayer i) fun e => ["mount erofs /dev/" ++ layerDevice i ++ " at " ++
        (mountPoint id ++ "/layer" ++ toString i) ++ ": " ++ e]
      addMount ⟨"/dev/" ++ layerDevice i, mountPoint id ++ "/layer" ++ toString i, "erofs"⟩
      pure (mountPoint id ++ "/layer" ++ toString i) : GuestM String) := by
    refine ((checkAs_decided _ _ _).bind fun _ => (addMount_decided _).bind fun _ => .pure _).congr ?_
    intro b
    simp
  have hdev : Decided Guest.ground (fun b => layerDevice i ∈ (List.range b.2.1.length).map diskName) (do
      failIf (layerDevice i ∉ (← get).scanBlockDevices) ["timeout waiting for device " ++ layerDevice i] : GuestM Unit) :=
    checkState_decided Guest.ground _ (fun g => layerDevice i ∉ g.scanBlockDevices) _ fun _ => Iff.rfl
  have hcreate : Decided Guest.ground (fun _ => io.fail (.createLayer i) = none) (io.check (.createLayer i)) :=
    checkAs_decided _ _ _
  exact hcreate.bind fun _ => hdev.bind fun _ => hrest

theorem mountLayers_decided (id : String) (is : List ℕ) : Decided Guest.ground
    (fun b => ∀ i ∈ is, io.fail (.createLayer i) = none ∧ layerDevice i ∈ (List.range b.2.1.length).map diskName ∧
      io.fail (.mountLayer i) = none) (mountLayers io id is) := by
  induction is with
  | nil => exact (Decided.pure _).congr fun b => by simp
  | cons i is ih =>
    refine ((mountLayer_decided id i).bind fun _ => ih.bind fun _ => .pure _).congr fun b => ?_
    simp

theorem writeInlineFile_decided {β : Type} (f : Guest → β) (file : InlineFileInfo) :
    Decided f (fun _ => ∀ c ∈ inlineCalls file, io.fail c = none) (writeInlineFile io file) := by
  unfold writeInlineFile inlineCalls
  refine .ite (fun h => ?_) fun h => ?_
  · rw [if_pos h]
    exact (Decided.pure _).congr fun b => by simp
  · rw [if_neg h]
    by_cases hm : file.mode ≠ 0
    · rw [if_pos hm, if_pos hm]
      refine ((checkAs_decided f _ _).bind fun _ => (checkAs_decided f _ _).bind fun _ =>
        checkAs_decided f _ _).congr fun b => ?_
      simp
    · rw [if_neg hm, if_neg hm]
      refine ((checkAs_decided f _ _).bind fun _ => (checkAs_decided f _ _).bind fun _ =>
        .pure _).congr fun b => ?_
      simp

theorem writeInlineVolume_decided {β : Type} (f : Guest → β) (v : VolumeInfo) :
    Decided f (fun _ => ∀ c ∈ volumeCalls v, io.fail c = none) (writeInlineVolume io v) := by
  unfold writeInlineVolume volumeCalls
  refine .ite (fun h => ?_) fun h => ?_
  · rw [if_pos h]
    exact (Decided.pure _).congr fun b => by simp
  · rw [if_neg h]
    refine ((checkAs_decided f _ _).bind fun _ => Decided.forM (writeInlineFile_decided f) _).congr fun b => ?_
    simp only [List.mem_cons, List.mem_flatMap, forall_eq_or_imp, forall_exists_index, and_imp]
    exact and_congr_right' ⟨fun h c f hf hc => h f hf c hc, fun h f hf c hc => h c f hf hc⟩

theorem mountBundle_decided (req : CreateRequest) :
    Decided Guest.ground (fun b => mountReady io req b.2.1) (mountBundle io req) := by
  refine ((failIf_decided _ _ _).bind fun _ => (checkAs_decided _ _ _).bind fun _ => (checkAs_decided _ _ _).bind fun _ =>
    (mountLayers_decided _ _).bind fun _ => (checkAs_decided _ _ _).bind fun _ => (checkAs_decided _ _ _).bind fun _ =>
    (checkAs_decided _ _ _).bind fun _ => addMount_decided _).congr fun b => ?_
  simp [mountReady]

theorem fillBundle_decided (req : CreateRequest) : Decided Guest.base (fun _ => fillReady io req) (fillBundle io req) :=
  (Decided.forM (writeInlineVolume_decided _) _).bind fun _ => (checkAs_decided _ _ _).bind fun _ =>
    (checkAs_decided _ _ _).bind fun _ => checkAs_decided _ _ _

theorem writeConfig_outcome (req : CreateRequest) (g : Guest) : (exec (writeConfig io req) g).2.base = g.base ∧
    ((∃ x, (exec (writeConfig io req) g).1 = .ok x) ↔ configReady io req g.configs) := by
  unfold writeConfig configReady
  by_cases he : req.configJson.isEmpty = true
  · rw [if_pos he, if_neg (by simp [he])]
    have hcheck : Decided Guest.ground (fun b => req.containerId ∈ b.2.2) (do
        failIf (req.containerId ∉ (← get).configs)
          ["no config.json: inline data not provided and no on-disk file present"] : GuestM Unit) :=
      checkState_decided Guest.ground _ (fun g => req.containerId ∉ g.configs) _ fun _ => Iff.rfl
    obtain ⟨hkeep, hok⟩ := hcheck g
    refine ⟨?_, hok⟩
    obtain ⟨hmgr, hrest⟩ := Prod.mk.inj hkeep
    exact Prod.ext hmgr (Prod.mk.inj hrest).1
  · rw [if_neg he, if_pos (by simp [he])]
    have hwrite : Decided Guest.base (fun _ => io.fail .writeConfig = none ∧ True) (do
        io.checkWith .writeConfig "write inline config.json"
        modify fun g => { g with configs := insert req.containerId g.configs } : GuestM Unit) :=
      (checkAs_decided _ _ _).bind fun _ => .modify fun _ => rfl
    obtain ⟨hkeep, hok⟩ := hwrite g
    exact ⟨hkeep, hok.trans (iff_of_eq (and_true _))⟩

/-- `create` comes to the disks of its volumes exactly when it is ready for them, and has changed no map before. -/
theorem bundle_outcome (req : CreateRequest) (g : Guest) :
    ∃ r g₁, exec (do mountBundle io req; writeConfig io req; fillBundle io req) g = (r, g₁) ∧ g₁.base = g.base ∧
      ((∃ e, r = .error e) ∨ r = .ok ()) ∧ (r = .ok () ↔ bundleReady io req g) := by
  have hfail : ∀ (e : Err) (g₁ : Guest), g₁.base = g.base → ¬ bundleReady io req g →
      ∃ r g', ((.error e, g₁) : Except Err Unit × Guest) = (r, g') ∧ g'.base = g.base ∧
        ((∃ e, r = .error e) ∨ r = .ok ()) ∧ (r = .ok () ↔ bundleReady io req g) :=
    fun e g₁ hb hn => ⟨.error e, g₁, rfl, hb, .inl ⟨e, rfl⟩, iff_of_false nofun hn⟩
  have hm : Decided Guest.ground (fun b => mountReady io req b.2.1) (mountBundle io req) := mountBundle_decided req
  have hf : Decided Guest.base (fun _ => fillReady io req) (fillBundle io req) := fillBundle_decided req
  rw [exec_bind]
  by_cases hmount : mountReady io req g.disks
  · obtain ⟨⟨⟩, g₁, hg₁, hkeep₁⟩ := hm.ok hmount
    obtain ⟨hmgr, hrest⟩ := Prod.mk.inj hkeep₁
    obtain ⟨hdisks, hconfigs⟩ := Prod.mk.inj hrest
    rw [hg₁]
    show ∃ r g', exec (do writeConfig io req; fillBundle io req) g₁ = (r, g') ∧ _
    rw [exec_bind]
    obtain ⟨hkeep₂, hok⟩ : (exec (writeConfig io req) g₁).2.base = g₁.base ∧ _ := writeConfig_outcome req g₁
    rw [hconfigs] at hok
    have hbase : (exec (writeConfig io req) g₁).2.base = g.base := hkeep₂.trans (Prod.ext hmgr hdisks)
    rcases hr : exec (writeConfig io req) g₁ with ⟨q, g₂⟩
    rw [hr] at hok hbase
    cases q with
    | error e =>
      refine hfail e g₂ hbase fun h => ?_
      obtain ⟨x, hx⟩ := hok.mpr h.2.1
      cases hx
    | ok u =>
      have hcfg := hok.mp ⟨u, rfl⟩
      show ∃ r g', exec (fillBundle io req) g₂ = (r, g') ∧ _
      by_cases hfill : fillReady io req
      · obtain ⟨⟨⟩, g₃, hg₃, hkeep₃⟩ := hf.ok (s := g₂) hfill
        exact ⟨_, g₃, hg₃, hkeep₃.trans hbase, .inr rfl, iff_of_true rfl ⟨hmount, hcfg, hfill⟩⟩
      · obtain ⟨e, g₃, hg₃, hkeep₃⟩ := hf.error (s := g₂) hfill
        rw [hg₃]
        exact hfail e g₃ (hkeep₃.trans hbase) fun h => hfill h.2.2
  · obtain ⟨e, g₁, hg₁, hkeep₁⟩ := hm.error hmount
    obtain ⟨hmgr, hrest⟩ := Prod.mk.inj hkeep₁
    rw [hg₁]
    exact hfail e g₁ (Prod.ext hmgr (Prod.mk.inj hrest).1) fun h => hmount h.1

end Ready

/-! ### run: the disks and the rest -/

/-- The disks that `adapt_oci_spec_for_vm` takes for the volumes. -/
def takeDisks (io : Io) (volumes : List VolumeInfo) : GuestM PUnit :=
  volumes.forM fun v => do let _ ← volumeDevice io v

section Run

variable {io : Io}

/-- One disk is taken, or none. -/
theorem volumeDevice_cases (v : VolumeInfo) (g : Guest) : ∃ d g', exec (volumeDevice io v) g = (.ok d, g') ∧
    ((g' = g ∧ (v.isBlock = false ∨ g.finds io = false)) ∨
      (v.isBlock = true ∧ g.finds io = true ∧ ∃ dev ∈ g.newDevices, g' = g.withDisk dev)) := by
  unfold volumeDevice
  by_cases hb : v.isBlock = true
  · rw [if_pos hb]
    by_cases hf : g.finds io = true
    · obtain ⟨dev, hp, hd⟩ := exists_of_finds hf
      exact ⟨_, _, discover_found hp hd, .inr ⟨hb, hf, dev, hd, rfl⟩⟩
    · rw [Bool.not_eq_true] at hf
      exact ⟨_, _, discover_none hf, .inl ⟨rfl, .inr hf⟩⟩
  · rw [if_neg hb]
    exact ⟨none, g, rfl, .inl ⟨rfl, .inl (by simpa using hb)⟩⟩

/-- Disks become known; nothing else changes, and the loop does not fail. -/
theorem takeDisks_spec (vs : List VolumeInfo) (g : Guest) : ∃ ks, g.mgr.knownDisks ⊆ ks ∧
    exec (takeDisks io vs) g = (.ok ⟨⟩, { g with mgr := { g.mgr with knownDisks := ks } }) ∧
    (ks = g.mgr.knownDisks ↔ ((∀ v ∈ vs, v.isBlock = false) ∨ g.finds io = false)) := by
  induction vs generalizing g with
  | nil => exact ⟨_, Finset.Subset.refl _, rfl, iff_of_true rfl (.inl (by simp))⟩
  | cons v vs ih =>
    have hone : ∃ d g', exec (volumeDevice io v) g = (.ok d, g') ∧ _ := volumeDevice_cases v g
    obtain ⟨d, g', hv, hcases⟩ := hone
    have hrun : exec (takeDisks io (v :: vs)) g = exec (takeDisks io vs) g' := by
      show exec (do (do let _ ← volumeDevice io v); takeDisks io vs) g = _
      rw [exec_bind, exec_bind, hv]
      rfl
    rw [hrun]
    rcases hcases with ⟨rfl, hno⟩ | ⟨hb, hf, dev, hdev, rfl⟩
    · obtain ⟨ks, hsub, hex, hiff⟩ := ih g'
      refine ⟨ks, hsub, hex, hiff.trans ?_⟩
      rw [List.forall_mem_cons]
      tauto
    · obtain ⟨ks, hsub, hex, -⟩ := ih (g.withDisk dev)
      have hnew : dev ∉ g.mgr.knownDisks := by simpa using (List.mem_filter.mp hdev).2
      have hin : dev ∈ ks := hsub (Finset.mem_insert_self _ _)
      refine ⟨ks, (Finset.subset_insert _ _).trans hsub, hex, iff_of_false ?_ ?_⟩
      · rintro rfl
        exact hnew hin
      · rintro (hall | hnone)
        · rw [hall v List.mem_cons_self] at hb
          cases hb
        · rw [hnone] at hf
          cases hf

/-- `create` in its parts. -/
theorem create_eq (req : CreateRequest) : create io req = (do
    (do mountBundle io req; writeConfig io req; fillBundle io req)
    takeDisks io req.volumes
    io.checkWith .writeSpec ("failed to write " ++ mountPoint req.containerId ++ "/config.json")
    modify fun g => g.withCreated req.containerId
    pure agentPid) := by
  simp only [create, prepareBundle, mountBundle, fillBundle, adaptOciSpecForVm, takeDisks, bind_assoc]
  rfl

/-- The volumes of the request take a disk. -/
def takesDisk (io : Io) (req : CreateRequest) (g : Guest) : Prop := (∃ v ∈ req.volumes, v.isBlock = true) ∧ g.finds io = true

/-- The four maps after `create`. -/
theorem create_outcome (req : CreateRequest) (g : Guest) :
    (¬ bundleReady io req g → ∃ e g', exec (create io req) g = (.error e, g') ∧ g'.mgr = g.mgr) ∧
    (bundleReady io req g → ∃ ks, (ks = g.mgr.knownDisks ↔ ¬ takesDisk io req g) ∧
      (io.fail .writeSpec ≠ none → ∃ e g', exec (create io req) g = (.error e, g') ∧
        g'.mgr = { g.mgr with knownDisks := ks }) ∧
      (io.fail .writeSpec = none → ∃ g', exec (create io req) g = (.ok agentPid, g') ∧
        g'.mgr = { g.mgr with
          knownDisks := ks
          containers := g.mgr.containers.insert req.containerId ⟨some agentPid, none, .created⟩ })) := by
  obtain ⟨r, g₁, hg₁, hbase, hr, hready⟩ : ∃ r g₁, exec (do mountBundle io req; writeConfig io req; fillBundle io req) g =
    (r, g₁) ∧ _ := bundle_outcome req g
  obtain ⟨hmgr, hdisks⟩ := Prod.mk.inj hbase
  rw [create_eq, exec_bind, hg₁]
  refine ⟨fun hn => ?_, fun hb => ?_⟩
  · rcases hr with ⟨e, rfl⟩ | rfl
    · exact ⟨e, g₁, rfl, hmgr⟩
    · exact absurd (hready.mp rfl) hn
  · obtain rfl := hready.mpr hb
    obtain ⟨ks, -, htake, hsame⟩ : ∃ ks, g₁.mgr.knownDisks ⊆ ks ∧ exec (takeDisks io req.volumes) g₁ = _ ∧ _ :=
      takeDisks_spec req.volumes g₁
    have hnew : g₁.newDevices = g.newDevices := by
      show ((List.range g₁.disks.length).map diskName).filter (fun x => decide (x ∉ g₁.mgr.knownDisks)) = _
      rw [hmgr, hdisks]
      rfl
    have hfinds : g₁.finds io = g.finds io := by
      rw [Guest.finds, Guest.finds, hnew]
    have hiff : ks = g.mgr.knownDisks ↔ ¬ takesDisk io req g := by
      rw [← hmgr, hsame, hfinds, takesDisk, not_and_or]
      simp
    refine ⟨ks, hiff, fun hw => ?_, fun hw => ?_⟩
    · obtain ⟨t, ht⟩ := Option.ne_none_iff_exists'.mp hw
      simp only [exec_bind, htake, Io.checkWith, Io.checkAs, ht, exec_throw]
      exact ⟨_, _, rfl, by rw [hmgr]⟩
    · simp only [exec_bind, htake, Io.checkWith, Io.checkAs, hw, exec_pure, exec_modify]
      exact ⟨_, rfl, by simp only [Guest.withCreated, hmgr]⟩

/-- `start` of a container that is there. -/
theorem start_outcome {id : String} {g : Guest} (hid : id ∈ g.mgr.containers) :
    (io.fail .spawnCrun = none → ∃ g', exec (start io id) g = (.ok io.pid, g')) ∧
      (io.fail .spawnCrun ≠ none → ∃ e, exec (start io id) g = (.error e, g)) := by
  simp only [start, exec_bind, exec_get, failIf, if_neg (not_not.mpr hid), exec_pure, Io.checkWith, Io.checkAs]
  constructor
  · intro h
    simp only [h, exec_pure, exec_modify]
    exact ⟨_, rfl⟩
  · intro h
    obtain ⟨t, ht⟩ := Option.ne_none_iff_exists'.mp h
    simp only [ht, exec_throw]
    exact ⟨_, rfl⟩

/-- A `run` that fails leaves the four maps as they were. -/
def RunAtomic (io : Io) (req : CreateRequest) (g : Guest) : Prop :=
  ∀ e g', exec (run io req) g = (.error e, g') → g'.mgr = g.mgr

/-- **RunContainer is atomic** if and only if it does not come to the disks of its volumes, or can write the config
or takes no disk, and can spawn its child or takes no disk and finds its container created. -/
theorem run_atomic_iff (io : Io) (req : CreateRequest) (g : Guest) : RunAtomic io req g ↔
    (bundleReady io req g → (io.fail .writeSpec ≠ none → ¬ takesDisk io req g) ∧
      (io.fail .writeSpec = none → io.fail .spawnCrun ≠ none → ¬ takesDisk io req g ∧
        g.mgr.containers.lookup req.containerId = some ⟨some agentPid, none, .created⟩)) := by
  obtain ⟨hnot, hready⟩ : (¬ bundleReady io req g → ∃ e g', exec (create io req) g = (.error e, g') ∧ _) ∧ _ :=
    create_outcome req g
  -- a `create` that fails is the whole `run`
  have hfailed : ∀ {e g₁}, exec (create io req) g = (.error e, g₁) → (RunAtomic io req g ↔ g₁.mgr = g.mgr) := by
    intro e g₁ hc
    have hrun : exec (run io req) g = (.error e, g₁) := by
      rw [run, exec_bind, hc]
    refine ⟨fun h => h e g₁ hrun, fun hm e' g' hr => ?_⟩
    obtain ⟨-, rfl⟩ := Prod.mk.inj (hrun.symm.trans hr)
    exact hm
  by_cases hb : bundleReady io req g
  · obtain ⟨ks, hks, hwfail, hwok⟩ := hready hb
    simp only [hb, true_imp_iff]
    by_cases hw : io.fail .writeSpec = none
    · obtain ⟨g₁, hc, hm⟩ := hwok hw
      simp only [hw, ne_eq, not_true_eq_false, false_imp_iff, true_and, true_imp_iff]
      have hin : req.containerId ∈ g₁.mgr.containers := by
        rw [hm]
        exact Finmap.mem_insert.mpr (.inl rfl)
      have hrun : exec (run io req) g = exec (start io req.containerId) g₁ := by
        rw [run, exec_bind, hc]
      obtain ⟨hok, herr⟩ : (io.fail .spawnCrun = none → ∃ g', exec (start io req.containerId) g₁ = (.ok io.pid, g')) ∧ _ :=
        start_outcome hin
      by_cases hspawn : io.fail .spawnCrun = none
      · obtain ⟨g₂, hg₂⟩ := hok hspawn
        refine iff_of_true (fun e g' hr => ?_) fun h => absurd hspawn h
        rw [hrun, hg₂] at hr
        cases hr
      · obtain ⟨e, he⟩ := herr hspawn
        have hatom : RunAtomic io req g ↔ g₁.mgr = g.mgr := by
          refine ⟨fun h => h e g₁ (hrun.trans he), fun hm' e' g' hr => ?_⟩
          obtain ⟨-, rfl⟩ := Prod.mk.inj ((hrun.trans he).symm.trans hr)
          exact hm'
        rw [hatom, hm, ← hks]
        simp only [hspawn, not_false_eq_true, true_imp_iff]
        constructor
        · intro h
          refine ⟨congrArg ContainerManager.knownDisks h, ?_⟩
          have hins : g.mgr.containers.insert req.containerId ⟨some agentPid, none, .created⟩ = g.mgr.containers :=
            congrArg ContainerManager.containers h
          rw [← hins, Finmap.lookup_insert]
        · rintro ⟨rfl, hl⟩
          have hins : g.mgr.containers.insert req.containerId ⟨some agentPid, none, .created⟩ = g.mgr.containers := by
            refine Finmap.ext_lookup fun k => ?_
            rw [Finmap.lookup_insert_eq]
            split
            · next hk => rw [hk, hl]
            · rfl
          rw [hins]
    · obtain ⟨e, g₁, hc, hm⟩ := hwfail hw
      rw [hfailed hc, hm]
      simp only [hw, ne_eq, not_false_eq_true, true_imp_iff, false_imp_iff, and_true]
      rw [← hks]
      refine ⟨fun h => congrArg ContainerManager.knownDisks h, ?_⟩
      rintro rfl
      rfl
  · obtain ⟨e, g₁, hc, hm⟩ := hnot hb
    exact iff_of_true ((hfailed hc).mpr hm) fun h => absurd h hb

end Run

/-- Every call succeeds but the spawning of crun. -/
def noCrun : Io :=
  { Io.ok 10 with
    fail := fun c => if c = .spawnCrun then some "No such file or directory" else none
    known := fun _ h => by rw [if_neg (by decide)] at h; cases h }

/-- crun is not there: the container stays in the table as one that was created. -/
theorem run_leaves_record : ¬ ∀ (disks : List Disk) (x : AgentConf) (io : Io) (req : CreateRequest),
    agent.Reach (fun _ _ => True) (booted disks) x → RunAtomic io req x.shared := by
  intro hall
  have hrun : (exec (run noCrun oneContainer) (Guest.boot twoDisks)).1.toOption = none ∧
      "web" ∈ (exec (run noCrun oneContainer) (Guest.boot twoDisks)).2.mgr.containers := by
    decide +kernel
  rcases hr : exec (run noCrun oneContainer) (Guest.boot twoDisks) with ⟨r, g'⟩
  rw [hr] at hrun
  cases r with
  | ok p => cases hrun.1
  | error e =>
    have hmgr := hall twoDisks (booted twoDisks) noCrun oneContainer .init e g' hr
    have hweb := hrun.2
    rw [hmgr] at hweb
    exact Finmap.notMem_empty hweb

end CloudHv.Agent
