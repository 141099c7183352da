import CloudHv.Lib.Json
import CloudHv.Lib.Paths
import CloudHv.Agent.Atomic

/-!
# Spec — the OCI spec of a container

`adapt_oci_spec_for_vm` rewrites the `config.json` that was made for the host: it takes out what refers to the host,
keeps a mount and a PID namespace, and replaces the host's mounts by four system mounts and the container's volumes.
-/

namespace CloudHv.Agent

open Method
open Json (Step Agree edits)

/-! ### The mounts -/

def strings (l : List String) : Json := .arr (l.map .str)

def systemMounts : List Json :=
  [.object [("destination", .str "/proc"), ("type", .str "proc"), ("source", .str "proc")],
   .object [("destination", .str "/dev"), ("type", .str "tmpfs"), ("source", .str "tmpfs"),
    ("options", strings ["nosuid", "strictatime", "mode=755", "size=65536k"])],
   .object [("destination", .str "/dev/pts"), ("type", .str "devpts"), ("source", .str "devpts"),
    ("options", strings ["nosuid", "noexec", "newinstance", "ptmxmode=0666", "mode=0620"])],
   .object [("destination", .str "/sys"), ("type", .str "sysfs"), ("source", .str "sysfs"),
    ("options", strings ["nosuid", "noexec", "nodev", "ro"])]]

def volumeEntry (v : VolumeInfo) (fsType source : String) (opts : List String) : Json :=
  .object [("destination", .str v.destination), ("type", .str fsType), ("source", .str source),
    ("options", strings (opts ++ if v.readonly then ["ro"] else []))]

/-- The inline file that is itself the source of the mount: the only one of its volume, with the name of the
destination. -/
def inlineSource (v : VolumeInfo) : Option InlineFileInfo :=
  match v.inlineFiles with
  | [f] =>
    let destBasename := (Paths.fileName v.destination).getD ""
    let fileBasename := (Paths.fileName f.path).getD ""
    if destBasename ≠ "" ∧ destBasename = fileBasename then some f else none
  | _ => none

def mountSource (v : VolumeInfo) : String :=
  match inlineSource v with
  | some f => Paths.join v.source f.path
  | none => v.source

/-- The entry of a volume; none for a block volume without a device. -/
def volumeMount (v : VolumeInfo) (dev : Option String) : Option Json :=
  if v.isBlock then dev.map fun d => volumeEntry v v.fsType d []
  else some (volumeEntry v "bind" (mountSource v) ["rbind"])

def volumeMounts (io : Io) : List VolumeInfo → GuestM (List Json)
  | [] => pure []
  | v :: vs => do
    let dev ← volumeDevice io v
    let rest ← volumeMounts io vs
    pure ((volumeMount v dev).toList ++ rest)

/-! ### The rewrite -/

def hostLinuxKeys : List String := ["cgroupsPath", "maskedPaths", "readonlyPaths", "resources", "seccomp"]

def hostProcessKeys : List String := ["apparmorProfile", "selinuxLabel", "oomScoreAdj"]

def namespaces : Json := .arr [.object [("type", .str "mount")], .object [("type", .str "pid")]]

def rewriteLinux : Json → Json := edits (Json.insert "namespaces" namespaces :: hostLinuxKeys.map Json.remove)

def rewriteProcess : Json → Json := edits (hostProcessKeys.map Json.remove)

def rewriteSpec (mounts : List Json) : Json → Json :=
  edits [Json.modify "linux" rewriteLinux, Json.remove "hostname", Json.insert "mounts" (.arr mounts),
    Json.modify "process" rewriteProcess]

/-- `adapt_oci_spec_for_vm` on the parsed spec. -/
def adaptSpec (io : Io) (volumes : List VolumeInfo) (spec : Json) : GuestM Json := do
  let mounts ← volumeMounts io volumes
  pure (rewriteSpec (systemMounts ++ mounts) spec)

/-- The loop over the volumes has the effects of the one that only takes the disks. -/
theorem volumeMounts_takeDisks (io : Io) (vs : List VolumeInfo) :
    (volumeMounts io vs >>= fun _ => pure ⟨⟩) = takeDisks io vs := by
  induction vs with
  | nil => rfl
  | cons v vs ih =>
    have hcons : takeDisks io (v :: vs) = (volumeDevice io v >>= fun _ => pure PUnit.unit) >>=
      fun _ => takeDisks io vs := rfl
    rw [hcons, ← ih]
    simp only [volumeMounts, bind_assoc, pure_bind]

/-- The rewrite has the effects of the method that reads and writes the file. -/
theorem adaptOciSpecForVm_eq (io : Io) (bundle : String) (volumes : List VolumeInfo) (spec : Json) :
    adaptOciSpecForVm io bundle volumes = (do
      io.checkWith .readSpec ("failed to read " ++ bundle ++ "/config.json")
      io.checkWith .parseSpec "failed to parse config.json"
      let _ ← adaptSpec io volumes spec
      io.checkWith .writeSpec ("failed to write " ++ bundle ++ "/config.json")) := by
  have hunfold : adaptOciSpecForVm io bundle volumes = (do
      io.checkWith .readSpec ("failed to read " ++ bundle ++ "/config.json")
      io.checkWith .parseSpec "failed to parse config.json"
      takeDisks io volumes
      io.checkWith .writeSpec ("failed to write " ++ bundle ++ "/config.json")) := rfl
  rw [hunfold, ← volumeMounts_takeDisks]
  simp only [adaptSpec, bind_assoc, pure_bind]

/-! ### What the rewrite changes -/

/-- The places of the rewrite; those of `linux` only when that is an object. -/
def adaptedPlaces (spec : Json) : List (List Step) :=
  [[.key "mounts"], [.key "hostname"]] ++
    (["apparmorProfile", "selinuxLabel", "oomScoreAdj"].map fun k => [.key "process", .key k]) ++
    match spec.get "linux" with
    | some (.obj _) =>
      ["namespaces", "cgroupsPath", "maskedPaths", "readonlyPaths", "resources", "seccomp"].map fun k =>
        [.key "linux", .key k]
    | _ => []

variable {spec : Json} {mounts : List Json}

theorem rewriteSpec_eq : rewriteSpec mounts spec = Json.modify "process" rewriteProcess
    (Json.insert "mounts" (.arr mounts) (Json.remove "hostname" (Json.modify "linux" rewriteLinux spec))) := rfl

theorem agree_removes (ks : List String) (j : Json) :
    Agree (ks.map fun k => [.key k]) j (edits (ks.map Json.remove) j) := by
  refine Json.agree_edits fun f hf j => ?_
  obtain ⟨k, hk, rfl⟩ := List.mem_map.mp hf
  refine Json.agree_remove.mono fun e he => ?_
  rw [List.mem_singleton.mp he]
  exact List.mem_map_of_mem hk

theorem rewriteLinux_agree (j : Json) :
    Agree (("namespaces" :: hostLinuxKeys).map fun k => [.key k]) j (rewriteLinux j) := by
  have hins : Agree (("namespaces" :: hostLinuxKeys).map fun k => [Step.key k]) j (Json.insert "namespaces" namespaces j) :=
    Json.agree_insert.mono (by simp)
  exact hins.trans ((agree_removes hostLinuxKeys _).mono (List.map_subset _ (List.subset_cons_self _ _)))

theorem onFields_of_not_obj {f : List (String × Json) → List (String × Json)} {j : Json} (h : ∀ l, j ≠ .obj l) :
    Json.onFields f j = j := by
  cases j with
  | obj l => exact absurd rfl (h l)
  | _ => rfl

theorem edits_of_not_obj (fs : List (List (String × Json) → List (String × Json))) {j : Json} (h : ∀ l, j ≠ .obj l) :
    edits (fs.map Json.onFields) j = j := by
  refine Json.edits_fixed fun f hf => ?_
  obtain ⟨f, -, rfl⟩ := List.mem_map.mp hf
  exact onFields_of_not_obj h

theorem rewriteLinux_of_not_obj {j : Json} (h : ∀ l, j ≠ .obj l) : rewriteLinux j = j :=
  edits_of_not_obj (Json.insertKey "namespaces" namespaces :: hostLinuxKeys.map Json.removeKey) h

theorem rewriteSpec_agree : Agree (adaptedPlaces spec) spec (rewriteSpec mounts spec) := by
  have hne : adaptedPlaces spec ≠ [] := by simp [adaptedPlaces]
  have hlinux : Agree (adaptedPlaces spec) spec (Json.modify "linux" rewriteLinux spec) := by
    cases hl : spec.get "linux" with
    | none => exact Json.agree_modify (E := []) hne (by simp) fun v hv => by rw [hl] at hv; cases hv
    | some v =>
      by_cases hobj : ∃ l, v = .obj l
      · obtain ⟨l, rfl⟩ := hobj
        refine Json.agree_modify hne ?_ fun v _ => rewriteLinux_agree v
        intro e he
        simp only [adaptedPlaces, hl]
        refine List.mem_append_right _ ?_
        simpa [hostLinuxKeys, eq_comm] using he
      · refine Json.agree_modify (E := []) hne (by simp) fun u hu => ?_
        have huv : u = v := Option.some.inj (hu.symm.trans hl)
        have hno : ∀ l, u ≠ .obj l := fun l h => hobj ⟨l, huv ▸ h⟩
        rw [rewriteLinux_of_not_obj hno]
        exact Agree.refl _ u
  have hhostname : ∀ j, Agree (adaptedPlaces spec) j (Json.remove "hostname" j) := fun j =>
    Json.agree_remove.mono (by simp [adaptedPlaces])
  have hmounts : ∀ j, Agree (adaptedPlaces spec) j (Json.insert "mounts" (.arr mounts) j) := fun j =>
    Json.agree_insert.mono (by simp [adaptedPlaces])
  have hprocess : ∀ j, Agree (adaptedPlaces spec) j (Json.modify "process" rewriteProcess j) := by
    intro j
    refine Json.agree_modify hne ?_ fun v _ => agree_removes hostProcessKeys v
    intro e he
    refine List.mem_append_left _ (List.mem_append_right _ ?_)
    simpa [hostProcessKeys, eq_comm] using he
  rw [rewriteSpec_eq]
  exact hlinux.trans ((hhostname _).trans ((hmounts _).trans (hprocess _)))

theorem get_removes {k : String} {ks : List String} {j : Json} :
    (edits (ks.map Json.remove) j).get k = if k ∈ ks then none else j.get k := by
  induction ks generalizing j with
  | nil => simp [edits]
  | cons q ks ih =>
    show (edits (ks.map Json.remove) (Json.remove q j)).get k = _
    rw [ih, Json.get_remove]
    by_cases hk : k ∈ ks
    · rw [if_pos hk, if_pos (List.mem_cons_of_mem q hk)]
    · by_cases hq : k = q
      · rw [if_neg hk, if_pos hq, if_pos (hq ▸ List.mem_cons_self)]
      · rw [if_neg hk, if_neg hq, if_neg (by simp [hk, hq])]

/-- What the rewritten spec has under a key. -/
theorem get_rewriteSpec {k : String} {l : List (String × Json)} : (rewriteSpec mounts (.obj l)).get k =
    if k = "mounts" then some (.arr mounts) else if k = "hostname" then none
    else if k = "linux" then (l.lookup k).map rewriteLinux
    else if k = "process" then (l.lookup k).map rewriteProcess else l.lookup k := by
  rw [rewriteSpec_eq, Json.get_modify]
  have hins : (Json.insert "mounts" (.arr mounts) (Json.remove "hostname" (Json.modify "linux" rewriteLinux (.obj l)))).get k =
      if k = "mounts" then some (.arr mounts) else
        (Json.remove "hostname" (Json.modify "linux" rewriteLinux (.obj l))).get k := Json.get_insert
  rw [hins, Json.get_remove, Json.get_modify]
  by_cases hm : k = "mounts"
  · subst hm
    rfl
  · by_cases hh : k = "hostname"
    · subst hh
      rfl
    · by_cases hl : k = "linux"
      · subst hl
        rfl
      · simp only [if_neg hm, if_neg hh, if_neg hl]
        rfl

theorem get_rewriteLinux {l : List (String × Json)} : (rewriteLinux (.obj l)).get "namespaces" = some namespaces := by
  show (edits (hostLinuxKeys.map Json.remove) (Json.insert "namespaces" namespaces (.obj l))).get "namespaces" = _
  rw [get_removes, if_neg (by decide), Json.get_insert, if_pos rfl]

theorem get_rewriteLinux_removed {j : Json} : ∀ k ∈ hostLinuxKeys, (rewriteLinux j).get k = none := by
  intro k hk
  show (edits (hostLinuxKeys.map Json.remove) (Json.insert "namespaces" namespaces j)).get k = none
  rw [get_removes, if_pos hk]

theorem get_rewriteProcess_removed {j : Json} : ∀ k ∈ hostProcessKeys, (rewriteProcess j).get k = none := by
  intro k hk
  rw [rewriteProcess, get_removes, if_pos hk]

/-! ### The rewrite done again -/

theorem rewriteLinux_idem (j : Json) : rewriteLinux (rewriteLinux j) = rewriteLinux j := by
  refine Json.edits_idem ?_ ?_
  · intro f hf j
    rcases List.mem_cons.mp hf with rfl | hf
    · exact Json.insert_insert
    · obtain ⟨k, -, rfl⟩ := List.mem_map.mp hf
      exact Json.remove_remove
  · refine List.pairwise_cons.mpr ⟨?_, ?_⟩
    · intro f hf
      obtain ⟨k, hk, rfl⟩ := List.mem_map.mp hf
      refine Json.kept_insert_remove ?_
      rintro rfl
      exact absurd hk (by decide)
    · exact List.pairwise_map.mpr (List.pairwise_of_forall fun _ _ => Json.kept_remove_remove)

theorem rewriteProcess_idem (j : Json) : rewriteProcess (rewriteProcess j) = rewriteProcess j := by
  refine Json.edits_idem ?_ (List.pairwise_map.mpr (List.pairwise_of_forall fun _ _ => Json.kept_remove_remove))
  intro f hf j
  obtain ⟨k, -, rfl⟩ := List.mem_map.mp hf
  exact Json.remove_remove

theorem rewriteSpec_idem : rewriteSpec mounts (rewriteSpec mounts spec) = rewriteSpec mounts spec := by
  refine Json.edits_idem ?_ ?_
  · intro f hf j
    simp only [List.mem_cons, List.not_mem_nil, or_false] at hf
    rcases hf with rfl | rfl | rfl | rfl
    · exact Json.modify_idem rewriteLinux_idem
    · exact Json.remove_remove
    · exact Json.insert_insert
    · exact Json.modify_idem rewriteProcess_idem
  · have hlinux : ∀ f ∈ [Json.remove "hostname", Json.insert "mounts" (.arr mounts), Json.modify "process" rewriteProcess],
        Json.Kept (Json.modify "linux" rewriteLinux) f := by
      simp only [List.forall_mem_cons, List.not_mem_nil, false_imp_iff, implies_true, and_true]
      exact ⟨Json.kept_modify_remove, Json.kept_modify_insert (by decide), Json.kept_modify_modify (by decide)⟩
    have hhostname : ∀ f ∈ [Json.insert "mounts" (.arr mounts), Json.modify "process" rewriteProcess],
        Json.Kept (Json.remove "hostname") f := by
      simp only [List.forall_mem_cons, List.not_mem_nil, false_imp_iff, implies_true, and_true]
      exact ⟨Json.kept_remove_insert (by decide), Json.kept_remove_modify⟩
    have hmounts : ∀ f ∈ [Json.modify "process" rewriteProcess], Json.Kept (Json.insert "mounts" (.arr mounts)) f := by
      simp only [List.forall_mem_cons, List.not_mem_nil, false_imp_iff, implies_true, and_true]
      exact Json.kept_insert_modify (by decide)
    exact .cons hlinux (.cons hhostname (.cons hmounts (List.pairwise_singleton _ _)))

/-! ### The mounts of a run -/

/-- The value is a mount of an OCI spec with this and nothing else in it. -/
structure IsMount (m : Json) (destination fsType source : String) (options : Option (List String)) : Prop where
  destination : m.get "destination" = some (.str destination)
  fsType : m.get "type" = some (.str fsType)
  source : m.get "source" = some (.str source)
  options : m.get "options" = options.map fun l => .arr (l.map .str)
  only : ∀ k ∉ ["destination", "type", "source", "options"], m.get k = none

/-- The volume has one file only, and the file has the name of the destination. -/
def NamesFile (v : VolumeInfo) (f : InlineFileInfo) : Prop :=
  v.inlineFiles = [f] ∧ ∃ n, n ≠ "" ∧ Paths.fileName v.destination = some n ∧ Paths.fileName f.path = some n

def readonlyOption (v : VolumeInfo) : List String := if v.readonly = true then ["ro"] else []

/-- The mounts of the volumes of a container, one after the other.  A filesystem volume is bound from its directory, or
from its file when the destination is one; a block volume is mounted from a disk that is new in the guest, which is
known from then on. -/
inductive Mounted (io : Io) : Guest → List VolumeInfo → List Json → Guest → Prop
  | done (g : Guest) : Mounted io g [] [] g
  | directory {g g' : Guest} {v : VolumeInfo} {vs : List VolumeInfo} {m : Json} {ms : List Json}
      (hv : v.isBlock = false) (hf : ∀ f, ¬NamesFile v f)
      (hm : IsMount m v.destination "bind" v.source (some ("rbind" :: readonlyOption v)))
      (h : Mounted io g vs ms g') : Mounted io g (v :: vs) (m :: ms) g'
  | file {g g' : Guest} {v : VolumeInfo} {vs : List VolumeInfo} {m : Json} {ms : List Json} {f : InlineFileInfo}
      (hv : v.isBlock = false) (hf : NamesFile v f)
      (hm : IsMount m v.destination "bind" (Paths.join v.source f.path) (some ("rbind" :: readonlyOption v)))
      (h : Mounted io g vs ms g') : Mounted io g (v :: vs) (m :: ms) g'
  | disk {g g' : Guest} {v : VolumeInfo} {vs : List VolumeInfo} {m : Json} {ms : List Json} {dev : String}
      (hv : v.isBlock = true) (hp : io.pick g.newDevices = some dev) (hd : dev ∈ g.newDevices)
      (hm : IsMount m v.destination v.fsType ("/dev/" ++ dev) (some (readonlyOption v)))
      (h : Mounted io (g.withDisk dev) vs ms g') : Mounted io g (v :: vs) (m :: ms) g'
  | notFound {g g' : Guest} {v : VolumeInfo} {vs : List VolumeInfo} {ms : List Json}
      (hv : v.isBlock = true) (hno : ∀ dev ∈ g.newDevices, io.pick g.newDevices ≠ some dev)
      (h : Mounted io g vs ms g') : Mounted io g (v :: vs) ms g'

/-- The mounts that every container has. -/
def IsSystemMounts (ms : List Json) : Prop :=
  ∃ proc dev pts sys, ms = [proc, dev, pts, sys] ∧ IsMount proc "/proc" "proc" "proc" none ∧
    IsMount dev "/dev" "tmpfs" "tmpfs" (some ["nosuid", "strictatime", "mode=755", "size=65536k"]) ∧
    IsMount pts "/dev/pts" "devpts" "devpts" (some ["nosuid", "noexec", "newinstance", "ptmxmode=0666", "mode=0620"]) ∧
    IsMount sys "/sys" "sysfs" "sysfs" (some ["nosuid", "noexec", "nodev", "ro"])

/-- An entry with the four keys of a mount. -/
theorem isMount_object (destination fsType source : String) (options : List String) :
    IsMount (.object [("destination", .str destination), ("type", .str fsType), ("source", .str source),
      ("options", strings options)]) destination fsType source (some options) := by
  refine ⟨?_, ?_, ?_, ?_, fun k hk => ?_⟩
  all_goals simp only [Json.object, Json.get, List.foldl_cons, List.foldl_nil, Json.lookup_insertKey]
  · simp
  · simp
  · simp
  · simp [strings]
  · simp only [List.mem_cons, List.not_mem_nil, or_false, not_or] at hk
    obtain ⟨hd, ht, hs, ho⟩ := hk
    simp [hd, ht, hs, ho]

theorem systemMounts_are : IsSystemMounts systemMounts := by
  refine ⟨_, _, _, _, rfl, ?_, isMount_object _ _ _ _, isMount_object _ _ _ _, isMount_object _ _ _ _⟩
  refine ⟨rfl, rfl, rfl, rfl, fun k hk => ?_⟩
  simp only [List.mem_cons, List.not_mem_nil, or_false, not_or] at hk
  obtain ⟨hd, ht, hs, -⟩ := hk
  simp only [Json.object, Json.get, List.foldl_cons, List.foldl_nil, Json.lookup_insertKey]
  simp [hd, ht, hs]

theorem volumeEntry_is (v : VolumeInfo) (fsType source : String) (opts : List String) :
    IsMount (volumeEntry v fsType source opts) v.destination fsType source (some (opts ++ readonlyOption v)) :=
  isMount_object _ _ _ _

/-- What a filesystem volume is bound from. -/
theorem mountSource_cases (v : VolumeInfo) :
    ((∀ f, ¬NamesFile v f) ∧ mountSource v = v.source) ∨ ∃ f, NamesFile v f ∧ mountSource v = Paths.join v.source f.path := by
  have hother : (∀ f, v.inlineFiles ≠ [f]) → ∀ f, ¬NamesFile v f := fun h f hf => h f hf.1
  rcases hfiles : v.inlineFiles with _ | ⟨f, _ | ⟨f', fs⟩⟩
  · exact .inl ⟨hother (by simp [hfiles]), by simp only [mountSource, inlineSource, hfiles]⟩
  · by_cases hn : (Paths.fileName v.destination).getD "" ≠ "" ∧
        (Paths.fileName v.destination).getD "" = (Paths.fileName f.path).getD ""
    · refine .inr ⟨f, ⟨hfiles, (Paths.fileName v.destination).getD "", hn.1, ?_, ?_⟩, ?_⟩
      · cases hd : Paths.fileName v.destination with
        | none => exact absurd (by rw [hd]; rfl) hn.1
        | some n => rfl
      · cases hp : Paths.fileName f.path with
        | none => exact absurd (by rw [hn.2, hp]; rfl) hn.1
        | some n => rw [hn.2, hp]; rfl
      · simp only [mountSource, inlineSource, hfiles, if_pos hn]
    · refine .inl ⟨?_, by simp only [mountSource, inlineSource, hfiles, if_neg hn]⟩
      rintro f' ⟨hf, n, hne, hd, hp⟩
      rw [hfiles] at hf
      obtain rfl : f = f' := List.head_eq_of_cons_eq hf
      exact hn ⟨by rw [hd]; exact hne, by rw [hd, hp]⟩
  · exact .inl ⟨hother (by simp [hfiles]), by simp only [mountSource, inlineSource, hfiles]⟩

/-- The loop over the volumes makes their mounts. -/
theorem volumeMounts_spec (io : Io) (vs : List VolumeInfo) (g : Guest) : ∃ ms g',
    exec (volumeMounts io vs) g = (.ok ms, g') ∧ Mounted io g vs ms g' := by
  induction vs generalizing g with
  | nil => exact ⟨[], g, rfl, .done g⟩
  | cons v vs ih =>
    -- the entry that the volume adds after its device is known
    have hcons : ∀ {d : Option String} {g₁ g' : Guest} {ms : List Json},
        exec (volumeDevice io v) g = (.ok d, g₁) → exec (volumeMounts io vs) g₁ = (.ok ms, g') →
        exec (volumeMounts io (v :: vs)) g = (.ok ((volumeMount v d).toList ++ ms), g') := by
      intro d g₁ g' ms hd hrest
      rw [volumeMounts, exec_bind, hd]
      simp only
      rw [exec_bind, hrest]
      rfl
    by_cases hb : v.isBlock = true
    · have hdev : volumeDevice io v = discoverBlockDevice io := if_pos hb
      by_cases hf : g.finds io = true
      · obtain ⟨dev, hp, hd⟩ := exists_of_finds hf
        obtain ⟨ms, g', hms, hmounted⟩ := ih (g.withDisk dev)
        have hm : volumeMount v (some ("/dev/" ++ dev)) = some (volumeEntry v v.fsType ("/dev/" ++ dev) []) := if_pos hb
        refine ⟨_, g', hcons (hdev ▸ discover_found hp hd) hms, ?_⟩
        rw [hm]
        exact .disk hb hp hd (volumeEntry_is v v.fsType ("/dev/" ++ dev) []) hmounted
      · rw [Bool.not_eq_true] at hf
        obtain ⟨ms, g', hms, hmounted⟩ := ih g
        have hm : volumeMount v none = none := if_pos hb
        refine ⟨_, g', hcons (hdev ▸ discover_none hf) hms, ?_⟩
        rw [hm]
        refine .notFound hb (fun dev hd hp => ?_) hmounted
        rw [Guest.finds, hp] at hf
        exact of_decide_eq_false hf hd
    · have hdev : volumeDevice io v = pure none := if_neg hb
      obtain ⟨ms, g', hms, hmounted⟩ := ih g
      have hm : volumeMount v none = some (volumeEntry v "bind" (mountSource v) ["rbind"]) := if_neg hb
      have hnone : exec (volumeDevice io v) g = (.ok none, g) := by
        rw [hdev]
        rfl
      refine ⟨_, g', hcons hnone hms, ?_⟩
      rw [Bool.not_eq_true] at hb
      rw [hm]
      rcases mountSource_cases v with ⟨hno, hs⟩ | ⟨f, hf, hs⟩
      · exact .directory hb hno (hs ▸ volumeEntry_is v "bind" (mountSource v) ["rbind"]) hmounted
      · exact .file hb hf (hs ▸ volumeEntry_is v "bind" (mountSource v) ["rbind"]) hmounted

/-- Without block volumes nothing depends on the guest, and nothing of it changes. -/
theorem volumeMounts_noBlock {io : Io} {vs : List VolumeInfo} (h : ∀ v ∈ vs, v.isBlock = false) (g : Guest) :
    exec (volumeMounts io vs) g = (.ok (vs.map fun v => volumeEntry v "bind" (mountSource v) ["rbind"]), g) := by
  induction vs with
  | nil => rfl
  | cons v vs ih =>
    have hv : v.isBlock = false := h v List.mem_cons_self
    have hd : volumeDevice io v = pure none := if_neg (by simp [hv])
    have hm : volumeMount v none = some (volumeEntry v "bind" (mountSource v) ["rbind"]) := if_neg (by simp [hv])
    rw [volumeMounts, hd, pure_bind, exec_bind, ih fun u hu => h u (List.mem_cons_of_mem v hu)]
    simp only [exec_pure, hm, Option.toList_some, List.map_cons]
    rfl

/-- **The rewrite of a spec**: it changes its places only; the namespaces are the two of the container, what refers to
the host is gone, and the mounts are the system's and the volumes'.  Without block volumes a second rewrite, by
whatever guest, changes nothing. -/
theorem spec_adapted (io : Io) (volumes : List VolumeInfo) (l : List (String × Json)) (g : Guest) :
    ∃ spec' sys ms g', exec (adaptSpec io volumes (.obj l)) g = (.ok spec', g') ∧
      Agree (adaptedPlaces (.obj l)) (.obj l) spec' ∧
      (∀ linux, l.lookup "linux" = some (.obj linux) →
        spec'.valueAt [.key "linux", .key "namespaces"] =
          some (.arr [.obj [("type", .str "mount")], .obj [("type", .str "pid")]])) ∧
      (∀ k ∈ ["cgroupsPath", "maskedPaths", "readonlyPaths", "resources", "seccomp"],
        spec'.valueAt [.key "linux", .key k] = none) ∧
      (∀ k ∈ ["apparmorProfile", "selinuxLabel", "oomScoreAdj"], spec'.valueAt [.key "process", .key k] = none) ∧
      spec'.valueAt [.key "hostname"] = none ∧
      spec'.valueAt [.key "mounts"] = some (.arr (sys ++ ms)) ∧ IsSystemMounts sys ∧ Mounted io g volumes ms g' ∧
      ((∀ v ∈ volumes, v.isBlock = false) →
        ∀ io' g'', exec (adaptSpec io' volumes spec') g'' = (.ok spec', g'')) := by
  obtain ⟨ms, g', hms, hmounted⟩ := volumeMounts_spec io volumes g
  refine ⟨rewriteSpec (systemMounts ++ ms) (.obj l), systemMounts, ms, g', ?_, rewriteSpec_agree, ?_, ?_, ?_, ?_, ?_,
    systemMounts_are, hmounted, ?_⟩
  · rw [adaptSpec, exec_bind, hms]
    rfl
  · intro linux hl
    rw [Json.valueAt_key, get_rewriteSpec, if_neg (by decide), if_neg (by decide), if_pos rfl, hl, Option.map_some,
      Option.bind_some, Json.valueAt_key, get_rewriteLinux]
    rfl
  · intro k hk
    rw [Json.valueAt_key, get_rewriteSpec, if_neg (by decide), if_neg (by decide), if_pos rfl]
    cases l.lookup "linux" with
    | none => rfl
    | some v => rw [Option.map_some, Option.bind_some, Json.valueAt_key, get_rewriteLinux_removed k hk]; rfl
  · intro k hk
    rw [Json.valueAt_key, get_rewriteSpec, if_neg (by decide), if_neg (by decide), if_neg (by decide), if_pos rfl]
    cases l.lookup "process" with
    | none => rfl
    | some v => rw [Option.map_some, Option.bind_some, Json.valueAt_key, get_rewriteProcess_removed k hk]; rfl
  · rw [Json.valueAt_key, get_rewriteSpec, if_neg (by decide), if_pos rfl]
    rfl
  · rw [Json.valueAt_key, get_rewriteSpec, if_pos rfl]
    rfl
  · intro hno io' g''
    -- both rewrites have the same mounts
    have hfirst : ms = volumes.map fun v => volumeEntry v "bind" (mountSource v) ["rbind"] := by
      rw [volumeMounts_noBlock hno] at hms
      exact (Except.ok.inj (Prod.mk.inj hms).1).symm
    rw [adaptSpec, exec_bind, volumeMounts_noBlock hno, hfirst]
    simp only [exec_pure, rewriteSpec_idem]

end CloudHv.Agent
