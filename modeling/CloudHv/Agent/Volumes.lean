import CloudHv.Agent.Spec

/-!
# Volumes — where the files of a volume are written and mounted from

`create` writes the inline files of a volume below `/run/containers/<id>/volumes`, into a directory that has the last
piece of the volume's source for its name; a path that could lead out of it is skipped.  `adapt_oci_spec_for_vm`
mounts the volume from its source, or from the source joined with the path of its only file, and does not skip.
-/

namespace CloudHv.Agent

open Method
open Paths (resolve join split isAbsolute names Component)

/-! ### Safe paths -/

/-- What `create` does not skip is relative and has no `..` component. -/
theorem of_not_unsafePath {p : String} (h : unsafePath p = false) : isAbsolute p = false ∧ ".." ∉ split p := by
  simp only [unsafePath, Bool.or_eq_false_iff, beq_eq_false_iff_ne] at h
  obtain ⟨⟨⟨hslash, hup⟩, hdown⟩, hdots⟩ := h
  constructor
  · unfold isAbsolute
    refine decide_eq_false fun hhead => ?_
    obtain ⟨l, hl⟩ := List.head?_eq_some_iff.mp hhead
    rw [hl] at hslash
    cases hslash
  · intro hmem
    rcases Paths.dots_of_mem hmem with hp | hp | hp
    · exact hdots hp
    · rw [isInfix_iff.mpr hp] at hup
      cases hup
    · rw [isInfix_iff.mpr hp] at hdown
      cases hdown

/-! ### The source of a mount -/

theorem volumeEntry_source {v : VolumeInfo} {fsType source : String} {opts : List String} :
    (volumeEntry v fsType source opts).get "source" = some (.str source) := by
  show List.lookup "source" (Json.insertKey "options" _ (Json.insertKey "source" (Json.str source) _)) = _
  rw [Json.lookup_insertKey, if_neg (by decide), Json.lookup_insertKey, if_pos rfl]

/-- A volume whose only file has the name of the destination. -/
def namesDestination (v : VolumeInfo) (f : InlineFileInfo) : Prop :=
  v.inlineFiles = [f] ∧ ∃ n, Paths.fileName v.destination = some n ∧ Paths.fileName f.path = some n

theorem inlineSource_iff {v : VolumeInfo} {f : InlineFileInfo} : inlineSource v = some f ↔ namesDestination v f := by
  unfold inlineSource namesDestination
  split
  · next f' hv =>
    constructor
    · intro h
      by_cases hname : (Paths.fileName v.destination).getD "" ≠ "" ∧
          (Paths.fileName v.destination).getD "" = (Paths.fileName f'.path).getD ""
      · rw [if_pos hname] at h
        obtain rfl : f' = f := Option.some.inj h
        obtain ⟨hne, heq⟩ := hname
        cases hd : Paths.fileName v.destination with
        | none => simp [hd] at hne
        | some n =>
          cases hf : Paths.fileName f'.path with
          | none => simp [hd, hf, Paths.fileName_ne_empty hd] at heq
          | some m => exact ⟨hv, n, rfl, by simpa [hd, hf] using heq.symm⟩
      · rw [if_neg hname] at h
        cases h
    · rintro ⟨hone, n, hd, hf⟩
      obtain rfl : f' = f := by simpa [hv] using hone
      rw [hd, hf]
      exact if_pos ⟨Paths.fileName_ne_empty hd, rfl⟩
  · next hv =>
    constructor
    · exact fun h => nomatch h
    · exact fun h => absurd h.1 (hv f)

/-- The mount of a volume is safe: it is made from the volume's source or from below it, and not from a file that
`create` has skipped. -/
def MountConfined (v : VolumeInfo) : Prop :=
  (∀ dev m, volumeMount v dev = some m → ∃ source, m.get "source" = some (.str source) ∧
    (resolve v.source).Below (resolve source)) ∧
  ∀ f, inlineSource v = some f → unsafePath f.path = false

theorem mountSource_below {v : VolumeInfo} (h : ∀ f, inlineSource v = some f → unsafePath f.path = false) :
    (resolve v.source).Below (resolve (mountSource v)) := by
  unfold mountSource
  cases hf : inlineSource v with
  | none => exact ⟨rfl, List.prefix_refl _, by simp⟩
  | some f =>
    obtain ⟨hrel, hdots⟩ := of_not_unsafePath (h f hf)
    exact Paths.below_join hrel hdots

/-- **A filesystem volume is mounted safely unless its only file has the name of the destination and a path that
`create` skips.** -/
theorem mount_confined_iff (v : VolumeInfo) (hfs : v.isBlock = false) :
    MountConfined v ↔ ¬ ∃ f, namesDestination v f ∧ unsafePath f.path = true := by
  constructor
  · rintro ⟨-, hsafe⟩ ⟨f, hname, hunsafe⟩
    rw [hsafe f (inlineSource_iff.mpr hname)] at hunsafe
    cases hunsafe
  · intro hno
    have hsafe : ∀ f, inlineSource v = some f → unsafePath f.path = false := by
      intro f hf
      by_contra hunsafe
      exact hno ⟨f, inlineSource_iff.mp hf, by simpa using hunsafe⟩
    refine ⟨?_, hsafe⟩
    intro dev m hm
    have hentry : volumeMount v dev = some (volumeEntry v "bind" (mountSource v) ["rbind"]) := if_neg (by simp [hfs])
    obtain rfl : volumeEntry v "bind" (mountSource v) ["rbind"] = m := Option.some.inj (hentry.symm.trans hm)
    exact ⟨_, volumeEntry_source, mountSource_below hsafe⟩

def hostnameVolume (path : String) : VolumeInfo :=
  ⟨"/etc/hostname", "/run/containers/c/volumes/v0", true, false, "", [⟨path, [104], 420⟩]⟩

theorem mount_confined_hostname : (hostnameVolume "hostname").isBlock = false ∧
    MountConfined (hostnameVolume "hostname") := by
  refine ⟨rfl, (mount_confined_iff _ rfl).mpr ?_⟩
  rintro ⟨f, hname, hunsafe⟩
  obtain rfl : ⟨"hostname", [104], 420⟩ = f := by simpa [hostnameVolume] using hname.1
  exact absurd hunsafe (by decide)

/-- The guest's own file, which `create` refuses to write, is what the container gets. -/
theorem mounts_guest_file : ¬ MountConfined (hostnameVolume "/etc/hostname") := by
  intro h
  obtain ⟨source, hsource, hbelow⟩ := h.1 none _ rfl
  have heq : source = "/etc/hostname" := by
    have hget : Json.get (volumeEntry (hostnameVolume "/etc/hostname") "bind"
        (mountSource (hostnameVolume "/etc/hostname")) ["rbind"]) "source" = some (.str "/etc/hostname") :=
      volumeEntry_source
    exact (Json.str.inj (Option.some.inj (hget.symm.trans hsource))).symm
  rw [heq] at hbelow
  exact absurd hbelow (by decide)

/-! ### The directories of the inline files -/

/-- `mount_point.join("volumes")`. -/
def volumesDir (containerId : String) : String := join (mountPoint containerId) "volumes"

/-- `rsplit('/').next()`. -/
def lastSegment (s : String) : String := (split s).getLast?.getD "vol"

def volumeDir (containerId : String) (v : VolumeInfo) : String := join (volumesDir containerId) (lastSegment v.source)

def inlinePath (containerId : String) (v : VolumeInfo) (f : InlineFileInfo) : String :=
  join (volumeDir containerId v) f.path

/-- The volumes that get a directory of their own. -/
def writesInline (v : VolumeInfo) : Bool := !v.isBlock && !v.inlineFiles.isEmpty

/-- The files of a volume that `create` writes. -/
def Writes (io : Io) (v : VolumeInfo) (f : InlineFileInfo) : Prop :=
  .writeInline f ∈ volumeCalls v ∧ io.fail (.writeInline f) = none

/-- Each file is in its volume's directory, that is a directory below `/run/containers/<id>/volumes`, and no two
volumes have the same one. -/
def FilesConfined (io : Io) (containerId : String) (volumes : List VolumeInfo) : Prop :=
  (∀ v ∈ volumes, writesInline v = true →
    (resolve (volumesDir containerId)).Child (resolve (volumeDir containerId v)) ∧
    ∀ f, Writes io v f → (resolve (volumeDir containerId v)).Below (resolve (inlinePath containerId v f)) ∧
      resolve (inlinePath containerId v f) ≠ resolve (volumeDir containerId v)) ∧
  (volumes.filter writesInline).Pairwise fun v v' => resolve (volumeDir containerId v) ≠ resolve (volumeDir containerId v')

section Dirs

variable {io : Io} {containerId : String} {v v' : VolumeInfo}

theorem mountPoint_eq (h : Component containerId) : mountPoint containerId = join "/run/containers" containerId := by
  have hrel : isAbsolute containerId = false := Component.relative h.2
  have hhead : ¬ containerId.toList.head? = some '/' := of_decide_eq_false hrel
  rw [mountPoint, if_neg hhead, join, if_neg (by simp [hrel]), if_neg (by decide)]
  rfl

theorem resolve_volumesDir (h : Component containerId) :
    resolve (volumesDir containerId) = ⟨true, ["run", "containers", containerId, "volumes"]⟩ := by
  have hvolumes : Component "volumes" := ⟨by decide, by decide⟩
  rw [volumesDir, hvolumes.resolve_join, mountPoint_eq h, h.resolve_join]
  rfl

theorem lastSegment_mem (s : String) : lastSegment s ∈ split s := by
  have hne : split s ≠ [] := by simp [split]
  rw [lastSegment, List.getLast?_eq_getLast_of_ne_nil hne]
  exact List.getLast_mem hne

theorem lastSegment_noSlash (s : String) : '/' ∉ (lastSegment s).toList := Paths.slash_not_mem (lastSegment_mem s)

theorem component_of_ordinary {s : String} (h : lastSegment s ∉ ["", ".", ".."]) : Component (lastSegment s) := by
  refine ⟨?_, lastSegment_noSlash s⟩
  simpa using h

theorem resolve_volumeDir (hid : Component containerId) (h : lastSegment v.source ∉ ["", ".", ".."]) :
    resolve (volumeDir containerId v) = ⟨true, ["run", "containers", containerId, "volumes", lastSegment v.source]⟩ := by
  rw [volumeDir, (component_of_ordinary h).resolve_join, resolve_volumesDir hid]
  rfl

/-- A name that is none leads to the directory of all volumes or above it. -/
theorem not_child_of_dots (hid : Component containerId) (h : lastSegment v.source ∈ ["", ".", ".."]) :
    ¬ (resolve (volumesDir containerId)).Child (resolve (volumeDir containerId v)) := by
  rintro ⟨w, -, hw⟩
  rw [volumeDir, Paths.resolve_join_single (lastSegment_noSlash _), resolve_volumesDir hid] at hw
  have hlen : (Paths.down (isAbsolute (volumesDir containerId)) ["run", "containers", containerId, "volumes"]
      (lastSegment v.source)).length = 5 := by
    rw [(Paths.Resolved.mk.inj hw).2]
    rfl
  simp only [List.mem_cons, List.not_mem_nil, or_false] at h
  rcases h with h | h | h
  · rw [h] at hlen
    simp [Paths.down] at hlen
  · rw [h] at hlen
    simp [Paths.down] at hlen
  · rw [h] at hlen
    simp [Paths.down] at hlen

theorem writeInline_mem {f : InlineFileInfo} (h : .writeInline f ∈ volumeCalls v) : unsafePath f.path = false := by
  unfold volumeCalls at h
  split at h
  · simp at h
  · simp only [List.mem_cons, List.mem_flatMap, reduceCtorEq, false_or] at h
    obtain ⟨f', -, hf⟩ := h
    unfold inlineCalls at hf
    split at hf
    · simp at hf
    · next hsafe =>
      have hff : f = f' := by
        split at hf <;> simpa using hf
      rw [hff]
      simpa using hsafe

theorem inlinePath_below {f : InlineFileInfo} (hio : ∀ f, names f.path = [] → io.fail (.writeInline f) ≠ none)
    (h : Writes io v f) : (resolve (volumeDir containerId v)).Below (resolve (inlinePath containerId v f)) ∧
      resolve (inlinePath containerId v f) ≠ resolve (volumeDir containerId v) := by
  obtain ⟨hcall, hok⟩ := h
  obtain ⟨hrel, hdots⟩ := of_not_unsafePath (writeInline_mem hcall)
  refine ⟨Paths.below_join hrel hdots, fun heq => ?_⟩
  -- a path without names is the directory, which cannot be written
  have hnames : names f.path = [] := by
    rw [inlinePath, Paths.resolve_join hrel hdots] at heq
    simpa using congrArg Paths.Resolved.parts heq
  exact hio f hnames hok

/-- The sources of the volumes with inline files end in ordinary names, no two of them in the same one. -/
def OwnNames (volumes : List VolumeInfo) : Prop :=
  (∀ v ∈ volumes, writesInline v = true → lastSegment v.source ∉ ["", ".", ".."]) ∧
  (volumes.filter writesInline).Pairwise fun v v' => lastSegment v.source ≠ lastSegment v'.source

/-- **Inline files are confined exactly when the sources end in ordinary names that differ.**  `hio`: the operating
system does not write a directory. -/
theorem files_confined_iff (io : Io) (hio : ∀ f, names f.path = [] → io.fail (.writeInline f) ≠ none)
    (containerId : String) (hid : Component containerId) (volumes : List VolumeInfo) :
    FilesConfined io containerId volumes ↔ OwnNames volumes := by
  constructor
  · rintro ⟨hdirs, hdiffer⟩
    refine ⟨fun v hv hw hdots => not_child_of_dots hid hdots (hdirs v hv hw).1, hdiffer.imp ?_⟩
    intro v v' hne heq
    exact hne (by rw [volumeDir, volumeDir, heq])
  · rintro ⟨hnames, hdiffer⟩
    have hdir : ∀ v ∈ volumes, writesInline v = true → resolve (volumeDir containerId v) =
        ⟨true, ["run", "containers", containerId, "volumes", lastSegment v.source]⟩ :=
      fun v hv hw => resolve_volumeDir hid (hnames v hv hw)
    refine ⟨fun v hv hw => ⟨⟨lastSegment v.source, ?_, ?_⟩, fun f hf => inlinePath_below hio hf⟩, ?_⟩
    · exact (component_of_ordinary (hnames v hv hw)).1.2.2
    · rw [hdir v hv hw, resolve_volumesDir hid]
      rfl
    · refine hdiffer.imp_of_mem ?_
      intro v v' hv hv' hne heq
      obtain ⟨hmem, hw⟩ := List.mem_filter.mp hv
      obtain ⟨hmem', hw'⟩ := List.mem_filter.mp hv'
      rw [hdir v hmem hw, hdir v' hmem' hw'] at heq
      exact hne (by simpa using heq)

end Dirs

/-- An operating system that refuses to write a directory and nothing else. -/
def refusesDirs : Io :=
  { Io.ok 10 with
    fail := fun
      | .writeInline f => if names f.path = [] then some "Is a directory (os error 21)" else none
      | _ => none
    known := fun _ h => nomatch h }

theorem refusesDirs_fail (f : InlineFileInfo) (h : names f.path = []) : refusesDirs.fail (.writeInline f) ≠ none := by
  simp [refusesDirs, h]

theorem files_confined_hostname : Component "c" ∧ OwnNames [hostnameVolume "hostname"] ∧
    FilesConfined refusesDirs "c" [hostnameVolume "hostname"] := by
  have hid : Component "c" := ⟨by decide, by decide⟩
  have hown : OwnNames [hostnameVolume "hostname"] := by
    refine ⟨?_, by decide⟩
    intro v hv _
    rw [List.mem_singleton.mp hv]
    decide
  exact ⟨hid, hown, (files_confined_iff refusesDirs refusesDirs_fail "c" hid _).mpr hown⟩

def parentVolume : VolumeInfo := ⟨"/etc/app", "/csi/..", false, false, "", [⟨"config.json", [123, 125], 0⟩]⟩

/-- The file is the container's own `config.json`. -/
theorem writes_over_config : resolve (inlinePath "c" parentVolume ⟨"config.json", [123, 125], 0⟩) =
      resolve "/run/containers/c/config.json" ∧ Component "c" ∧ ¬ FilesConfined refusesDirs "c" [parentVolume] := by
  have hid : Component "c" := ⟨by decide, by decide⟩
  refine ⟨by decide, hid, fun h => ?_⟩
  have hchild : Paths.Resolved.Child _ (resolve (volumeDir "c" parentVolume)) :=
    (h.1 parentVolume List.mem_cons_self rfl).1
  exact not_child_of_dots hid (by decide) hchild

end CloudHv.Agent
