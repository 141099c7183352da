import CloudHv.Lib.Json
import CloudHv.Lib.Text
import CloudHv.Daemon.Host

/-!
# Config — the config of a snapshot

`prepare_snapshot` patches the `config.json` of a snapshot for the VM that will be restored from it, and
`strip_kernel_ip` takes the kernel's `ip=` parameters out of a workload snapshot's.  A workload snapshot is taken from
a VM that was itself restored from a patched config, so the patch has to forget the earlier one.
-/

namespace CloudHv.Daemon

open Json (Step Agree edits)

def patchVsock (cid : ℕ) (socket : String) : Json → Json :=
  edits [Json.insert "cid" (.num (toString cid)), Json.insert "socket" (.str socket)]

def patchSerial (console : String) (serial : Json) : Json :=
  if (serial.get "mode").bind Json.asStr = some "File" then Json.insert "file" (.str console) serial else serial

/-- The patch of `prepare_snapshot`.  `socket` and `console` are the two paths as text. -/
def patchConfig (cid : ℕ) (socket console : String) : Json → Json :=
  edits [Json.modify "vsock" (patchVsock cid socket), Json.modify "serial" (patchSerial console)]

def isIpWord (w : String) : Bool := "ip=".toList.isPrefixOf w.toList

def stripIpWords : Json → Json
  | .str s => .str (Text.unwords ((Text.words s).filter (! isIpWord ·)))
  | j => j

/-- `strip_kernel_ip`, on the parsed config. -/
def stripKernelIp : Json → Json := Json.modify "payload" (Json.modify "cmdline" stripIpWords)

/-! ### The patch -/

/-- The places the patch may change; the console's only where the serial port writes to a file. -/
def patchPlaces (c : Json) : List (List Step) :=
  [[.key "vsock", .key "cid"], [.key "vsock", .key "socket"]] ++
    if (c.valueAt [.key "serial", .key "mode"]).bind Json.asStr = some "File" then [[.key "serial", .key "file"]] else []

variable {cid cid' : ℕ} {socket socket' console console' : String} {c j : Json}

theorem patchConfig_eq : patchConfig cid socket console c =
    Json.modify "serial" (patchSerial console) (Json.modify "vsock" (patchVsock cid socket) c) := rfl

theorem patchVsock_agree : Agree [[.key "cid"], [.key "socket"]] j (patchVsock cid socket j) := by
  refine Json.agree_edits fun f hf j => ?_
  simp only [List.mem_cons, List.not_mem_nil, or_false] at hf
  rcases hf with rfl | rfl
  · exact Json.agree_insert.mono (by simp)
  · exact Json.agree_insert.mono (by simp)

theorem patchConfig_agree : Agree (patchPlaces c) c (patchConfig cid socket console c) := by
  rw [patchConfig_eq]
  have hne : patchPlaces c ≠ [] := by simp [patchPlaces]
  have hvsock : Agree (patchPlaces c) c (Json.modify "vsock" (patchVsock cid socket) c) :=
    Json.agree_modify hne (by simp [patchPlaces]) fun v _ => patchVsock_agree
  refine hvsock.trans ?_
  by_cases hmode : (c.valueAt [.key "serial", .key "mode"]).bind Json.asStr = some "File"
  · refine Json.agree_modify (E := [[.key "file"]]) hne (by simp [patchPlaces, hmode]) fun v _ => ?_
    unfold patchSerial
    split
    · exact Json.agree_insert
    · exact Agree.refl _ v
  · refine Json.agree_modify (E := []) hne (by simp) fun v hv => ?_
    -- the serial port is the one of `c`, and writes to no file
    rw [Json.get_modify, if_neg (by decide)] at hv
    have hnot : ¬ (v.get "mode").bind Json.asStr = some "File" := by
      rw [Json.valueAt_key, hv, Option.bind_some, Json.valueAt_key] at hmode
      cases hm : v.get "mode" with
      | none => simp
      | some m => simpa [hm, Json.valueAt] using hmode
    unfold patchSerial
    rw [if_neg hnot]
    exact Agree.refl _ v

theorem patchVsock_values (cid : ℕ) (socket : String) (l : List (String × Json)) :
    (patchVsock cid socket (.obj l)).get "cid" = some (.num (toString cid)) ∧
    (patchVsock cid socket (.obj l)).get "socket" = some (.str socket) := by
  show ((Json.insert "socket" (.str socket) (.obj _)).get "cid" = _) ∧
    (Json.insert "socket" (.str socket) (.obj _)).get "socket" = _
  rw [Json.get_insert, Json.get_insert, if_neg (by decide), if_pos rfl]
  exact ⟨Json.get_insert.trans (if_pos rfl), rfl⟩

/-- A config with a vsock device names, once patched, the CID and the socket of the VM. -/
theorem patchConfig_vsock {l : List (String × Json)} (h : c.get "vsock" = some (.obj l)) :
    (patchConfig cid socket console c).valueAt [.key "vsock", .key "cid"] = some (.num (toString cid)) ∧
    (patchConfig cid socket console c).valueAt [.key "vsock", .key "socket"] = some (.str socket) := by
  have hget : (patchConfig cid socket console c).get "vsock" = some (patchVsock cid socket (.obj l)) := by
    rw [patchConfig_eq, Json.get_modify, if_neg (by decide), Json.get_modify, if_pos rfl, h, Option.map_some]
  obtain ⟨hcid, hsocket⟩ := patchVsock_values cid socket l
  rw [Json.valueAt_key, Json.valueAt_key, hget, Option.bind_some, Option.bind_some, Json.valueAt_key,
    Json.valueAt_key, hcid, hsocket]
  exact ⟨rfl, rfl⟩

/-- A serial port that writes to a file writes, once patched, to the VM's console. -/
theorem patchConfig_serial (h : c.valueAt [.key "serial", .key "mode"] = some (.str "File")) :
    (patchConfig cid socket console c).valueAt [.key "serial", .key "file"] = some (.str console) := by
  rw [Json.valueAt_key] at h
  obtain ⟨serial, hserial, hmode⟩ : ∃ serial, c.get "serial" = some serial ∧
      serial.valueAt [.key "mode"] = some (.str "File") := Option.bind_eq_some_iff.mp h
  rw [Json.valueAt_key] at hmode
  obtain ⟨mode, hget, hfile⟩ : ∃ mode, serial.get "mode" = some mode ∧ mode.valueAt [] = some (.str "File") :=
    Option.bind_eq_some_iff.mp hmode
  obtain rfl : mode = .str "File" := Option.some.inj hfile
  obtain ⟨l, rfl⟩ : ∃ l, serial = .obj l := by
    cases serial with
    | obj l => exact ⟨l, rfl⟩
    | _ => cases hget
  have hpatched : (patchConfig cid socket console c).get "serial" = some (patchSerial console (.obj l)) := by
    rw [patchConfig_eq, Json.get_modify, if_pos rfl, Json.get_modify, if_neg (by decide), hserial, Option.map_some]
  have hname : patchSerial console (.obj l) = Json.insert "file" (.str console) (.obj l) := by
    unfold patchSerial
    rw [hget]
    exact if_pos rfl
  rw [Json.valueAt_key, hpatched, Option.bind_some, hname, Json.valueAt_key, Json.get_insert, if_pos rfl]
  rfl

theorem patchVsock_again : patchVsock cid' socket' ∘ patchVsock cid socket = patchVsock cid' socket' := by
  funext v
  show Json.insert "socket" _ (Json.insert "cid" _ (Json.insert "socket" _ (Json.insert "cid" _ v))) = _
  rw [Json.insert_comm (show "cid" ≠ "socket" by decide), Json.insert_insert, Json.insert_insert]
  rfl

theorem patchSerial_again : patchSerial console' ∘ patchSerial console = patchSerial console' := by
  funext v
  show patchSerial console' (patchSerial console v) = _
  by_cases hmode : (v.get "mode").bind Json.asStr = some "File"
  · have hkeep : ((Json.insert "file" (.str console) v).get "mode").bind Json.asStr = some "File" := by
      cases v with
      | obj l => rwa [Json.get_insert, if_neg (by decide)]
      | _ => exact hmode
    rw [patchSerial, patchSerial, if_pos hmode, if_pos hkeep, Json.insert_insert, patchSerial, if_pos hmode]
  · have hsame : ∀ t, patchSerial t v = v := fun t => if_neg hmode
    rw [hsame, hsame]

/-- The patch forgets an earlier one. -/
theorem patchConfig_patchConfig :
    patchConfig cid' socket' console' (patchConfig cid socket console c) = patchConfig cid' socket' console' c := by
  simp only [patchConfig_eq]
  rw [Json.modify_comm (show "vsock" ≠ "serial" by decide), Json.modify_modify, Json.modify_modify,
    patchSerial_again, patchVsock_again]

/-! ### The kernel command line -/

def cmdline : List Step := [.key "payload", .key "cmdline"]

theorem words_stripIpWords {s : String} : ∃ t, stripIpWords (.str s) = .str t ∧
    Text.words t = (Text.words s).filter (! isIpWord ·) :=
  ⟨_, rfl, Text.words_unwords fun _ hw => Text.isWord_of_mem (List.mem_filter.mp hw).1⟩

theorem stripIpWords_idem (j : Json) : stripIpWords (stripIpWords j) = stripIpWords j := by
  cases j with
  | str s =>
    obtain ⟨t, ht, hwords⟩ := words_stripIpWords (s := s)
    rw [ht, stripIpWords, hwords, List.filter_filter]
    simp only [Bool.and_self]
    exact ht
  | _ => rfl

theorem stripKernelIp_agree : Agree [cmdline] c (stripKernelIp c) :=
  Json.agree_modify (E := [[.key "cmdline"]]) (by simp) (by simp [cmdline]) fun _ _ =>
    Json.agree_modify (E := [[]]) (by simp) (by simp) fun v _ => ⟨fun p hp => absurd List.nil_prefix (hp [] (by simp)),
      fun p hp => absurd List.nil_prefix (hp [] (by simp)).1⟩

theorem stripKernelIp_cmdline : (stripKernelIp c).valueAt cmdline = (c.valueAt cmdline).map stripIpWords := by
  unfold stripKernelIp cmdline
  rw [Json.valueAt_key, Json.valueAt_key, Json.get_modify, if_pos rfl]
  cases hp : c.get "payload" with
  | none => rfl
  | some v =>
    rw [Option.map_some, Option.bind_some, Option.bind_some, Json.valueAt_key, Json.valueAt_key, Json.get_modify,
      if_pos rfl]
    cases v.get "cmdline" <;> rfl

theorem stripKernelIp_idem : stripKernelIp (stripKernelIp c) = stripKernelIp c :=
  Json.modify_idem fun _ => Json.modify_idem stripIpWords_idem

theorem stripKernelIp_patchConfig :
    stripKernelIp (patchConfig cid socket console c) = patchConfig cid socket console (stripKernelIp c) := by
  simp only [patchConfig_eq, stripKernelIp]
  rw [Json.modify_comm (show "payload" ≠ "serial" by decide),
    Json.modify_comm (show "payload" ≠ "vsock" by decide)]

/-- **Snapshot configs can be prepared again**: the patch changes the VM's own places only, names the VM there and
forgets an earlier patch; the strip takes the `ip=` words out of the command line and nothing else, once and for all, before or after a
patch. -/
theorem config_reprepared (c : Json) (cid cid' : ℕ) (socket socket' console console' : String) :
    Agree (patchPlaces c) c (patchConfig cid socket console c) ∧
    (∀ l, c.get "vsock" = some (.obj l) →
      (patchConfig cid socket console c).valueAt [.key "vsock", .key "cid"] = some (.num (toString cid)) ∧
      (patchConfig cid socket console c).valueAt [.key "vsock", .key "socket"] = some (.str socket)) ∧
    (c.valueAt [.key "serial", .key "mode"] = some (.str "File") →
      (patchConfig cid socket console c).valueAt [.key "serial", .key "file"] = some (.str console)) ∧
    patchConfig cid' socket' console' (patchConfig cid socket console c) = patchConfig cid' socket' console' c ∧
    (∀ s, c.valueAt cmdline = some (.str s) → ∃ t, (stripKernelIp c).valueAt cmdline = some (.str t) ∧
      Text.words t = (Text.words s).filter (! isIpWord ·)) ∧
    ((c.valueAt cmdline).bind Json.asStr = none → (stripKernelIp c).valueAt cmdline = c.valueAt cmdline) ∧
    Agree [cmdline] c (stripKernelIp c) ∧
    stripKernelIp (stripKernelIp c) = stripKernelIp c ∧
    stripKernelIp (patchConfig cid socket console c) = patchConfig cid socket console (stripKernelIp c) := by
  refine ⟨patchConfig_agree, fun _ h => patchConfig_vsock h, patchConfig_serial, patchConfig_patchConfig, ?_, ?_,
    stripKernelIp_agree, stripKernelIp_idem, stripKernelIp_patchConfig⟩
  · intro s hs
    obtain ⟨t, ht, hwords⟩ := words_stripIpWords (s := s)
    exact ⟨t, by rw [stripKernelIp_cmdline, hs, Option.map_some, ht], hwords⟩
  · intro hnone
    rw [stripKernelIp_cmdline]
    cases hv : c.valueAt cmdline with
    | none => rfl
    | some v =>
      rw [hv, Option.bind_some] at hnone
      cases v with
      | str s => cases hnone
      | _ => rfl

end CloudHv.Daemon
