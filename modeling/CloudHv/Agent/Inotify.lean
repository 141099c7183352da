import CloudHv.Agent.Container
import CloudHv.Common.Netlink
import CloudHv.Lib.Paths
import CloudHv.Lib.Utf8

/-!
# Inotify — the events of a device directory

The loop of `wait_for_dev_inotify` in `crates/agent/src/container.rs` over what one `read` gives: events of variable
length, each a header of 16 bytes and a name that is filled with NULs.

A name is compared as `to_string_lossy` has it, so a name that is no text can be taken for one with an U+FFFD.  For
every other device name the loop finds the event with the very name, and the agent waits for no name with an U+FFFD
(`event_loop_finds`).  Whatever the bytes are, the loop ends and stays in what was read.
-/

namespace CloudHv.Agent

open Wire Walk Walk.Read Netlink

/-! ### The loop -/

/-- The buffer, and the number of bytes that `read` gave. -/
structure EventBuf where
  buf : List UInt8
  n : ℕ
  size : buf.length = 4096
  fits : n ≤ 4096

def EventBuf.bytes (v : EventBuf) : List UInt8 := v.buf.take v.n

/-- `CStr::from_bytes_until_nul`. -/
def fromBytesUntilNul (bs : List UInt8) : Option (List UInt8) := if 0 ∈ bs then some (cString bs) else none

/-- The name in an event is that of the device. -/
def isDevice (devName : String) (nameBytes : List UInt8) : Bool :=
  match fromBytesUntilNul nameBytes with
  | some name => Utf8.lossy name = devName
  | none => false

def eventRound (o : ByteOrder) (devName : String) (v : EventBuf) (offset : ℕ) : Read (Turn ℕ Bool) :=
  if offset + 16 ≤ v.n then do
    let w ← get v.buf (offset + 12) 4
    let nameLen := value o w
    let eventEnd := offset + 16 + nameLen
    if eventEnd ≤ v.n ∧ 0 < nameLen then do
      let nameBytes ← get v.buf (offset + 16) nameLen
      pure (if isDevice devName nameBytes then .stop true else .next eventEnd)
    else pure (.next eventEnd)
  else pure (.stop false)

/-- Whether `wait_for_dev_inotify` returns with these events; if not, it polls again. -/
def eventLoop (o : ByteOrder) (devName : String) (v : EventBuf) : Read (Option Bool) :=
  loop (eventRound o devName v) (v.n + 1) 0

/-! ### Any bytes -/

section Loop

variable {o : ByteOrder} {devName : String} {v : EventBuf} {offset : ℕ}

/-- A round stops, or goes on at least 16 bytes further. -/
theorem eventRound_cases (o : ByteOrder) (devName : String) (v : EventBuf) (offset : ℕ) :
    (∃ k spans, eventRound o devName v offset = done (.next (offset + 16 + k)) spans ∧ offset + 16 ≤ v.n ∧
      ∀ y ∈ spans, y.stop ≤ v.n) ∨
    ∃ r spans, eventRound o devName v offset = done (.stop r) spans ∧ ∀ y ∈ spans, y.stop ≤ v.n := by
  have hsize := v.size
  have hfits := v.fits
  by_cases hon : offset + 16 ≤ v.n
  · have hlen : get v.buf (offset + 12) 4 = done ((v.buf.drop (offset + 12)).take 4) [⟨offset + 12, 4⟩] :=
      get_eq (by omega)
    set k := value o ((v.buf.drop (offset + 12)).take 4) with hk
    have hword : offset + 12 + 4 ≤ v.n := by omega
    have hhead : ∀ y ∈ ([⟨offset + 12, 4⟩] : List Span), y.stop ≤ v.n := List.forall_mem_singleton.mpr hword
    by_cases hall : offset + 16 + k ≤ v.n ∧ 0 < k
    · have hname : get v.buf (offset + 16) k = done ((v.buf.drop (offset + 16)).take k) [⟨offset + 16, k⟩] :=
        get_eq (by omega)
      have hboth : ∀ y ∈ ([⟨offset + 12, 4⟩] ++ [⟨offset + 16, k⟩] : List Span), y.stop ≤ v.n :=
        List.forall_mem_append.mpr ⟨hhead, List.forall_mem_singleton.mpr hall.1⟩
      have hround : eventRound o devName v offset =
          done (if isDevice devName ((v.buf.drop (offset + 16)).take k) then .stop true else .next (offset + 16 + k))
            ([⟨offset + 12, 4⟩] ++ [⟨offset + 16, k⟩]) := by
        rw [eventRound, if_pos hon, hlen, done_bind, ← hk, if_pos hall, hname, done_bind]
        rfl
      by_cases hdev : isDevice devName ((v.buf.drop (offset + 16)).take k) = true
      · rw [if_pos hdev] at hround
        exact .inr ⟨true, _, hround, hboth⟩
      · rw [if_neg hdev] at hround
        exact .inl ⟨k, _, hround, hon, hboth⟩
    · refine .inl ⟨k, [⟨offset + 12, 4⟩], ?_, hon, hhead⟩
      rw [eventRound, if_pos hon, hlen, done_bind, ← hk, if_neg hall]
      rfl
  · refine .inr ⟨false, [], ?_, by simp⟩
    rw [eventRound, if_neg hon]
    rfl

/-- Whatever the bytes are, the loop ends, and indexes nothing outside what was read. -/
theorem eventLoop_ends (o : ByteOrder) (devName : String) (v : EventBuf) :
    ∃ r spans, eventLoop o devName v = done (some r) spans ∧ ∀ y ∈ spans, y.stop ≤ v.n := by
  have hround : ∀ offset, True → (∃ offset' spans, eventRound o devName v offset = done (.next offset') spans ∧ True ∧
        v.n - offset' < v.n - offset ∧ ∀ y ∈ spans, y.stop ≤ v.n) ∨
      ∃ r spans, eventRound o devName v offset = done (.stop r) spans ∧ True ∧ ∀ y ∈ spans, y.stop ≤ v.n := by
    intro offset _
    rcases eventRound_cases o devName v offset with ⟨k, spans, hround, hon, hin⟩ | ⟨r, spans, hround, hin⟩
    · exact .inl ⟨_, spans, hround, trivial, by omega, hin⟩
    · exact .inr ⟨r, spans, hround, trivial, hin⟩
  obtain ⟨r, spans, hloop, -, hin⟩ := loop_stops hround trivial (show v.n - 0 < v.n + 1 by omega)
  exact ⟨r, spans, hloop, hin⟩

end Loop

/-! ### Events of the kernel -/

/-- An event: watch, mask and cookie, and a name that is followed by NULs; there are none only behind no name. -/
structure DevEvent where
  head : List UInt8
  name : List UInt8
  nuls : ℕ
  head_length : head.length = 12
  nul_free : 0 ∉ name
  terminated : name = [] ∨ 0 < nuls

namespace DevEvent

/-- The name with its NULs. -/
def nameBytes (e : DevEvent) : List UInt8 := e.name ++ zeros e.nuls

def bytes (o : ByteOrder) (e : DevEvent) : List UInt8 :=
  e.head ++ (Wire.bytes o 4 e.nameBytes.length ++ e.nameBytes)

theorem length_bytes (o : ByteOrder) (e : DevEvent) : (e.bytes o).length = 16 + e.nameBytes.length := by
  rw [bytes, List.length_append, List.length_append, Wire.length_bytes, e.head_length]
  omega

/-- The name that the loop reads in an event with one. -/
theorem fromBytesUntilNul_name {e : DevEvent} (h : 0 < e.nameBytes.length) :
    fromBytesUntilNul e.nameBytes = some e.name := by
  have hpos : 0 < e.nuls := by
    rcases e.terminated with hname | hpos
    · rw [nameBytes, List.length_append, length_zeros, hname] at h
      simpa using h
    · exact hpos
  obtain ⟨k, hk⟩ : ∃ k, e.nuls = k + 1 := ⟨e.nuls - 1, by omega⟩
  have hzero : e.nameBytes = e.name ++ 0 :: zeros k := by
    rw [nameBytes, hk]
    rfl
  have hmem : 0 ∈ e.nameBytes := by
    rw [hzero]
    exact List.mem_append_right _ List.mem_cons_self
  have hstop : (e.name ++ 0 :: zeros k).takeWhile (· ≠ 0) = e.name := by
    rw [List.takeWhile_append_of_pos]
    · exact List.append_nil _
    · intro c hc
      exact decide_eq_true fun h0 => e.nul_free (h0 ▸ hc)
  rw [fromBytesUntilNul, if_pos hmem, cString, hzero, hstop]

theorem isDevice_iff {e : DevEvent} {devName : String} (h : 0 < e.nameBytes.length) :
    isDevice devName e.nameBytes = true ↔ Utf8.lossy e.name = devName := by
  rw [isDevice, fromBytesUntilNul_name h]
  exact decide_eq_true_iff

end DevEvent

section Events

variable {o : ByteOrder} {devName : String} {v : EventBuf} {offset : ℕ} {e : DevEvent} {events : List DevEvent}

variable {rest : List UInt8}

theorem event_le (hd : v.bytes.drop offset = e.bytes o ++ rest) : offset + (e.bytes o).length ≤ v.n := by
  have hsize := v.size
  have hfits := v.fits
  have hlen := e.length_bytes o
  have hall := congrArg List.length hd
  rw [EventBuf.bytes, List.length_drop, List.length_take, List.length_append] at hall
  omega

/-- The parts of the buffer are those of the event. -/
theorem event_part {pos k : ℕ} (hd : v.bytes.drop offset = e.bytes o ++ rest) (hk : pos + k ≤ (e.bytes o).length) :
    (v.buf.drop (offset + pos)).take k = ((e.bytes o).drop pos).take k := by
  have hin := event_le hd
  rw [part_received pos hd (by omega), part_append hk]

theorem event_word (hd : v.bytes.drop offset = e.bytes o ++ rest) :
    value o ((v.buf.drop (offset + 12)).take 4) = e.nameBytes.length := by
  have hlen := e.length_bytes o
  have hlt : e.nameBytes.length < 256 ^ 4 := by
    have hin := event_le hd
    have hfits := v.fits
    have hmax : (4096 : ℕ) < 256 ^ 4 := by decide
    omega
  rw [event_part hd (by omega), DevEvent.bytes, List.drop_left' e.head_length, List.take_left' Wire.length_bytes]
  exact value_bytes_of_lt hlt

theorem event_name (hd : v.bytes.drop offset = e.bytes o ++ rest) :
    (v.buf.drop (offset + 16)).take e.nameBytes.length = e.nameBytes := by
  have hlen := e.length_bytes o
  have hdrop : (e.bytes o).drop (12 + 4) = e.nameBytes := by
    rw [← List.drop_drop, DevEvent.bytes, List.drop_left' e.head_length, List.drop_left' Wire.length_bytes]
  rw [event_part hd (by omega), hdrop, List.take_length]

/-- A round takes one event. -/
theorem eventRound_event (hne : devName ≠ "") (hd : v.bytes.drop offset = e.bytes o ++ rest) :
    v.bytes.drop (offset + (e.bytes o).length) = rest ∧ ∃ spans, eventRound o devName v offset =
      done (if Utf8.lossy e.name = devName then .stop true else .next (offset + (e.bytes o).length)) spans := by
  have hsize := v.size
  have hfits := v.fits
  have hlen := e.length_bytes o
  have hin := event_le hd
  have hrest : v.bytes.drop (offset + (e.bytes o).length) = rest := by
    rw [← List.drop_drop, hd, List.drop_left]
  have hend : offset + 16 + e.nameBytes.length = offset + (e.bytes o).length := by omega
  refine ⟨hrest, ?_⟩
  by_cases hpos : 0 < e.nameBytes.length
  · refine ⟨[⟨offset + 12, 4⟩] ++ [⟨offset + 16, e.nameBytes.length⟩], ?_⟩
    rw [eventRound, if_pos (by omega), get_eq (by omega), done_bind, event_word hd, if_pos ⟨by omega, hpos⟩,
      get_eq (by omega), done_bind, event_name hd, hend]
    by_cases hdev : Utf8.lossy e.name = devName
    · rw [if_pos hdev, if_pos ((DevEvent.isDevice_iff hpos).mpr hdev)]
      rfl
    · rw [if_neg hdev, if_neg fun h => hdev ((DevEvent.isDevice_iff hpos).mp h)]
      rfl
  · have hempty : e.name = [] := by
      have hnil : e.nameBytes = [] := List.eq_nil_of_length_eq_zero (by omega)
      exact (List.append_eq_nil_iff.mp hnil).1
    have hdev : ¬ Utf8.lossy e.name = devName := by
      rw [hempty]
      exact fun h => hne h.symm
    refine ⟨[⟨offset + 12, 4⟩], ?_⟩
    rw [eventRound, if_pos (by omega), get_eq (by omega), done_bind, event_word hd, if_neg fun h => hpos h.2, hend,
      if_neg hdev]
    rfl

/-- The rounds over the events. -/
theorem loop_events (hne : devName ≠ "") (hd : v.bytes.drop offset = events.flatMap (DevEvent.bytes o)) :
    ∃ k spans, loop (eventRound o devName v) k offset =
      done (some (decide (∃ e ∈ events, Utf8.lossy e.name = devName))) spans := by
  induction events generalizing offset with
  | nil =>
    have hover : ¬ offset + 16 ≤ v.n := by
      have hsize := v.size
      have hfits := v.fits
      have hall := congrArg List.length hd
      rw [EventBuf.bytes, List.length_drop, List.length_take, List.flatMap_nil, List.length_nil] at hall
      omega
    have hstop : eventRound o devName v offset = done (.stop false) [] := by
      rw [eventRound, if_neg hover]
      rfl
    refine ⟨1, [], ?_⟩
    rw [loop_stop hstop]
    simp
  | cons e events ih =>
    rw [List.flatMap_cons] at hd
    obtain ⟨hrest, spans, hround⟩ := eventRound_event hne hd
    by_cases hdev : Utf8.lossy e.name = devName
    · rw [if_pos hdev] at hround
      have hfound : ∃ x ∈ e :: events, Utf8.lossy x.name = devName := ⟨e, List.mem_cons_self, hdev⟩
      refine ⟨1, spans, ?_⟩
      rw [loop_stop hround, decide_eq_true hfound]
    · rw [if_neg hdev] at hround
      obtain ⟨k, more, hloop⟩ := ih hrest
      have hsame : (∃ x ∈ e :: events, Utf8.lossy x.name = devName) ↔ ∃ x ∈ events, Utf8.lossy x.name = devName := by
        simp [hdev]
      refine ⟨k + 1, spans ++ more, ?_⟩
      rw [loop_next hround, hloop, behind_done, decide_eq_decide.mpr hsame]

theorem eventLoop_iff (hne : devName ≠ "") (hv : v.bytes = events.flatMap (DevEvent.bytes o)) :
    (∃ spans, eventLoop o devName v = done (some true) spans) ↔ ∃ e ∈ events, Utf8.lossy e.name = devName := by
  obtain ⟨r, spans, hends, -⟩ := eventLoop_ends o devName v
  have hd : v.bytes.drop 0 = events.flatMap (DevEvent.bytes o) := by rw [List.drop_zero, hv]
  obtain ⟨k, more, hloop⟩ := loop_events hne hd
  obtain ⟨hr, -⟩ := loop_unique hends hloop
  rw [hends, hr]
  constructor
  · rintro ⟨_, h⟩
    cases hd : decide (∃ e ∈ events, Utf8.lossy e.name = devName) with
    | true => exact of_decide_eq_true hd
    | false =>
      rw [hd] at h
      cases h
  · intro h
    exact ⟨spans, by rw [decide_eq_true h]⟩

/-- Only the bytes of a device name without an U+FFFD are read as it. -/
theorem lossy_eq_iff (hplain : '\uFFFD' ∉ devName.toList) {name : List UInt8} :
    Utf8.lossy name = devName ↔ name = asBytes devName := by
  have hbytes : asBytes devName = Utf8.encode devName.toList := Utf8.data_toByteArray devName
  rw [hbytes, ← Utf8.decode_eq_iff hplain, Utf8.lossy, ← String.toList_inj, String.toList_ofList]

/-- The agent waits for `vd` and a character of one byte. -/
theorem layerDevice_plain {i : ℕ} (h : Paths.fileName ("/dev/" ++ layerDevice i) = some devName) :
    '\uFFFD' ∉ devName.toList := by
  intro hmem
  have hpath := Paths.mem_of_fileName h hmem
  have hlow : ∀ b < 256, Char.ofNat b ≠ '\uFFFD' := by decide +kernel
  simp only [layerDevice, String.toList_append, String.toList_ofList, List.mem_append, List.mem_singleton] at hpath
  rcases hpath with hdev | hvd | hchar
  · exact absurd hdev (by decide)
  · exact absurd hvd (by decide)
  · exact hlow _ (Nat.mod_lt _ (by decide)) hchar.symm

/-- **The loop ends whatever was read.  With events of the kernel it succeeds if and only if a name in one of them reads
as the name of the device, and that is the name itself unless it has an U+FFFD in it.** -/
theorem event_loop_finds (o : ByteOrder) (devPath devName : String) (hname : Paths.fileName devPath = some devName)
    (v : EventBuf) :
    (∃ r spans, eventLoop o devName v = done (some r) spans ∧ ∀ y ∈ spans, y.stop ≤ v.n) ∧
    (∀ events : List DevEvent, v.bytes = events.flatMap (DevEvent.bytes o) →
      ((∃ spans, eventLoop o devName v = done (some true) spans) ↔ ∃ e ∈ events, Utf8.lossy e.name = devName) ∧
      ('\uFFFD' ∉ devName.toList →
        ((∃ spans, eventLoop o devName v = done (some true) spans) ↔ ∃ e ∈ events, e.name = asBytes devName))) ∧
    ∀ i, devPath = "/dev/" ++ layerDevice i → '\uFFFD' ∉ devName.toList := by
  refine ⟨eventLoop_ends o devName v, fun events hv => ?_, fun i hi => layerDevice_plain (hi ▸ hname)⟩
  have hiff := eventLoop_iff (Paths.fileName_ne_empty hname) hv
  refine ⟨hiff, fun hplain => ?_⟩
  simp only [hiff, lossy_eq_iff hplain]

/-- The buffer after a `read` of these bytes into zeros. -/
def EventBuf.ofRead (d : List UInt8) (h : d.length ≤ 4096) : EventBuf where
  buf := d ++ zeros (4096 - d.length)
  n := d.length
  size := by
    rw [List.length_append, length_zeros]
    omega
  fits := h

theorem bytes_ofRead {d : List UInt8} (h : d.length ≤ 4096) : (EventBuf.ofRead d h).bytes = d := by
  show (d ++ zeros (4096 - d.length)).take d.length = d
  rw [List.take_left]

/-- The creation of `/dev/vdb`. -/
def vdbEvent : DevEvent := ⟨[1, 0, 0, 0, 0, 1, 0, 0, 0, 0, 0, 0], [0x76, 0x64, 0x62], 13, by decide, by decide, by decide⟩

theorem event_loop_finds_vdb :
    (∃ r spans, eventLoop .little "vdb" (.ofRead (vdbEvent.bytes .little) (by decide)) = done (some r) spans ∧
      ∀ y ∈ spans, y.stop ≤ 32) ∧
    ∃ spans, eventLoop .little "vdb" (.ofRead (vdbEvent.bytes .little) (by decide)) = done (some true) spans := by
  have hall := event_loop_finds .little "/dev/vdb" "vdb" (by decide) (.ofRead (vdbEvent.bytes .little) (by decide))
  obtain ⟨hiff, hexact⟩ := hall.2.1 [vdbEvent] (by rw [bytes_ofRead, List.flatMap_singleton])
  exact ⟨hall.1, (hexact (by decide)).mpr ⟨vdbEvent, List.mem_singleton_self _, by decide⟩⟩

/-- The creation of a file whose name is the byte 255. -/
def strayEvent : DevEvent := ⟨[1, 0, 0, 0, 0, 1, 0, 0, 0, 0, 0, 0], [0xFF], 15, by decide, by decide, by decide⟩

/-- A wait for a device that is called U+FFFD ends with a name that is not its name. -/
theorem stray_name_taken : Paths.fileName "/dev/\uFFFD" = some "\uFFFD" ∧
    (∃ spans, eventLoop .little "\uFFFD" (.ofRead ([strayEvent].flatMap (DevEvent.bytes .little)) (by decide)) =
      done (some true) spans) ∧ ¬ ∃ e ∈ [strayEvent], e.name = asBytes "\uFFFD" := by
  have hread : Utf8.lossy strayEvent.name = "\uFFFD" := by decide
  refine ⟨by decide, ?_, ?_⟩
  · exact (eventLoop_iff (by decide) (bytes_ofRead _)).mpr ⟨strayEvent, List.mem_singleton_self _, hread⟩
  · rintro ⟨e, he, hname⟩
    rw [List.mem_singleton.mp he] at hname
    exact absurd hname (by decide)

end Events

end CloudHv.Agent
