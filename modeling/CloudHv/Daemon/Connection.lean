import CloudHv.Daemon.Api
import CloudHv.Lib.JsonText
import CloudHv.Lib.Lines
import CloudHv.Lib.Utf8

/-!
# Connection — the daemon's end of a connection

`handle_connection` of `crates/daemon/src/api.rs`: one JSON value a line, a request and then its response, until the
stream ends or something goes wrong.  The handlers are a parameter here (`answer`; none of its answers is a panic):
`Api` has them as tasks.
-/

namespace CloudHv.Daemon

open Lines (Reader Piece)

/-! ### Requests and responses as JSON -/

/-- `request.get(k).and_then(|v| v.as_str()).unwrap_or("")`. -/
def strField (j : Json) (k : String) : String := ((j.get k).bind Json.asStr).getD ""

/-- The request that a line is, with the handlers' defaults. -/
def Request.ofJson (j : Json) : Request :=
  let vmId := strField j "vm_id"
  let containerId := strField j "container_id"
  match strField j "method" with
  | "AcquireSandbox" => .acquireSandbox ⟨strField j "netns", strField j "image_key", strField j "erofs_path", containerId,
      strField j "config_json"⟩
  | "ReleaseSandbox" => .releaseSandbox vmId
  | "AddContainer" => .addContainer ⟨vmId, strField j "erofs_path", containerId, strField j "config_json"⟩
  | "KillContainer" => .killContainer vmId containerId (((j.get "signal").bind Json.asU64).getD 15 % 2 ^ 32)
  | "WaitContainer" => .waitContainer vmId containerId
  | "DeleteContainer" => .deleteContainer vmId containerId
  | "Status" => .status
  | method => .unknown method

/-- The fields of a response; `order` is the order in which the keys of a hash map come. -/
def Response.fields (order : Finset String → List String) : Response → List (String × Json)
  | .acquired a =>
    [("vm_id", .str a.vmId), ("api_socket", .str a.apiSocket.display), ("vsock_socket", .str a.vsockSocket.display),
      ("cid", .nat a.cid), ("ch_pid", .nat a.chPid), ("from_snapshot", .bool a.fromSnapshot),
      ("container_pid", .nat a.containerPid), ("tap_name", .str a.tapName)]
  | .plain (.added pid) => [("container_pid", .nat pid)]
  | .plain .ok => [("ok", .bool true)]
  | .plain (.waited status exitedAt none) => [("exit_status", .nat status), ("exited_at", .str exitedAt)]
  | .plain (.waited status exitedAt (some e)) =>
    [("exit_status", .nat status), ("exited_at", .str exitedAt), ("error", .str e)]
  | .plain (.status ready active shadows keys) =>
    [("pool_ready", .nat ready), ("active_vms", .nat active), ("shadow_vms_running", .nat shadows),
      ("snapshot_keys", .arr ((order keys).map .str))]
  | .plain (.error msg) => [("error", .str msg)]

def Response.toJson (order : Finset String → List String) (r : Response) : Json := .object (r.fields order)

/-! ### The loop -/

/-- Why the loop of a connection ends before its stream does. -/
inductive Stop where
  /-- The socket failed in the middle of a line. -/
  | read
  | notUtf8
  | malformed (e : String)
  | panicked
  | write
  deriving DecidableEq

/-- What a connection has done: the handlers' state, the requests it gave them, the lines it wrote. -/
structure Served (σ : Type) where
  state : σ
  requests : List Request
  sent : List (List UInt8)

/-- A value as a line. -/
def message (C : Json.Codec) (j : Json) : List UInt8 := Utf8.encode (C.print j ++ ['\n'])

section Loop

variable {σ : Type} (C : Json.Codec) (order : Finset String → List String) (answer : σ → Request → Option (Response × σ))

/-- The round of one line; `broken` when the stream ends in an error, `up k` when the `k`th response can be written. -/
def serveLine (broken : Bool) (up : ℕ → Bool) (s : Served σ) (line : List UInt8) : Served σ × Option Stop :=
  if broken ∧ line.getLast? ≠ some 10 then (s, some .read)
  else match Utf8.strict line with
    | none => (s, some .notUtf8)
    | some text =>
      match C.parse (Text.trim text) with
      | .error e => (s, some (.malformed e))
      | .ok j =>
        let r := Request.ofJson j
        match answer s.state r with
        | none => ({ s with requests := s.requests ++ [r] }, some .panicked)
        | some (resp, state) =>
          if up s.sent.length then
            (⟨state, s.requests ++ [r], s.sent ++ [message C (resp.toJson order)]⟩, none)
          else (⟨state, s.requests ++ [r], s.sent⟩, some .write)

/-- How a loop ends that no line has ended. -/
def ending (broken : Bool) : Option Stop → Option Stop
  | none => if broken then some .read else none
  | some e => some e

/-- `handle_connection`, on a stream that comes in these pieces. -/
def handleConnection (broken : Bool) (up : ℕ → Bool) (state : σ) (pieces : List (Piece UInt8)) :
    Served σ × Option Stop :=
  let (s, o) := Lines.each (serveLine C order answer broken up) 10 ((Reader.ofPieces pieces).elems.length + 1)
    ⟨state, [], []⟩ (Reader.ofPieces pieces)
  (s, ending broken o)

end Loop

/-! ### What a connection is to do -/

/-- A line that is a JSON value; a stream that ends in an error loses its last line, if that is not a whole one. -/
def Reads (C : Json.Codec) (broken : Bool) (line : List UInt8) (j : Json) : Prop :=
  ¬(broken ∧ line.getLast? ≠ some 10) ∧ ∃ text, Utf8.strict line = some text ∧ C.parse (Text.trim text) = .ok j

/-- The values of the lines up to the first that is none, and why there is no further one. -/
inductive Values (C : Json.Codec) (broken : Bool) : List (List UInt8) → List Json → Option Stop → Prop
  | closed (hb : broken = false) : Values C broken [] [] none
  | lost (hb : broken = true) : Values C broken [] [] (some .read)
  | value {line : List UInt8} {lines : List (List UInt8)} {j : Json} {js : List Json} {o : Option Stop}
      (hj : Reads C broken line j) (h : Values C broken lines js o) : Values C broken (line :: lines) (j :: js) o
  | cut {line : List UInt8} {lines : List (List UInt8)} (hb : broken = true) (hl : line.getLast? ≠ some 10) :
      Values C broken (line :: lines) [] (some .read)
  | notUtf8 {line : List UInt8} {lines : List (List UInt8)} (hl : ¬(broken ∧ line.getLast? ≠ some 10))
      (hbad : Utf8.strict line = none) : Values C broken (line :: lines) [] (some .notUtf8)
  | malformed {line : List UInt8} {lines : List (List UInt8)} {text : List Char} {e : String}
      (hl : ¬(broken ∧ line.getLast? ≠ some 10)) (htext : Utf8.strict line = some text)
      (hbad : C.parse (Text.trim text) = .error e) : Values C broken (line :: lines) [] (some (.malformed e))

/-- The handlers' answers to requests that come one after the other: those that are sent, and what ends them before
the requests do, a panic or an answer that cannot be written. -/
def answers {σ : Type} (answer : σ → Request → Option (Response × σ)) :
    (up : ℕ → Bool) → σ → List Request → List Response × σ × Option Stop
  | _, s, [] => ([], s, none)
  | up, s, r :: rs =>
    match answer s r with
    | none => ([], s, some .panicked)
    | some (resp, s') =>
      if up 0 then
        (resp :: (answers answer (fun k => up (k + 1)) s' rs).1, (answers answer (fun k => up (k + 1)) s' rs).2)
      else ([], s', some .write)

/-! ### What is printed -/

theorem response_plain (order : Finset String → List String) (r : Response) : Json.Plain 127 (r.toJson order) := by
  have hnum : ∀ {d} (n : ℕ), Json.Plain d (.nat n) := fun n => .num (Json.isNumber_toString n)
  have hnil : ∀ {d} (p : String × Json), p ∈ [] → Json.Plain d p.2 := fun p hp => (by cases hp)
  have hfields : ∀ p ∈ r.fields order, Json.Plain 1 p.2 := by
    cases r with
    | acquired a =>
      simp only [Response.fields, List.forall_mem_cons]
      exact ⟨.str, .str, .str, hnum _, hnum _, .bool, hnum _, .str, hnil⟩
    | plain p =>
      cases p with
      | added pid => exact List.forall_mem_cons.mpr ⟨hnum _, hnil⟩
      | ok => exact List.forall_mem_cons.mpr ⟨.bool, hnil⟩
      | waited status exitedAt e =>
        cases e with
        | none => exact List.forall_mem_cons.mpr ⟨hnum _, List.forall_mem_cons.mpr ⟨.str, hnil⟩⟩
        | some e =>
          simp only [Response.fields, List.forall_mem_cons]
          exact ⟨hnum _, .str, .str, hnil⟩
      | status ready active shadows keys =>
        simp only [Response.fields, List.forall_mem_cons]
        refine ⟨hnum _, hnum _, hnum _, .arr fun j hj => ?_, hnil⟩
        obtain ⟨k, -, rfl⟩ := List.mem_map.mp hj
        exact .str
      | error msg => exact List.forall_mem_cons.mpr ⟨.str, hnil⟩
  exact (Json.Plain.object hfields).mono (by decide)

/-- The fields of a response have different keys. -/
theorem get_response (order : Finset String → List String) (r : Response) (k : String) :
    (r.toJson order).get k = (r.fields order).lookup k := by
  refine Json.get_object ?_ k
  cases r with
  | acquired a => simp [Response.fields]
  | plain p =>
    cases p with
    | waited status exitedAt e => cases e <;> simp [Response.fields]
    | _ => simp [Response.fields]

section Message

variable (C : Json.Codec) {j : Json}

/-- A printed value and a line break are one line. -/
theorem message_line (h : Json.Plain 127 j) :
    message C j = Utf8.encode (C.print j) ++ [10] ∧ (10 : UInt8) ∉ Utf8.encode (C.print j) := by
  refine ⟨?_, Utf8.not_mem_encode (by decide) fun c hc he => ?_⟩
  · rw [message, Utf8.encode_append]
    rfl
  · have hle := C.printable j h c hc
    rw [he] at hle
    exact absurd hle (by decide)

/-- What is read of the line is the value. -/
theorem parse_message (h : Json.Plain 127 j) :
    ∃ text, Utf8.strict (message C j) = some text ∧ C.parse (Text.trim text) = .ok j := by
  refine ⟨C.print j ++ ['\n'], Utf8.strict_encode _, ?_⟩
  rw [C.trim_print j h, C.parse_print j h]

theorem message_ends (h : Json.Plain 127 j) : (message C j).getLast? = some 10 := by
  rw [(message_line C h).1, List.getLast?_concat]

theorem lines_message (h : Json.Plain 127 j) : Lines.lines 10 (message C j) = [message C j] := by
  obtain ⟨hmsg, hno⟩ := message_line C h
  rw [hmsg, Lines.lines_line hno]
  rfl

end Message

/-! ### What a connection does -/

section Serve

variable {σ : Type} {C : Json.Codec} {order : Finset String → List String} {answer : σ → Request → Option (Response × σ)}
  {broken : Bool} {up : ℕ → Bool}

/-- The lines of a stream have values up to some line, whatever they are. -/
theorem exists_values (C : Json.Codec) (broken : Bool) (lines : List (List UInt8)) :
    ∃ js o, Values C broken lines js o := by
  induction lines with
  | nil =>
    cases broken with
    | false => exact ⟨[], none, .closed rfl⟩
    | true => exact ⟨[], some .read, .lost rfl⟩
  | cons line lines ih =>
    obtain ⟨js, o, h⟩ := ih
    by_cases hl : broken = true ∧ line.getLast? ≠ some 10
    · exact ⟨[], _, .cut hl.1 hl.2⟩
    · cases htext : Utf8.strict line with
      | none => exact ⟨[], _, .notUtf8 hl htext⟩
      | some text =>
        cases hj : C.parse (Text.trim text) with
        | error e => exact ⟨[], _, .malformed hl htext hj⟩
        | ok j => exact ⟨j :: js, o, .value ⟨hl, text, htext, hj⟩ h⟩

theorem serveLine_reads {s : Served σ} {line : List UInt8} {j : Json} (h : Reads C broken line j) :
    serveLine C order answer broken up s line =
      match answer s.state (Request.ofJson j) with
      | none => ({ s with requests := s.requests ++ [Request.ofJson j] }, some .panicked)
      | some (resp, state) =>
        if up s.sent.length then
          (⟨state, s.requests ++ [Request.ofJson j], s.sent ++ [message C (resp.toJson order)]⟩, none)
        else (⟨state, s.requests ++ [Request.ofJson j], s.sent⟩, some .write) := by
  obtain ⟨hend, text, hstrict, hparse⟩ := h
  rw [serveLine, if_neg hend, hstrict]
  dsimp only
  rw [hparse]

/-- A message is a line that is its value. -/
theorem reads_message {j : Json} (hj : Json.Plain 127 j) : Reads C broken (message C j) j :=
  ⟨fun h => h.2 (message_ends C hj), parse_message C hj⟩

variable (order answer up) in
/-- The lines that are values are answered one after the other; `up` counts from the answers that were sent. -/
theorem serve_values {lines : List (List UInt8)} {js : List Json} {o : Option Stop} (h : Values C broken lines js o)
    (s : Served σ) :
    let a := answers answer (fun k => up (s.sent.length + k)) s.state (js.map Request.ofJson)
    (Lines.eachOf (serveLine C order answer broken up) s lines).1 =
      ⟨a.2.1, s.requests ++ (js.map Request.ofJson).take (a.1.length + 1),
        s.sent ++ a.1.map fun r => message C (r.toJson order)⟩ ∧
    ending broken (Lines.eachOf (serveLine C order answer broken up) s lines).2 = a.2.2.or o := by
  induction h generalizing s with
  | closed hb => simp [Lines.eachOf, answers, ending, hb]
  | lost hb => simp [Lines.eachOf, answers, ending, hb]
  | cut hb hl =>
    have hline : serveLine C order answer broken up s _ = (s, some .read) := if_pos ⟨hb, hl⟩
    rw [Lines.eachOf, hline]
    simp [answers, ending]
  | notUtf8 hl hbad =>
    rw [Lines.eachOf, serveLine, if_neg hl, hbad]
    simp [answers, ending]
  | malformed hl htext hbad =>
    rw [Lines.eachOf, serveLine, if_neg hl, htext]
    dsimp only
    rw [hbad]
    simp [answers, ending]
  | @value line lines j js o hj _ ih =>
    rw [Lines.eachOf, serveLine_reads hj, List.map_cons, answers]
    cases ha : answer s.state (Request.ofJson j) with
    | none => simp [ending]
    | some p =>
      obtain ⟨resp, state⟩ := p
      dsimp only
      by_cases hup : up s.sent.length = true
      · have hnext := ih ⟨state, s.requests ++ [Request.ofJson j], s.sent ++ [message C (resp.toJson order)]⟩
        have hshift : (fun k => up ((s.sent ++ [message C (resp.toJson order)]).length + k)) =
            fun k => up (s.sent.length + (k + 1)) := by
          funext k
          rw [List.length_append, List.length_singleton, Nat.add_assoc, Nat.add_comm 1 k]
        simp only [hshift] at hnext
        rw [if_pos hup, if_pos (by simpa using hup)]
        dsimp only
        rw [hnext.1, hnext.2]
        simp
      · rw [if_neg hup, if_neg (by simpa using hup)]
        simp [ending]

/-- A connection whose lines are these values. -/
theorem handle_values (state : σ) {pieces : List (Piece UInt8)} {js : List Json} {o : Option Stop}
    (h : Values C broken (Lines.lines 10 (Reader.ofPieces pieces).elems) js o) :
    handleConnection C order answer broken up state pieces =
      (⟨(answers answer up state (js.map Request.ofJson)).2.1,
        (js.map Request.ofJson).take ((answers answer up state (js.map Request.ofJson)).1.length + 1),
        (answers answer up state (js.map Request.ofJson)).1.map fun r => message C (r.toJson order)⟩,
      (answers answer up state (js.map Request.ofJson)).2.2.or o) := by
  obtain ⟨hserved, hend⟩ := serve_values order answer up h ⟨state, [], []⟩
  rw [handleConnection, Lines.each_eq _ (Nat.lt_succ_self _)]
  simp only [List.length_nil, Nat.zero_add, List.nil_append] at hserved hend
  rw [← hserved, ← hend]

/-- **A connection answers its requests one by one, whatever pieces they come in.**  The lines of the stream are JSON
values up to the first that is none, or to its end; the handlers are given these values in order, and each answer is
one line.  A panic, or an answer that cannot be written, ends the connection before that. -/
theorem connection_serves (state : σ) (pieces : List (Piece UInt8)) :
    ∃ js o, Values C broken (Lines.lines 10 (Reader.ofPieces pieces).elems) js o ∧
      handleConnection C order answer broken up state pieces =
        (⟨(answers answer up state (js.map Request.ofJson)).2.1,
          (js.map Request.ofJson).take ((answers answer up state (js.map Request.ofJson)).1.length + 1),
          (answers answer up state (js.map Request.ofJson)).1.map fun r => message C (r.toJson order)⟩,
        (answers answer up state (js.map Request.ofJson)).2.2.or o) := by
  obtain ⟨js, o, h⟩ := exists_values C broken (Lines.lines 10 (Reader.ofPieces pieces).elems)
  exact ⟨js, o, h, handle_values state h⟩

end Serve

/-- A request with a blank in it, and one that the stream ends with, in two pieces cut inside the first. -/
def cutStream : List (Piece UInt8) :=
  let bytes := Utf8.encode "\x7b \"method\":\"Status\"\x7d\n\x7b\"method\":\"Other\"\x7d".toList
  [⟨bytes.take 5, by decide +kernel⟩, ⟨bytes.drop 5, by decide +kernel⟩]

example : (handleConnection .standard (fun _ => []) (fun n _ => some (.plain .ok, n + 1)) false (fun _ => true) 0
    cutStream).1.requests = [.status, .unknown "Other"] := by decide +kernel

end CloudHv.Daemon
