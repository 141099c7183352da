import CloudHv.Shim.Instance
import CloudHv.Daemon.Connection
import CloudHv.Lib.Base64

/-!
# DaemonClient — the shim's end of a connection

The six calls of `crates/shim/src/daemon_client.rs`.  Each opens a connection, writes its request as one line and
reads one line in answer.  `meant` says in the daemon's terms what a call asks for, and `result` what it returns for
an answer of the daemon; the two ends agree on both, so that a call over a connection is a call of the handler.
-/

namespace CloudHv.Shim

open Agent (Err)
open Lines (Reader Piece)

/-! ### The calls -/

inductive ClientCall where
  | acquireSandbox (params : AcquireRequest)
  | releaseSandbox (vmId : String)
  | addContainer (vmId erofsPath containerId : String) (configJson : List UInt8)
  | killContainer (vmId containerId : String) (signal : UInt32)
  | waitContainer (vmId containerId : String)
  | deleteContainer (vmId containerId : String)
  deriving DecidableEq

/-- What a call returns. -/
inductive Returned where
  | vm (vm : AcquiredVm)
  | pid (containerPid : ℕ)
  | exited (code : ℕ) (exitedAt : String)
  | done
  deriving DecidableEq

namespace ClientCall

def method : ClientCall → String
  | .acquireSandbox _ => "AcquireSandbox"
  | .releaseSandbox _ => "ReleaseSandbox"
  | .addContainer _ _ _ _ => "AddContainer"
  | .killContainer _ _ _ => "KillContainer"
  | .waitContainer _ _ => "WaitContainer"
  | .deleteContainer _ _ => "DeleteContainer"

/-- The fields of the request. -/
def fields (B : Base64.Codec) : ClientCall → List (String × Json)
  | .acquireSandbox p =>
    [("method", .str "AcquireSandbox"), ("netns", .str p.netns), ("image_key", .str p.imageKey),
      ("erofs_path", .str p.erofsPath), ("container_id", .str p.containerId), ("config_json", .str (B.encode p.configJson))]
  | .releaseSandbox vmId => [("method", .str "ReleaseSandbox"), ("vm_id", .str vmId)]
  | .addContainer vmId erofsPath containerId configJson =>
    [("method", .str "AddContainer"), ("vm_id", .str vmId), ("erofs_path", .str erofsPath),
      ("container_id", .str containerId), ("config_json", .str (B.encode configJson))]
  | .killContainer vmId containerId signal =>
    [("method", .str "KillContainer"), ("vm_id", .str vmId), ("container_id", .str containerId),
      ("signal", .nat signal.toNat)]
  | .waitContainer vmId containerId =>
    [("method", .str "WaitContainer"), ("vm_id", .str vmId), ("container_id", .str containerId)]
  | .deleteContainer vmId containerId =>
    [("method", .str "DeleteContainer"), ("vm_id", .str vmId), ("container_id", .str containerId)]

def request (B : Base64.Codec) (c : ClientCall) : Json := .object (c.fields B)

end ClientCall

/-- `resp[k].as_str()`; a field that is not there is null. -/
def strOf (resp : Json) (k : String) : Option String := (resp.get k).bind Json.asStr

def u64Of (resp : Json) (k : String) : Option ℕ := (resp.get k).bind Json.asU64

/-- `check_error`. -/
def checkError (resp : Json) (method : String) : Except Err Unit :=
  match strOf resp "error" with
  | some e => .error ["daemon " ++ method ++ ": " ++ e]
  | none => .ok ()

/-- What a call makes of the fields of the response; a number is cut to 32 bits. -/
def ClientCall.readFields (resp : Json) : ClientCall → Except Err Returned
  | .acquireSandbox _ =>
    match strOf resp "vm_id", u64Of resp "ch_pid" with
    | none, _ => .error ["missing vm_id"]
    | some _, none => .error ["missing ch_pid"]
    | some vmId, some chPid => .ok (.vm ⟨vmId, chPid % 2 ^ 32, ((resp.get "from_snapshot").bind Json.asBool).getD false,
        (u64Of resp "container_pid").getD 0 % 2 ^ 32, (strOf resp "tap_name").getD ""⟩)
  | .addContainer _ _ _ _ => .ok (.pid ((u64Of resp "container_pid").getD 0 % 2 ^ 32))
  | .waitContainer _ _ => .ok (.exited ((u64Of resp "exit_status").getD 137 % 2 ^ 32) ((strOf resp "exited_at").getD ""))
  | .releaseSandbox _ | .killContainer _ _ _ | .deleteContainer _ _ => .ok .done

def ClientCall.read (c : ClientCall) (resp : Json) : Except Err Returned := do
  checkError resp c.method
  c.readFields resp

/-! ### A call over a connection -/

/-- What happens to one connection: whether it opens and the request can be written, what comes back in which pieces,
and whether the stream ends in an error or the first line is late. -/
structure Exchange where
  connect : Option String
  write : Option String
  pieces : List (Piece UInt8)
  broken : Option String
  late : Bool

/-- A connection on which nothing fails. -/
def Exchange.fine (pieces : List (Piece UInt8)) : Exchange := ⟨none, none, pieces, none, false⟩

/-- The line that `read_line` gets. -/
def Exchange.line (x : Exchange) : Except Err (List Char) :=
  let line := (Lines.readUntil 10 [] x.pieces).1
  match x.broken with
  | some e =>
    if line.getLast? = some 10 then (Utf8.strict line).elim (.error ["stream did not contain valid UTF-8"]) .ok
    else .error [e]
  | none => (Utf8.strict line).elim (.error ["stream did not contain valid UTF-8"]) .ok

/-- `rpc`, and `rpc_no_timeout`, whose line can be late. -/
def rpc (C : Json.Codec) (timeout : Bool) (socketPath : String) (x : Exchange) : Except Err Json :=
  match x.connect with
  | some e => .error ["connect to daemon: " ++ socketPath, e]
  | none =>
    match x.write with
    | some e => .error [e]
    | none =>
      if timeout ∧ x.late then .error ["daemon RPC timed out after 30s"]
      else match x.line with
        | .error e => .error ("read daemon response" :: e)
        | .ok line =>
          match C.parse (Text.trim line) with
          | .error e => .error ["parse daemon response", e]
          | .ok j => .ok j

/-- Only the wait for a container has no timeout. -/
def ClientCall.timed : ClientCall → Bool
  | .waitContainer _ _ => false
  | _ => true

def ClientCall.run (c : ClientCall) (C : Json.Codec) (socketPath : String) (x : Exchange) : Except Err Returned := do
  let resp ← rpc C c.timed socketPath x
  c.read resp

/-! ### The two ends agree -/

/-- The config that a call sends. -/
def ClientCall.configJson : ClientCall → Option (List UInt8)
  | .acquireSandbox p => some p.configJson
  | .addContainer _ _ _ config => some config
  | _ => none

/-- The text in which a request has its config. -/
def configText : Daemon.Request → Option String
  | .acquireSandbox req => some req.configJson
  | .addContainer req => some req.configJson
  | _ => none

/-- The config of a container; the daemon takes an empty object for none. -/
def configOr (config : List UInt8) : List UInt8 := if config = [] then [0x7b, 0x7d] else config

theorem ociConfig_encode {E : Daemon.Env} {B : Base64.Codec} (hB : E.decode = B.decode) (config : List UInt8) :
    Daemon.ociConfig E (B.encode config) = configOr config := by
  unfold Daemon.ociConfig configOr
  simp only [B.encode_eq_empty, hB, B.decode_encode, Option.getD_some]

/-- What a call asks of the daemon. -/
def ClientCall.meant (B : Base64.Codec) : ClientCall → Daemon.Request
  | .acquireSandbox p => .acquireSandbox ⟨p.netns, p.imageKey, p.erofsPath, p.containerId, B.encode p.configJson⟩
  | .releaseSandbox vmId => .releaseSandbox vmId
  | .addContainer vmId erofsPath containerId configJson =>
    .addContainer ⟨vmId, erofsPath, containerId, B.encode configJson⟩
  | .killContainer vmId containerId signal => .killContainer vmId containerId signal.toNat
  | .waitContainer vmId containerId => .waitContainer vmId containerId
  | .deleteContainer vmId containerId => .deleteContainer vmId containerId

/-- What a call returns for an answer; an answer of another kind than the call's lacks what it has to have. -/
def ClientCall.result : ClientCall → Daemon.Response → Except Err Returned
  | c, .plain (.error msg) | c, .plain (.waited _ _ (some msg)) => .error ["daemon " ++ c.method ++ ": " ++ msg]
  | .acquireSandbox _, .acquired a => .ok (.vm ⟨a.vmId, a.chPid, a.fromSnapshot, a.containerPid, a.tapName⟩)
  | .acquireSandbox _, _ => .error ["missing vm_id"]
  | .addContainer _ _ _ _, .plain (.added pid) => .ok (.pid pid)
  | .addContainer _ _ _ _, .acquired a => .ok (.pid a.containerPid)
  | .addContainer _ _ _ _, _ => .ok (.pid 0)
  | .waitContainer _ _, .plain (.waited status exitedAt none) => .ok (.exited status exitedAt)
  | .waitContainer _ _, _ => .ok (.exited 137 "")
  | _, _ => .ok .done

/-- The numbers of a response are of the types that the daemon has for them. -/
def Fits : Daemon.Response → Prop
  | .acquired a => a.chPid < 2 ^ 32 ∧ a.containerPid < 2 ^ 32
  | .plain (.added pid) => pid < 2 ^ 32
  | .plain (.waited status _ _) => status < 2 ^ 32
  | .plain _ => True

theorem request_plain (B : Base64.Codec) (c : ClientCall) : Json.Plain 127 (c.request B) := by
  have hnum : ∀ {d} (n : ℕ), Json.Plain d (.nat n) := fun n => .num (Json.isNumber_toString n)
  have hnil : ∀ {d} (p : String × Json), p ∈ [] → Json.Plain d p.2 := fun p hp => (by cases hp)
  have hfields : ∀ p ∈ c.fields B, Json.Plain 1 p.2 := by
    cases c <;> simp only [ClientCall.fields, List.forall_mem_cons]
    · exact ⟨.str, .str, .str, .str, .str, .str, hnil⟩
    · exact ⟨.str, .str, hnil⟩
    · exact ⟨.str, .str, .str, .str, .str, hnil⟩
    · exact ⟨.str, .str, .str, hnum _, hnil⟩
    · exact ⟨.str, .str, .str, hnil⟩
    · exact ⟨.str, .str, .str, hnil⟩
  exact (Json.Plain.object hfields).mono (by decide)

theorem get_request (B : Base64.Codec) (c : ClientCall) (k : String) : (c.request B).get k = (c.fields B).lookup k := by
  refine Json.get_object ?_ k
  cases c <;> simp [ClientCall.fields]

/-- **What the daemon takes a request for is what the call asks.** -/
theorem ofJson_request (B : Base64.Codec) (c : ClientCall) : Daemon.Request.ofJson (c.request B) = c.meant B := by
  have hstr : ∀ k, Daemon.strField (c.request B) k = (((c.fields B).lookup k).bind Json.asStr).getD "" := fun k => by
    rw [Daemon.strField, get_request]
  unfold Daemon.Request.ofJson
  simp only [hstr, get_request]
  cases c with
  | killContainer vmId containerId signal =>
    have hlt := signal.toNat_lt
    have hsig : (Json.nat signal.toNat).asU64 = some signal.toNat := by
      rw [Json.asU64_nat, if_pos (by omega)]
    show Daemon.Request.killContainer vmId containerId ((Json.nat signal.toNat).asU64.getD 15 % 2 ^ 32) = _
    rw [hsig, Option.getD_some, Nat.mod_eq_of_lt hlt]
    rfl
  | _ => rfl

/-- A number that fits comes through as it is. -/
theorem u64_fits {n : ℕ} (h : n < 2 ^ 32) : (Json.nat n).asU64 = some n ∧ n % 2 ^ 32 = n := by
  refine ⟨?_, Nat.mod_eq_of_lt h⟩
  rw [Json.asU64_nat, if_pos (by omega)]

section Answer

variable (order : Finset String → List String) {c : ClientCall} {resp : Daemon.Response}

theorem strOf_answer {k : String} {v : Option String} (h : ((resp.fields order).lookup k).bind Json.asStr = v) :
    strOf (resp.toJson order) k = v := by
  rw [strOf, Daemon.get_response, h]

theorem u64Of_answer {k : String} {v : Option ℕ} (h : ((resp.fields order).lookup k).bind Json.asU64 = v) :
    u64Of (resp.toJson order) k = v := by
  rw [u64Of, Daemon.get_response, h]

/-- An answer with an `error` is an error, whatever else it has. -/
theorem read_error {msg : String} (h : strOf (resp.toJson order) "error" = some msg) :
    c.read (resp.toJson order) = .error ["daemon " ++ c.method ++ ": " ++ msg] := by
  rw [ClientCall.read, checkError, h]
  rfl

theorem read_ok (h : strOf (resp.toJson order) "error" = none) :
    c.read (resp.toJson order) = c.readFields (resp.toJson order) := by
  rw [ClientCall.read, checkError, h]
  rfl

/-- An answer with none of the fields that calls read. -/
theorem read_bare (herr : strOf (resp.toJson order) "error" = none) (hvm : strOf (resp.toJson order) "vm_id" = none)
    (hpid : u64Of (resp.toJson order) "container_pid" = none) (hstatus : u64Of (resp.toJson order) "exit_status" = none)
    (hat : strOf (resp.toJson order) "exited_at" = none) : c.read (resp.toJson order) = c.result (.plain .ok) := by
  rw [read_ok order herr]
  cases c with
  | acquireSandbox p => rw [ClientCall.readFields, hvm]; rfl
  | addContainer vmId erofsPath containerId configJson => rw [ClientCall.readFields, hpid]; rfl
  | waitContainer vmId containerId => rw [ClientCall.readFields, hstatus, hat]; rfl
  | _ => rfl

/-- **What a call returns is what the daemon answered.** -/
theorem read_answer (h : Fits resp) : c.read (resp.toJson order) = c.result resp := by
  cases resp with
  | acquired a =>
    obtain ⟨hch, hch'⟩ := u64_fits h.1
    obtain ⟨hpid, hpid'⟩ := u64_fits h.2
    have hchPid : u64Of (Daemon.Response.toJson order (.acquired a)) "ch_pid" = some a.chPid := u64Of_answer order hch
    have hctr : u64Of (Daemon.Response.toJson order (.acquired a)) "container_pid" = some a.containerPid :=
      u64Of_answer order hpid
    rw [read_ok order (strOf_answer order rfl)]
    cases c with
    | acquireSandbox p =>
      have hsnap : (Daemon.Response.toJson order (.acquired a)).get "from_snapshot" = some (.bool a.fromSnapshot) := by
        rw [Daemon.get_response]
        rfl
      rw [ClientCall.readFields, strOf_answer (k := "vm_id") order rfl, hchPid, hctr,
        strOf_answer (k := "tap_name") order rfl, hsnap]
      show Except.ok (Returned.vm ⟨_, a.chPid % 2 ^ 32, _, a.containerPid % 2 ^ 32, _⟩) = _
      rw [hch', hpid']
      rfl
    | addContainer vmId erofsPath containerId configJson =>
      rw [ClientCall.readFields, hctr, Option.getD_some, hpid']
      rfl
    | waitContainer vmId containerId =>
      rw [ClientCall.readFields, u64Of_answer (k := "exit_status") order rfl, strOf_answer (k := "exited_at") order rfl]
      rfl
    | _ => rfl
  | plain p =>
    cases p with
    | added pid =>
      obtain ⟨hpid, hpid'⟩ := u64_fits h
      have hctr : u64Of (Daemon.Response.toJson order (.plain (.added pid))) "container_pid" = some pid :=
        u64Of_answer order hpid
      rw [read_ok order (strOf_answer order rfl)]
      cases c with
      | acquireSandbox p => rw [ClientCall.readFields, strOf_answer (k := "vm_id") order rfl]; rfl
      | addContainer vmId erofsPath containerId configJson =>
        rw [ClientCall.readFields, hctr, Option.getD_some, hpid']
        rfl
      | waitContainer vmId containerId =>
        rw [ClientCall.readFields, u64Of_answer (k := "exit_status") order rfl, strOf_answer (k := "exited_at") order rfl]
        rfl
      | _ => rfl
    | ok =>
      rw [read_bare order (strOf_answer order rfl) (strOf_answer order rfl) (u64Of_answer order rfl)
        (u64Of_answer order rfl) (strOf_answer order rfl)]
    | status ready active shadows keys =>
      rw [read_bare order (strOf_answer order rfl) (strOf_answer order rfl) (u64Of_answer order rfl)
        (u64Of_answer order rfl) (strOf_answer order rfl)]
      cases c <;> rfl
    | error msg =>
      rw [read_error order (strOf_answer order rfl)]
      cases c <;> rfl
    | waited status exitedAt e =>
      obtain ⟨hst, hst'⟩ := u64_fits h
      cases e with
      | some e =>
        rw [read_error order (strOf_answer order rfl)]
        cases c <;> rfl
      | none =>
        have hcode : u64Of (Daemon.Response.toJson order (.plain (.waited status exitedAt none))) "exit_status" =
            some status := u64Of_answer order hst
        rw [read_ok order (strOf_answer order rfl)]
        cases c with
        | acquireSandbox p => rw [ClientCall.readFields, strOf_answer (k := "vm_id") order rfl]; rfl
        | addContainer vmId erofsPath containerId configJson =>
          rw [ClientCall.readFields, u64Of_answer (k := "container_pid") order rfl]
          rfl
        | waitContainer vmId containerId =>
          rw [ClientCall.readFields, hcode, strOf_answer (k := "exited_at") order rfl, Option.getD_some, hst']
          rfl
        | _ => rfl

end Answer

/-! ### A call and its connection -/

section Exchange

variable {C : Json.Codec} {order : Finset String → List String} {resp : Daemon.Response} {pieces : List (Piece UInt8)}

/-- The first line that comes back is the response, whatever follows it. -/
theorem line_message {j : Json} (hj : Json.Plain 127 j) {more : List UInt8}
    (hbytes : (Reader.ofPieces pieces).elems = Daemon.message C j ++ more) :
    ∃ text, (Exchange.fine pieces).line = .ok text ∧ C.parse (Text.trim text) = .ok j := by
  obtain ⟨text, htext, hparse⟩ := Daemon.parse_message C hj
  obtain ⟨hmsg, hno⟩ := Daemon.message_line C hj
  have hline : (Lines.readUntil 10 [] pieces).1 = Daemon.message C j := by
    rw [(Lines.readUntil_eq [] pieces).1]
    show (Lines.cut 10 (Reader.ofPieces pieces).elems).1 = _
    rw [hbytes, hmsg, List.append_assoc, List.singleton_append, Lines.cut_line hno]
  refine ⟨text, ?_, hparse⟩
  show (Utf8.strict (Lines.readUntil 10 [] pieces).1).elim _ _ = _
  rw [hline, htext]
  rfl

theorem rpc_parsed {timeout : Bool} {x : Exchange} {text : List Char} {j : Json} (socketPath : String)
    (hconnect : x.connect = none) (hwrite : x.write = none) (hlate : x.late = false) (hline : x.line = .ok text)
    (hparse : C.parse (Text.trim text) = .ok j) : rpc C timeout socketPath x = .ok j := by
  have hin : ¬ (timeout = true ∧ x.late = true) := fun h => Bool.false_ne_true (hlate.symm.trans h.2)
  unfold rpc
  rw [hconnect, hwrite]
  dsimp only
  rw [if_neg hin, hline]
  dsimp only
  rw [hparse]

theorem rpc_message {j : Json} (hj : Json.Plain 127 j) {more : List UInt8} (timeout : Bool) (socketPath : String)
    (hbytes : (Reader.ofPieces pieces).elems = Daemon.message C j ++ more) :
    rpc C timeout socketPath (Exchange.fine pieces) = .ok j := by
  obtain ⟨text, hline, hparse⟩ := line_message hj hbytes
  exact rpc_parsed socketPath rfl rfl rfl hline hparse

/-- The config of a call, as the daemon reads it in the request that the call means. -/
theorem config_meant {E : Daemon.Env} {B : Base64.Codec} (hB : E.decode = B.decode) (c : ClientCall) :
    (configText (c.meant B)).map (Daemon.ociConfig E) = c.configJson.map configOr := by
  cases c with
  | acquireSandbox p => exact congrArg some (ociConfig_encode hB p.configJson)
  | addContainer vm erofs ctr config => exact congrArg some (ociConfig_encode hB config)
  | _ => rfl

/-- **A call over a connection is a call of the handler.**  However the request and the response are cut into pieces,
the daemon's handler is given what the call asks for, once, with a text in which the daemon reads the call's config,
and the call returns the handler's answer. -/
theorem call_exact {σ : Type} {answer : σ → Daemon.Request → Option (Daemon.Response × σ)} {state state' : σ}
    {B : Base64.Codec} {c : ClientCall} {sent received : List (Piece UInt8)} (socketPath : String) (broken : Bool)
    (hanswer : answer state (c.meant B) = some (resp, state')) (hfits : Fits resp)
    (hsent : (Reader.ofPieces sent).elems = Daemon.message C (c.request B))
    (hreceived : (Reader.ofPieces received).elems =
      (Daemon.handleConnection C order answer broken (fun _ => true) state sent).1.sent.flatten) :
    Daemon.handleConnection C order answer broken (fun _ => true) state sent =
      (⟨state', [c.meant B], [Daemon.message C (resp.toJson order)]⟩, Daemon.ending broken none) ∧
    (∀ E : Daemon.Env, E.decode = B.decode →
      (configText (c.meant B)).map (Daemon.ociConfig E) = c.configJson.map configOr) ∧
    c.run C socketPath (Exchange.fine received) = c.result resp := by
  have hplain := request_plain B c
  have hvalues : Daemon.Values C broken (Lines.lines 10 (Reader.ofPieces sent).elems) [c.request B]
      (Daemon.ending broken none) := by
    rw [hsent, Daemon.lines_message C hplain]
    refine .value (Daemon.reads_message hplain) ?_
    cases broken with
    | false => exact .closed rfl
    | true => exact .lost rfl
  have hanswers : Daemon.answers answer (fun _ => true) state [c.meant B] = ([resp], state', none) := by
    rw [Daemon.answers, hanswer]
    rfl
  have hconn : Daemon.handleConnection C order answer broken (fun _ => true) state sent =
      (⟨state', [c.meant B], [Daemon.message C (resp.toJson order)]⟩, Daemon.ending broken none) := by
    rw [Daemon.handle_values state hvalues, List.map_singleton, ofJson_request, hanswers]
    rfl
  refine ⟨hconn, fun E hB => config_meant hB c, ?_⟩
  rw [hconn] at hreceived
  have hback : (Reader.ofPieces received).elems = Daemon.message C (resp.toJson order) ++ [] := by simpa using hreceived
  have hrpc := rpc_message (Daemon.response_plain order resp) c.timed socketPath hback
  rw [ClientCall.run, hrpc]
  exact read_answer order hfits

end Exchange

/-- Bytes in two pieces, the first of nine bytes. -/
def twoPieces (bytes : List UInt8) (h : 9 < bytes.length) : List (Piece UInt8) :=
  [⟨bytes.take 9, by simp; rintro rfl; cases h⟩, ⟨bytes.drop 9, by simpa using h⟩]

theorem twoPieces_elems {bytes : List UInt8} (h : 9 < bytes.length) :
    (Reader.ofPieces (twoPieces bytes h)).elems = bytes := by
  show [] ++ ([bytes.take 9, bytes.drop 9] : List (List UInt8)).flatten = bytes
  simp

def addC1 : ClientCall := .addContainer "vm" "e" "c1" [0x7b, 0x7d]

/-- A handler that adds every container, and counts its requests. -/
def addAll (n : ℕ) (_ : Daemon.Request) : Option (Daemon.Response × ℕ) := some (.plain (.added 12), n + 1)

theorem addC1_long : 9 < (Daemon.message .standard (addC1.request .standard)).length := by decide +kernel

/-- The daemon's end of a connection on which the request comes in two pieces. -/
def servedC1 : Daemon.Served ℕ × Option Daemon.Stop :=
  Daemon.handleConnection .standard (fun _ => []) addAll false (fun _ => true) 0 (twoPieces _ addC1_long)

/-- A container that is added, over a connection on which both lines come in two pieces. -/
theorem call_exact_added :
    ∃ received, servedC1.1.state = 1 ∧ servedC1.1.requests = [.addContainer ⟨"vm", "e", "c1", "e30="⟩] ∧
      addC1.run .standard "/d.sock" (Exchange.fine received) = .ok (.pid 12) := by
  have hfits : Fits (.plain (.added 12)) := show 12 < 2 ^ 32 by decide
  have hback : 9 < servedC1.1.sent.flatten.length := by decide +kernel
  obtain ⟨hserved, -, hrun⟩ := call_exact (B := .standard) (c := addC1) "/d.sock" false (rfl : addAll 0 _ = some (_, 1))
    hfits (twoPieces_elems addC1_long) (twoPieces_elems hback)
  refine ⟨_, ?_, ?_, hrun⟩
  · exact congrArg (fun r => r.1.state) hserved
  · exact congrArg (fun r => r.1.requests) hserved

end CloudHv.Shim
