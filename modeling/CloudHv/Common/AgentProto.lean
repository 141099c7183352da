import CloudHv.Lib.Protobuf

/-!
# AgentProto — the messages between the daemon and an agent

The messages of `agent.proto` as the generated code writes and merges them, and the methods of the two services with
the names under which a client asks for them and the server finds them.  A call over the wire is a call of the handler
(`rpc_call_exact`).  The libraries that the generated code is written for are parameters: the protobuf runtime with
what writes and reads an item, and ttrpc with its two macros.
-/

namespace CloudHv.AgentProto

open Protobuf

/-! ### Containers -/

structure InlineFile where
  path : String
  content : List UInt8
  mode : UInt32
  deriving DecidableEq

def InlineFile.message (R : Runtime) : Message InlineFile where
  slots := [⟨1, .string R⟩, ⟨2, .bytes R⟩, ⟨3, .uint32 R⟩]
  toVals m := (m.path, m.content, m.mode, ())
  ofVals v := ⟨v.1, v.2.1, v.2.2.1⟩

theorem InlineFile.message_exact {R : Runtime} (hR : R.Laws) : (InlineFile.message R).Exact R :=
  ⟨fun _ => rfl, fun _ => rfl, show ([10, 18, 24] : List UInt32).Nodup by decide, Kind.string_exact hR,
    Kind.bytes_exact hR, Kind.uint32_exact hR, trivial⟩

structure VolumeMount where
  destination : String
  source : String
  options : List String
  readonly : Bool
  /-- A `VolumeType`: 0 for `FILESYSTEM`, 1 for `BLOCK`. -/
  volumeType : Int32
  fsType : String
  files : List InlineFile
  deriving DecidableEq

def VolumeMount.message (R : Runtime) : Message VolumeMount where
  slots := [⟨1, .string R⟩, ⟨2, .string R⟩, ⟨3, .strings R⟩, ⟨4, .bool R⟩, ⟨5, .enum R⟩, ⟨6, .string R⟩,
    ⟨7, .messages R (InlineFile.message R)⟩]
  toVals m := (m.destination, m.source, m.options, m.readonly, m.volumeType, m.fsType, m.files, ())
  ofVals v := ⟨v.1, v.2.1, v.2.2.1, v.2.2.2.1, v.2.2.2.2.1, v.2.2.2.2.2.1, v.2.2.2.2.2.2.1⟩

theorem VolumeMount.message_exact {R : Runtime} (hR : R.Laws) : (VolumeMount.message R).Exact R :=
  ⟨fun _ => rfl, fun _ => rfl, show ([10, 18, 26, 32, 40, 50, 58] : List UInt32).Nodup by decide,
    Kind.string_exact hR, Kind.string_exact hR, Kind.strings_exact hR, Kind.bool_exact hR, Kind.enum_exact hR,
    Kind.string_exact hR, Kind.messages_exact hR (InlineFile.message_exact hR), trivial⟩

structure CreateContainerRequest where
  containerId : String
  bundlePath : String
  stdin : String
  stdout : String
  stderr : String
  terminal : Bool
  volumes : List VolumeMount
  configJson : List UInt8
  rootfsPreattached : Bool
  erofsLayers : UInt32
  deriving DecidableEq

def CreateContainerRequest.message (R : Runtime) : Message CreateContainerRequest where
  slots := [⟨1, .string R⟩, ⟨2, .string R⟩, ⟨3, .string R⟩, ⟨4, .string R⟩, ⟨5, .string R⟩, ⟨6, .bool R⟩,
    ⟨7, .messages R (VolumeMount.message R)⟩, ⟨8, .bytes R⟩, ⟨10, .bool R⟩, ⟨11, .uint32 R⟩]
  toVals m := (m.containerId, m.bundlePath, m.stdin, m.stdout, m.stderr, m.terminal, m.volumes, m.configJson,
    m.rootfsPreattached, m.erofsLayers, ())
  ofVals v := ⟨v.1, v.2.1, v.2.2.1, v.2.2.2.1, v.2.2.2.2.1, v.2.2.2.2.2.1, v.2.2.2.2.2.2.1, v.2.2.2.2.2.2.2.1,
    v.2.2.2.2.2.2.2.2.1, v.2.2.2.2.2.2.2.2.2.1⟩

theorem CreateContainerRequest.message_exact {R : Runtime} (hR : R.Laws) : (CreateContainerRequest.message R).Exact R :=
  ⟨fun _ => rfl, fun _ => rfl, show ([10, 18, 26, 34, 42, 48, 58, 66, 80, 88] : List UInt32).Nodup by decide,
    Kind.string_exact hR, Kind.string_exact hR, Kind.string_exact hR, Kind.string_exact hR, Kind.string_exact hR,
    Kind.bool_exact hR, Kind.messages_exact hR (VolumeMount.message_exact hR), Kind.bytes_exact hR,
    Kind.bool_exact hR, Kind.uint32_exact hR, trivial⟩

structure CreateContainerResponse where
  pid : UInt32
  deriving DecidableEq

def CreateContainerResponse.message (R : Runtime) : Message CreateContainerResponse where
  slots := [⟨1, .uint32 R⟩]
  toVals m := (m.pid, ())
  ofVals v := ⟨v.1⟩

theorem CreateContainerResponse.message_exact {R : Runtime} (hR : R.Laws) : (CreateContainerResponse.message R).Exact R :=
  ⟨fun _ => rfl, fun _ => rfl, show ([8] : List UInt32).Nodup by decide, Kind.uint32_exact hR, trivial⟩

structure StartContainerRequest where
  containerId : String
  deriving DecidableEq

def StartContainerRequest.message (R : Runtime) : Message StartContainerRequest where
  slots := [⟨1, .string R⟩]
  toVals m := (m.containerId, ())
  ofVals v := ⟨v.1⟩

theorem StartContainerRequest.message_exact {R : Runtime} (hR : R.Laws) : (StartContainerRequest.message R).Exact R :=
  ⟨fun _ => rfl, fun _ => rfl, show ([10] : List UInt32).Nodup by decide, Kind.string_exact hR, trivial⟩

structure StartContainerResponse where
  pid : UInt32
  deriving DecidableEq

def StartContainerResponse.message (R : Runtime) : Message StartContainerResponse where
  slots := [⟨1, .uint32 R⟩]
  toVals m := (m.pid, ())
  ofVals v := ⟨v.1⟩

theorem StartContainerResponse.message_exact {R : Runtime} (hR : R.Laws) : (StartContainerResponse.message R).Exact R :=
  ⟨fun _ => rfl, fun _ => rfl, show ([8] : List UInt32).Nodup by decide, Kind.uint32_exact hR, trivial⟩

structure KillContainerRequest where
  containerId : String
  signal : UInt32
  all : Bool
  deriving DecidableEq

def KillContainerRequest.message (R : Runtime) : Message KillContainerRequest where
  slots := [⟨1, .string R⟩, ⟨2, .uint32 R⟩, ⟨3, .bool R⟩]
  toVals m := (m.containerId, m.signal, m.all, ())
  ofVals v := ⟨v.1, v.2.1, v.2.2.1⟩

theorem KillContainerRequest.message_exact {R : Runtime} (hR : R.Laws) : (KillContainerRequest.message R).Exact R :=
  ⟨fun _ => rfl, fun _ => rfl, show ([10, 16, 24] : List UInt32).Nodup by decide, Kind.string_exact hR,
    Kind.uint32_exact hR, Kind.bool_exact hR, trivial⟩

structure KillContainerResponse where
  deriving DecidableEq

def KillContainerResponse.message (_R : Runtime) : Message KillContainerResponse where
  slots := []
  toVals _ := ()
  ofVals _ := ⟨⟩

theorem KillContainerResponse.message_exact {R : Runtime} (_hR : R.Laws) : (KillContainerResponse.message R).Exact R :=
  ⟨fun _ => rfl, fun _ => rfl, List.nodup_nil, trivial⟩

structure DeleteContainerRequest where
  containerId : String
  deriving DecidableEq

def DeleteContainerRequest.message (R : Runtime) : Message DeleteContainerRequest where
  slots := [⟨1, .string R⟩]
  toVals m := (m.containerId, ())
  ofVals v := ⟨v.1⟩

theorem DeleteContainerRequest.message_exact {R : Runtime} (hR : R.Laws) : (DeleteContainerRequest.message R).Exact R :=
  ⟨fun _ => rfl, fun _ => rfl, show ([10] : List UInt32).Nodup by decide, Kind.string_exact hR, trivial⟩

structure DeleteContainerResponse where
  exitStatus : UInt32
  pid : UInt32
  deriving DecidableEq

def DeleteContainerResponse.message (R : Runtime) : Message DeleteContainerResponse where
  slots := [⟨1, .uint32 R⟩, ⟨2, .uint32 R⟩]
  toVals m := (m.exitStatus, m.pid, ())
  ofVals v := ⟨v.1, v.2.1⟩

theorem DeleteContainerResponse.message_exact {R : Runtime} (hR : R.Laws) : (DeleteContainerResponse.message R).Exact R :=
  ⟨fun _ => rfl, fun _ => rfl, show ([8, 16] : List UInt32).Nodup by decide, Kind.uint32_exact hR,
    Kind.uint32_exact hR, trivial⟩

structure WaitContainerRequest where
  containerId : String
  deriving DecidableEq

def WaitContainerRequest.message (R : Runtime) : Message WaitContainerRequest where
  slots := [⟨1, .string R⟩]
  toVals m := (m.containerId, ())
  ofVals v := ⟨v.1⟩

theorem WaitContainerRequest.message_exact {R : Runtime} (hR : R.Laws) : (WaitContainerRequest.message R).Exact R :=
  ⟨fun _ => rfl, fun _ => rfl, show ([10] : List UInt32).Nodup by decide, Kind.string_exact hR, trivial⟩

structure WaitContainerResponse where
  exitStatus : UInt32
  exitedAt : String
  deriving DecidableEq

def WaitContainerResponse.message (R : Runtime) : Message WaitContainerResponse where
  slots := [⟨1, .uint32 R⟩, ⟨2, .string R⟩]
  toVals m := (m.exitStatus, m.exitedAt, ())
  ofVals v := ⟨v.1, v.2.1⟩

theorem WaitContainerResponse.message_exact {R : Runtime} (hR : R.Laws) : (WaitContainerResponse.message R).Exact R :=
  ⟨fun _ => rfl, fun _ => rfl, show ([8, 18] : List UInt32).Nodup by decide, Kind.uint32_exact hR,
    Kind.string_exact hR, trivial⟩

structure ExecProcessRequest where
  containerId : String
  execId : String
  specJson : String
  stdin : String
  stdout : String
  stderr : String
  terminal : Bool
  deriving DecidableEq

def ExecProcessRequest.message (R : Runtime) : Message ExecProcessRequest where
  slots := [⟨1, .string R⟩, ⟨2, .string R⟩, ⟨3, .string R⟩, ⟨4, .string R⟩, ⟨5, .string R⟩, ⟨6, .string R⟩,
    ⟨7, .bool R⟩]
  toVals m := (m.containerId, m.execId, m.specJson, m.stdin, m.stdout, m.stderr, m.terminal, ())
  ofVals v := ⟨v.1, v.2.1, v.2.2.1, v.2.2.2.1, v.2.2.2.2.1, v.2.2.2.2.2.1, v.2.2.2.2.2.2.1⟩

theorem ExecProcessRequest.message_exact {R : Runtime} (hR : R.Laws) : (ExecProcessRequest.message R).Exact R :=
  ⟨fun _ => rfl, fun _ => rfl, show ([10, 18, 26, 34, 42, 50, 56] : List UInt32).Nodup by decide,
    Kind.string_exact hR, Kind.string_exact hR, Kind.string_exact hR, Kind.string_exact hR, Kind.string_exact hR,
    Kind.string_exact hR, Kind.bool_exact hR, trivial⟩

structure ExecProcessResponse where
  pid : UInt32
  deriving DecidableEq

def ExecProcessResponse.message (R : Runtime) : Message ExecProcessResponse where
  slots := [⟨1, .uint32 R⟩]
  toVals m := (m.pid, ())
  ofVals v := ⟨v.1⟩

theorem ExecProcessResponse.message_exact {R : Runtime} (hR : R.Laws) : (ExecProcessResponse.message R).Exact R :=
  ⟨fun _ => rfl, fun _ => rfl, show ([8] : List UInt32).Nodup by decide, Kind.uint32_exact hR, trivial⟩

structure StateContainerRequest where
  containerId : String
  deriving DecidableEq

def StateContainerRequest.message (R : Runtime) : Message StateContainerRequest where
  slots := [⟨1, .string R⟩]
  toVals m := (m.containerId, ())
  ofVals v := ⟨v.1⟩

theorem StateContainerRequest.message_exact {R : Runtime} (hR : R.Laws) : (StateContainerRequest.message R).Exact R :=
  ⟨fun _ => rfl, fun _ => rfl, show ([10] : List UInt32).Nodup by decide, Kind.string_exact hR, trivial⟩

structure StateContainerResponse where
  containerId : String
  pid : UInt32
  /-- A `ContainerState`: 0 for `UNKNOWN`, and 1 to 4 for `CREATED`, `RUNNING`, `STOPPED` and `PAUSED`. -/
  status : Int32
  exitStatus : UInt32
  exitedAt : String
  deriving DecidableEq

def StateContainerResponse.message (R : Runtime) : Message StateContainerResponse where
  slots := [⟨1, .string R⟩, ⟨2, .uint32 R⟩, ⟨3, .enum R⟩, ⟨4, .uint32 R⟩, ⟨5, .string R⟩]
  toVals m := (m.containerId, m.pid, m.status, m.exitStatus, m.exitedAt, ())
  ofVals v := ⟨v.1, v.2.1, v.2.2.1, v.2.2.2.1, v.2.2.2.2.1⟩

theorem StateContainerResponse.message_exact {R : Runtime} (hR : R.Laws) : (StateContainerResponse.message R).Exact R :=
  ⟨fun _ => rfl, fun _ => rfl, show ([10, 16, 24, 32, 42] : List UInt32).Nodup by decide, Kind.string_exact hR,
    Kind.uint32_exact hR, Kind.enum_exact hR, Kind.uint32_exact hR, Kind.string_exact hR, trivial⟩

structure GetContainerLogsRequest where
  containerId : String
  offset : UInt64
  deriving DecidableEq

def GetContainerLogsRequest.message (R : Runtime) : Message GetContainerLogsRequest where
  slots := [⟨1, .string R⟩, ⟨2, .uint64 R⟩]
  toVals m := (m.containerId, m.offset, ())
  ofVals v := ⟨v.1, v.2.1⟩

theorem GetContainerLogsRequest.message_exact {R : Runtime} (hR : R.Laws) : (GetContainerLogsRequest.message R).Exact R :=
  ⟨fun _ => rfl, fun _ => rfl, show ([10, 16] : List UInt32).Nodup by decide, Kind.string_exact hR,
    Kind.uint64_exact hR, trivial⟩

structure GetContainerLogsResponse where
  stdout : List UInt8
  stderr : List UInt8
  offset : UInt64
  eof : Bool
  deriving DecidableEq

def GetContainerLogsResponse.message (R : Runtime) : Message GetContainerLogsResponse where
  slots := [⟨1, .bytes R⟩, ⟨2, .bytes R⟩, ⟨3, .uint64 R⟩, ⟨4, .bool R⟩]
  toVals m := (m.stdout, m.stderr, m.offset, m.eof, ())
  ofVals v := ⟨v.1, v.2.1, v.2.2.1, v.2.2.2.1⟩

theorem GetContainerLogsResponse.message_exact {R : Runtime} (hR : R.Laws) : (GetContainerLogsResponse.message R).Exact R :=
  ⟨fun _ => rfl, fun _ => rfl, show ([10, 18, 24, 32] : List UInt32).Nodup by decide, Kind.bytes_exact hR,
    Kind.bytes_exact hR, Kind.uint64_exact hR, Kind.bool_exact hR, trivial⟩

structure AdoptContainerRequest where
  oldContainerId : String
  newContainerId : String
  deriving DecidableEq

def AdoptContainerRequest.message (R : Runtime) : Message AdoptContainerRequest where
  slots := [⟨1, .string R⟩, ⟨2, .string R⟩]
  toVals m := (m.oldContainerId, m.newContainerId, ())
  ofVals v := ⟨v.1, v.2.1⟩

theorem AdoptContainerRequest.message_exact {R : Runtime} (hR : R.Laws) : (AdoptContainerRequest.message R).Exact R :=
  ⟨fun _ => rfl, fun _ => rfl, show ([10, 18] : List UInt32).Nodup by decide, Kind.string_exact hR,
    Kind.string_exact hR, trivial⟩

structure AdoptContainerResponse where
  pid : UInt32
  deriving DecidableEq

def AdoptContainerResponse.message (R : Runtime) : Message AdoptContainerResponse where
  slots := [⟨1, .uint32 R⟩]
  toVals m := (m.pid, ())
  ofVals v := ⟨v.1⟩

theorem AdoptContainerResponse.message_exact {R : Runtime} (hR : R.Laws) : (AdoptContainerResponse.message R).Exact R :=
  ⟨fun _ => rfl, fun _ => rfl, show ([8] : List UInt32).Nodup by decide, Kind.uint32_exact hR, trivial⟩

/-! ### The guest -/

structure CheckRequest where
  deriving DecidableEq

def CheckRequest.message (_R : Runtime) : Message CheckRequest where
  slots := []
  toVals _ := ()
  ofVals _ := ⟨⟩

theorem CheckRequest.message_exact {R : Runtime} (_hR : R.Laws) : (CheckRequest.message R).Exact R :=
  ⟨fun _ => rfl, fun _ => rfl, List.nodup_nil, trivial⟩

structure CheckResponse where
  ready : Bool
  version : String
  deriving DecidableEq

def CheckResponse.message (R : Runtime) : Message CheckResponse where
  slots := [⟨1, .bool R⟩, ⟨2, .string R⟩]
  toVals m := (m.ready, m.version, ())
  ofVals v := ⟨v.1, v.2.1⟩

theorem CheckResponse.message_exact {R : Runtime} (hR : R.Laws) : (CheckResponse.message R).Exact R :=
  ⟨fun _ => rfl, fun _ => rfl, show ([8, 18] : List UInt32).Nodup by decide, Kind.bool_exact hR, Kind.string_exact hR,
    trivial⟩

structure GetMemInfoRequest where
  deriving DecidableEq

def GetMemInfoRequest.message (_R : Runtime) : Message GetMemInfoRequest where
  slots := []
  toVals _ := ()
  ofVals _ := ⟨⟩

theorem GetMemInfoRequest.message_exact {R : Runtime} (_hR : R.Laws) : (GetMemInfoRequest.message R).Exact R :=
  ⟨fun _ => rfl, fun _ => rfl, List.nodup_nil, trivial⟩

structure GetMemInfoResponse where
  memTotalKb : UInt64
  memFreeKb : UInt64
  memAvailableKb : UInt64
  buffersKb : UInt64
  cachedKb : UInt64
  swapTotalKb : UInt64
  swapFreeKb : UInt64
  deriving DecidableEq

def GetMemInfoResponse.message (R : Runtime) : Message GetMemInfoResponse where
  slots := [⟨1, .uint64 R⟩, ⟨2, .uint64 R⟩, ⟨3, .uint64 R⟩, ⟨4, .uint64 R⟩, ⟨5, .uint64 R⟩, ⟨6, .uint64 R⟩,
    ⟨7, .uint64 R⟩]
  toVals m := (m.memTotalKb, m.memFreeKb, m.memAvailableKb, m.buffersKb, m.cachedKb, m.swapTotalKb, m.swapFreeKb, ())
  ofVals v := ⟨v.1, v.2.1, v.2.2.1, v.2.2.2.1, v.2.2.2.2.1, v.2.2.2.2.2.1, v.2.2.2.2.2.2.1⟩

theorem GetMemInfoResponse.message_exact {R : Runtime} (hR : R.Laws) : (GetMemInfoResponse.message R).Exact R :=
  ⟨fun _ => rfl, fun _ => rfl, show ([8, 16, 24, 32, 40, 48, 56] : List UInt32).Nodup by decide, Kind.uint64_exact hR,
    Kind.uint64_exact hR, Kind.uint64_exact hR, Kind.uint64_exact hR, Kind.uint64_exact hR, Kind.uint64_exact hR,
    Kind.uint64_exact hR, trivial⟩

structure ConfigureNetworkRequest where
  ipAddress : String
  gateway : String
  prefixLen : UInt32
  device : String
  mac : String
  deriving DecidableEq

def ConfigureNetworkRequest.message (R : Runtime) : Message ConfigureNetworkRequest where
  slots := [⟨1, .string R⟩, ⟨2, .string R⟩, ⟨3, .uint32 R⟩, ⟨4, .string R⟩, ⟨5, .string R⟩]
  toVals m := (m.ipAddress, m.gateway, m.prefixLen, m.device, m.mac, ())
  ofVals v := ⟨v.1, v.2.1, v.2.2.1, v.2.2.2.1, v.2.2.2.2.1⟩

theorem ConfigureNetworkRequest.message_exact {R : Runtime} (hR : R.Laws) : (ConfigureNetworkRequest.message R).Exact R :=
  ⟨fun _ => rfl, fun _ => rfl, show ([10, 18, 24, 34, 42] : List UInt32).Nodup by decide, Kind.string_exact hR,
    Kind.string_exact hR, Kind.uint32_exact hR, Kind.string_exact hR, Kind.string_exact hR, trivial⟩

structure ConfigureNetworkResponse where
  deriving DecidableEq

def ConfigureNetworkResponse.message (_R : Runtime) : Message ConfigureNetworkResponse where
  slots := []
  toVals _ := ()
  ofVals _ := ⟨⟩

theorem ConfigureNetworkResponse.message_exact {R : Runtime} (_hR : R.Laws) : (ConfigureNetworkResponse.message R).Exact R :=
  ⟨fun _ => rfl, fun _ => rfl, List.nodup_nil, trivial⟩

/-! ### The services -/

inductive Rpc where
  | createContainer | startContainer | runContainer | killContainer | deleteContainer | waitContainer | execProcess
  | stateContainer | getMemInfo | getContainerLogs | configureNetwork | adoptContainer | check
  deriving DecidableEq

namespace Rpc

abbrev Request : Rpc → Type
  | .createContainer | .runContainer => CreateContainerRequest
  | .startContainer => StartContainerRequest
  | .killContainer => KillContainerRequest
  | .deleteContainer => DeleteContainerRequest
  | .waitContainer => WaitContainerRequest
  | .execProcess => ExecProcessRequest
  | .stateContainer => StateContainerRequest
  | .getMemInfo => GetMemInfoRequest
  | .getContainerLogs => GetContainerLogsRequest
  | .configureNetwork => ConfigureNetworkRequest
  | .adoptContainer => AdoptContainerRequest
  | .check => CheckRequest

abbrev Response : Rpc → Type
  | .createContainer => CreateContainerResponse
  | .startContainer | .runContainer => StartContainerResponse
  | .killContainer => KillContainerResponse
  | .deleteContainer => DeleteContainerResponse
  | .waitContainer => WaitContainerResponse
  | .execProcess => ExecProcessResponse
  | .stateContainer => StateContainerResponse
  | .getMemInfo => GetMemInfoResponse
  | .getContainerLogs => GetContainerLogsResponse
  | .configureNetwork => ConfigureNetworkResponse
  | .adoptContainer => AdoptContainerResponse
  | .check => CheckResponse

def request (R : Runtime) : (r : Rpc) → Message r.Request
  | .createContainer | .runContainer => CreateContainerRequest.message R
  | .startContainer => StartContainerRequest.message R
  | .killContainer => KillContainerRequest.message R
  | .deleteContainer => DeleteContainerRequest.message R
  | .waitContainer => WaitContainerRequest.message R
  | .execProcess => ExecProcessRequest.message R
  | .stateContainer => StateContainerRequest.message R
  | .getMemInfo => GetMemInfoRequest.message R
  | .getContainerLogs => GetContainerLogsRequest.message R
  | .configureNetwork => ConfigureNetworkRequest.message R
  | .adoptContainer => AdoptContainerRequest.message R
  | .check => CheckRequest.message R

def response (R : Runtime) : (r : Rpc) → Message r.Response
  | .createContainer => CreateContainerResponse.message R
  | .startContainer | .runContainer => StartContainerResponse.message R
  | .killContainer => KillContainerResponse.message R
  | .deleteContainer => DeleteContainerResponse.message R
  | .waitContainer => WaitContainerResponse.message R
  | .execProcess => ExecProcessResponse.message R
  | .stateContainer => StateContainerResponse.message R
  | .getMemInfo => GetMemInfoResponse.message R
  | .getContainerLogs => GetContainerLogsResponse.message R
  | .configureNetwork => ConfigureNetworkResponse.message R
  | .adoptContainer => AdoptContainerResponse.message R
  | .check => CheckResponse.message R

/-- The service that a client names. -/
def service : Rpc → String
  | .check => "cloudhv.agent.HealthService"
  | _ => "cloudhv.agent.AgentService"

/-- The method that a client names. -/
def name : Rpc → String
  | .createContainer => "CreateContainer"
  | .startContainer => "StartContainer"
  | .runContainer => "RunContainer"
  | .killContainer => "KillContainer"
  | .deleteContainer => "DeleteContainer"
  | .waitContainer => "WaitContainer"
  | .execProcess => "ExecProcess"
  | .stateContainer => "StateContainer"
  | .getMemInfo => "GetMemInfo"
  | .getContainerLogs => "GetContainerLogs"
  | .configureNetwork => "ConfigureNetwork"
  | .adoptContainer => "AdoptContainer"
  | .check => "Check"

end Rpc

/-! ### ttrpc -/

/-- What a server calls for a method: it takes the payload of a request to that of a response. -/
abbrev PayloadHandler (E : Type) : Type := List UInt8 → Except E (List UInt8)

/-- The methods of a service by their names, and the services by theirs. -/
abbrev Services (E : Type) : Type := List (String × List (String × PayloadHandler E))

/-- ttrpc's macros, over a connection that stays up and within the time that a call has, and what fits its messages. -/
structure Ttrpc (E : Type) where
  /-- `async_request_handler!`, with the reader of the requests, the method, and the writer of the responses. -/
  requestHandler : {α β : Type} → (List UInt8 → Option α) → (α → Except E β) → (β → List UInt8) → PayloadHandler E
  /-- `async_client_request!` to a server with these services, with the writer of the requests and the reader of the
  responses. -/
  clientRequest : {α β : Type} → Services E → (service method : String) → (α → List UInt8) → (List UInt8 → Option β) →
    α → Except E β
  requestFits : (service method : String) → List UInt8 → Prop
  responseFits : Except E (List UInt8) → Prop

/-- A payload that can be read is given to the method.  A request that fits is given to the handler that is entered
under its names, and the client reads the payload of the response, if that fits, or has the handler's error. -/
structure Ttrpc.Laws {E : Type} (T : Ttrpc E) : Prop where
  handles : ∀ {α β : Type} {read : List UInt8 → Option α} {payload req} (f : α → Except E β) (write : β → List UInt8),
    read payload = some req → T.requestHandler read f write payload = (f req).map write
  returns : ∀ {α β : Type} {services : Services E} {service method : String} {h : PayloadHandler E}
    {write : α → List UInt8} {read : List UInt8 → Option β} {req payload resp},
    (services.lookup service).bind (List.lookup method) = some h → T.requestFits service method (write req) →
    T.responseFits (h (write req)) → h (write req) = .ok payload → read payload = some resp →
      T.clientRequest services service method write read req = .ok resp
  fails : ∀ {α β : Type} {services : Services E} {service method : String} {h : PayloadHandler E}
    {write : α → List UInt8} {req e} (read : List UInt8 → Option β),
    (services.lookup service).bind (List.lookup method) = some h → T.requestFits service method (write req) →
    T.responseFits (h (write req)) → h (write req) = .error e →
      T.clientRequest services service method write read req = .error e

/-! ### A call -/

section Calls

variable {E : Type} (T : Ttrpc E) (R : Runtime) (handler : (r : Rpc) → r.Request → Except E r.Response)

/-- The handler of a method, such as `CreateContainerMethod`. -/
def method (r : Rpc) : PayloadHandler E :=
  T.requestHandler (fun bs => (r.request R).merge R bs (r.request R).new) (handler r) ((r.response R).write R)

/-- `create_agent_service`: the methods in the order in which they are inserted. -/
def createAgentService : Services E :=
  [("cloudhv.agent.AgentService",
    [("CreateContainer", method T R handler .createContainer), ("StartContainer", method T R handler .startContainer),
      ("RunContainer", method T R handler .runContainer), ("KillContainer", method T R handler .killContainer),
      ("DeleteContainer", method T R handler .deleteContainer), ("WaitContainer", method T R handler .waitContainer),
      ("ExecProcess", method T R handler .execProcess), ("StateContainer", method T R handler .stateContainer),
      ("GetMemInfo", method T R handler .getMemInfo), ("GetContainerLogs", method T R handler .getContainerLogs),
      ("ConfigureNetwork", method T R handler .configureNetwork),
      ("AdoptContainer", method T R handler .adoptContainer)])]

/-- `create_health_service`. -/
def createHealthService : Services E := [("cloudhv.agent.HealthService", [("Check", method T R handler .check)])]

/-- The services that the agent's server is given. -/
def services : Services E := createAgentService T R handler ++ createHealthService T R handler

/-- A method of `AgentServiceClient` or `HealthServiceClient`. -/
def call (r : Rpc) (req : r.Request) : Except E r.Response :=
  T.clientRequest (services T R handler) r.service r.name ((r.request R).write R)
    (fun bs => (r.response R).merge R bs (r.response R).new) req

variable {T R handler}

/-- The server finds the method that the client names. -/
theorem lookup_own (r : Rpc) : ((services T R handler).lookup r.service).bind (List.lookup r.name) =
    some (method T R handler r) := by
  cases r <;> rfl

theorem request_exact (hR : R.Laws) (r : Rpc) : (r.request R).Exact R := by
  cases r with
  | createContainer => exact CreateContainerRequest.message_exact hR
  | runContainer => exact CreateContainerRequest.message_exact hR
  | startContainer => exact StartContainerRequest.message_exact hR
  | killContainer => exact KillContainerRequest.message_exact hR
  | deleteContainer => exact DeleteContainerRequest.message_exact hR
  | waitContainer => exact WaitContainerRequest.message_exact hR
  | execProcess => exact ExecProcessRequest.message_exact hR
  | stateContainer => exact StateContainerRequest.message_exact hR
  | getMemInfo => exact GetMemInfoRequest.message_exact hR
  | getContainerLogs => exact GetContainerLogsRequest.message_exact hR
  | configureNetwork => exact ConfigureNetworkRequest.message_exact hR
  | adoptContainer => exact AdoptContainerRequest.message_exact hR
  | check => exact CheckRequest.message_exact hR

theorem response_exact (hR : R.Laws) (r : Rpc) : (r.response R).Exact R := by
  cases r with
  | createContainer => exact CreateContainerResponse.message_exact hR
  | startContainer => exact StartContainerResponse.message_exact hR
  | runContainer => exact StartContainerResponse.message_exact hR
  | killContainer => exact KillContainerResponse.message_exact hR
  | deleteContainer => exact DeleteContainerResponse.message_exact hR
  | waitContainer => exact WaitContainerResponse.message_exact hR
  | execProcess => exact ExecProcessResponse.message_exact hR
  | stateContainer => exact StateContainerResponse.message_exact hR
  | getMemInfo => exact GetMemInfoResponse.message_exact hR
  | getContainerLogs => exact GetContainerLogsResponse.message_exact hR
  | configureNetwork => exact ConfigureNetworkResponse.message_exact hR
  | adoptContainer => exact AdoptContainerResponse.message_exact hR
  | check => exact CheckResponse.message_exact hR

/-- A payload that says a request, its fields in any order and with others between them. -/
theorem method_arranged (hT : T.Laws) (hR : R.Laws) {r : Rpc} {req : r.Request} (hreq : (r.request R).size req < 2 ^ 32)
    {es : List Entry} (hes : Vals.Arranged es (r.request R).slots ((r.request R).toVals req))
    (hskip : ∀ e ∈ es, Skipped R (r.request R).slots e) :
    method T R handler r (es.flatMap (Entry.bytes R)) = (handler r req).map ((r.response R).write R) :=
  hT.handles _ _ (Message.merge_arranged hR (request_exact hR r) hreq hes hskip)

theorem method_write (hT : T.Laws) (hR : R.Laws) {r : Rpc} {req : r.Request} (hreq : (r.request R).size req < 2 ^ 32) :
    method T R handler r ((r.request R).write R req) = (handler r req).map ((r.response R).write R) :=
  hT.handles _ _ (Message.merge_write hR (request_exact hR r) hreq)

/-- **A call over the wire is a call of the handler.**  The handler of the method that the client asks for is given the
client's request, and the client its response or its error, if both fit ttrpc's messages.  Requests have the size that
was computed for them, and are read in the same way from any peer that sends their fields in another order, or with
fields that are not known here. -/
theorem rpc_call_exact (hT : T.Laws) (hR : R.Laws) (r : Rpc) (req : r.Request) (hreq : (r.request R).size req < 2 ^ 32)
    (hresp : ∀ resp, handler r req = .ok resp → (r.response R).size resp < 2 ^ 32)
    (hfits : T.requestFits r.service r.name ((r.request R).write R req))
    (hback : T.responseFits ((handler r req).map ((r.response R).write R))) :
    call T R handler r req = handler r req ∧ ((r.request R).write R req).length = (r.request R).size req ∧
      ∀ es, Vals.Arranged es (r.request R).slots ((r.request R).toVals req) →
        (∀ e ∈ es, Skipped R (r.request R).slots e) →
        method T R handler r (es.flatMap (Entry.bytes R)) = (handler r req).map ((r.response R).write R) := by
  have hmethod : method T R handler r ((r.request R).write R req) = (handler r req).map ((r.response R).write R) :=
    method_write hT hR hreq
  have hback' : T.responseFits (method T R handler r ((r.request R).write R req)) := hmethod ▸ hback
  refine ⟨?_, Message.length_write (request_exact hR r) hreq, fun es hes hskip => method_arranged hT hR hreq hes hskip⟩
  cases hres : handler r req with
  | error e =>
    rw [hres] at hmethod
    exact hT.fails _ (lookup_own r) hfits hback' hmethod
  | ok resp =>
    rw [hres] at hmethod
    exact hT.returns (lookup_own r) hfits hback' hmethod (Message.merge_write hR (response_exact hR r) (hresp resp hres))

end Calls

/-- A container with a volume of one file. -/
def runC1 : CreateContainerRequest where
  containerId := "c1"
  bundlePath := ""
  stdin := ""
  stdout := ""
  stderr := ""
  terminal := false
  volumes := [⟨"/etc/app", "", ["ro"], true, 0, "", [⟨"app.conf", [0x78], 420⟩]⟩]
  configJson := [0x7b, 0x7d]
  rootfsPreattached := false
  erofsLayers := 1

/-- A handler that runs every container with the same pid. -/
def runsAll (r : Rpc) (_ : r.Request) : Except String r.Response :=
  match r with
  | .runContainer => .ok (⟨12⟩ : StartContainerResponse)
  | _ => .error "not supported"

/-- ttrpc with messages of up to 4 MiB; an error is a text. -/
def ttrpc4M : Ttrpc String where
  requestHandler read f write payload :=
    match read payload with
    | some req => (f req).map write
    | none => .error "invalid request"
  clientRequest services service method write read req :=
    if 4194304 < (write req).length then .error "request too long"
    else match (services.lookup service).bind (List.lookup method) with
      | none => .error ("/" ++ service ++ "/" ++ method ++ " is not supported")
      | some h =>
        match h (write req) with
        | .error e => .error e
        | .ok payload => if 4194304 < payload.length then .error "response too long" else
          match read payload with
          | some resp => .ok resp
          | none => .error "invalid response"
  requestFits _ _ payload := payload.length ≤ 4194304
  responseFits r := ∀ payload, r = .ok payload → payload.length ≤ 4194304

theorem ttrpc4M_laws : ttrpc4M.Laws where
  handles f write h := by
    simp only [ttrpc4M, h]
  returns hh hfits hback hok hread := by
    have hlen : ¬ 4194304 < _ := Nat.not_lt.mpr (hback _ hok)
    simp only [ttrpc4M, if_neg (Nat.not_lt.mpr hfits), hh, hok, if_neg hlen, hread]
  fails read hh hfits _ herr := by
    simp only [ttrpc4M, if_neg (Nat.not_lt.mpr hfits), hh, herr]

theorem rpc_call_exact_run :
    call ttrpc4M .base128 runsAll .runContainer runC1 = .ok (⟨12⟩ : StartContainerResponse) ∧
      ((CreateContainerRequest.message .base128).write .base128 runC1).length = 46 := by
  have hresp : ∀ resp, runsAll .runContainer runC1 = .ok resp → (Rpc.runContainer.response .base128).size resp < 2 ^ 32 := by
    intro resp h
    cases h
    decide +kernel
  have hfits : ((CreateContainerRequest.message .base128).write .base128 runC1).length ≤ 4194304 := by decide +kernel
  have hback : ttrpc4M.responseFits
      ((runsAll .runContainer runC1).map ((Rpc.runContainer.response .base128).write .base128)) := by
    rintro payload h
    obtain rfl := Except.ok.inj h
    decide +kernel
  obtain ⟨hcall, hlen, -⟩ :=
    rpc_call_exact ttrpc4M_laws base128_laws .runContainer runC1 (by decide +kernel) hresp hfits hback
  refine ⟨hcall, hlen.trans ?_⟩
  decide +kernel

end CloudHv.AgentProto
