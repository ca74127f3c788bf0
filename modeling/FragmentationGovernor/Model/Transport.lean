import FragmentationGovernor.Model.Coordinator

/-! # The server loop and the streams

`TcpServer::serve` of `coordinator/tcp_transport.cpp` as a step function. Each connection
has a thread with its own `conn_worker`; frames are handled one at a time under the
mutex, and a `ValueError` escapes its thread and ends the process. A stream is the list of
the chunks that successive `recv` calls return. -/

namespace FragmentationGovernor

structure TcpServer where
  coord : Coordinator
  /-- `conn_worker` of each open connection -/
  conns : OrdMap ℕ UInt64 := ∅
  /-- connections are numbered as they are accepted -/
  nextConn : ℕ := 0
  terminated : Bool := false

/-- A new connection, a decoded frame on a connection, or the end of one. -/
inductive TcpEvent
  | connect
  | frame (conn : ℕ) (fs : Codec.SaveOutcome) (m : Message)
  | close (conn : ℕ)

namespace TcpServer

def start (epoch : CoordinatorEpoch) : TcpServer := { coord := Coordinator.new epoch }

/-- A REGISTER sets `conn_worker` whether or not it is accepted. -/
def connWorker (old : UInt64) (m : Message) : UInt64 :=
  if m.type = .register then m.workerId else old

def handleFrame (s : TcpServer) (conn : ℕ) (old : UInt64) (fs : Codec.SaveOutcome)
    (m : Message) : TcpServer :=
  let outcome := Coordinator.handle fs s.coord m
  { s with
    coord := outcome.1
    conns := s.conns.insert conn (connWorker old m)
    terminated := match outcome.2 with
      | .ok _ => false
      | .error _ => true }

def handleClose (s : TcpServer) (conn : ℕ) (worker : UInt64) : TcpServer :=
  { s with
    coord := if worker ≠ 0 then s.coord.markWorkerDead ⟨worker⟩ else s.coord
    conns := s.conns.erase conn }

/-- Events on a connection that is not open do not happen. -/
def step (s : TcpServer) (e : TcpEvent) : TcpServer :=
  if s.terminated then s
  else
    match e with
    | .connect => { s with conns := s.conns.insert s.nextConn 0, nextConn := s.nextConn + 1 }
    | .frame conn fs m =>
        match s.conns.find? conn with
        | some old => s.handleFrame conn old fs m
        | none => s
    | .close conn =>
        match s.conns.find? conn with
        | some worker => s.handleClose conn worker
        | none => s

end TcpServer

/-! ## Streams -/

namespace Protocol.FrameDecoder

/-- The receive loop of a connection: one `feed` for each chunk, and the messages they
return. -/
def feedAll (d : FrameDecoder) :
    List (List UInt8) → Except ValueError (FrameDecoder × List Message)
  | [] => .ok (d, [])
  | chunk :: rest =>
      match d.feed chunk with
      | (_, .error e) => .error e
      | (d, .ok m) => do
          let (d, ms) ← feedAll d rest
          .ok (d, m.toList ++ ms)

end Protocol.FrameDecoder

namespace TcpClient

open Protocol

/-- Feeds chunks until there is a message; none when the stream ends before. The second
component is what `recv` has still to return. -/
def recvWith (d : FrameDecoder) :
    List (List UInt8) → Except ValueError (Option Message) × List (List UInt8)
  | [] => (.ok none, [])
  | chunk :: rest =>
      if chunk.isEmpty then (.ok none, rest)
      else
        match d.feed chunk with
        | (_, .error e) => (.error e, rest)
        | (_, .ok (some m)) => (.ok (some m), rest)
        | (d, .ok none) => recvWith d rest

/-- Every call starts with a decoder of its own. -/
def recvFrame (chunks : List (List UInt8)) :
    Except ValueError (Option Message) × List (List UInt8) :=
  recvWith {} chunks

/-- What `k` successive calls return. -/
def recvFrames : ℕ → List (List UInt8) → List (Except ValueError (Option Message))
  | 0, _ => []
  | k + 1, chunks =>
      let (r, rest) := recvFrame chunks
      r :: recvFrames k rest

end TcpClient

end FragmentationGovernor
