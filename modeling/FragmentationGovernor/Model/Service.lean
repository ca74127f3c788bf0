import FragmentationGovernor.Model.Transport

/-! # The threads of the server and its clients

`TcpServer::serve` and `TcpClient` of `coordinator/tcp_transport.cpp` down to the bytes in
the sockets. A thread of the server is observed between the calls that others can notice: a
`recv`, the lock around the coordinator, a `send`. At the far end of a connection is a
`TcpClient` that waits for the reply to each of its requests, or any other program. A `recv`
returns any part of what is in front of the stream, up to the size of the buffer. -/

namespace FragmentationGovernor

open Protocol

/-- Where the thread of a connection stands. -/
inductive Thread
  | receiving (dec : FrameDecoder)
  /-- a message is decoded, the lock is not yet taken -/
  | handling (dec : FrameDecoder) (m : Message)
  /-- the lock is released, the replies are not yet sent -/
  | replying (dec : FrameDecoder) (replies : List Message)
  /-- the socket is closed, the worker is not yet marked dead -/
  | closing

/-- The program at the far end of a connection. -/
inductive Peer
  /-- a `TcpClient` between two requests -/
  | idle
  /-- a `TcpClient` inside `recv_frame` -/
  | waiting (dec : FrameDecoder)
  /-- a program that sends what it likes -/
  | foreign
  | gone

structure Link where
  toServer : List UInt8 := []
  toClient : List UInt8 := []
  /-- `conn_worker` -/
  worker : UInt64 := 0
  thread : Thread := .receiving {}
  peer : Peer

/-- What happens at the two ends of a connection and under the lock. -/
inductive Observation
  | accepted (conn : ℕ) (client : Bool)
  | called (conn : ℕ) (request : Message)
  | handled (conn : ℕ) (fs : Codec.SaveOutcome) (m : Message)
      (outcome : Except ValueError (List Message))
  | returned (conn : ℕ) (reply : Message)
  | closed (conn : ℕ)

structure Service where
  coord : Coordinator
  links : OrdMap ℕ Link := ∅
  nextConn : ℕ := 0
  terminated : Bool := false
  /-- everything observed so far, in order -/
  history : List Observation := []

/-- The steps the threads and the peers take, in any order. -/
inductive ServiceAction
  | accept (client : Bool)
  /-- a client sends a request and waits for the reply -/
  | call (conn : ℕ) (request : Message)
  | push (conn : ℕ) (bytes : List UInt8)
  | hangUp (conn : ℕ)
  /-- a `recv` of the server returns `n` bytes -/
  | receive (conn n : ℕ)
  /-- a `recv` of the server returns nothing or an error -/
  | leave (conn : ℕ)
  | lock (conn : ℕ) (fs : Codec.SaveOutcome)
  | reply (conn : ℕ)
  /-- a `recv` of a client returns `n` bytes -/
  | read (conn n : ℕ)

namespace Service

def start (epoch : CoordinatorEpoch) : Service := { coord := Coordinator.new epoch }

/-- The size of the buffer of a `recv`. -/
def recvBuffer : ℕ := 4096

/-- A `recv` that asks for this many bytes returns some. -/
def available (stream : List UInt8) (n : ℕ) : Bool :=
  decide (0 < n ∧ n ≤ recvBuffer ∧ stream ≠ [])

def setLink (s : Service) (conn : ℕ) (l : Link) : Service :=
  { s with links := s.links.insert conn l }

def observe (s : Service) (o : Observation) : Service :=
  { s with history := s.history ++ [o] }

def acceptPeer (s : Service) (client : Bool) : Service :=
  { s with
    links := s.links.insert s.nextConn { peer := if client then .idle else .foreign }
    nextConn := s.nextConn + 1
    history := s.history ++ [.accepted s.nextConn client] }

/-! ## The peers -/

/-- `send_frame`, followed by the call of `recv_frame`. -/
def call (s : Service) (conn : ℕ) (l : Link) (request : Message) : Service :=
  match l.peer with
  | .idle =>
      (s.setLink conn
        { l with toServer := l.toServer ++ frameEncode request, peer := .waiting {} }).observe
          (.called conn request)
  | _ => s

def push (s : Service) (conn : ℕ) (l : Link) (bytes : List UInt8) : Service :=
  match l.peer with
  | .foreign => s.setLink conn { l with toServer := l.toServer ++ bytes }
  | _ => s

/-- The loop of `recv_frame`: a message ends the call, a `ValueError` the program. -/
def read (s : Service) (conn : ℕ) (l : Link) (n : ℕ) : Service :=
  match l.peer with
  | .waiting dec =>
      if available l.toClient n then
        let left := { l with toClient := l.toClient.drop n }
        match dec.feed (l.toClient.take n) with
        | (_, .error _) => s.setLink conn { left with peer := .gone }
        | (dec, .ok none) => s.setLink conn { left with peer := .waiting dec }
        | (_, .ok (some m)) =>
            (s.setLink conn { left with peer := .idle }).observe (.returned conn m)
      else s
  | _ => s

/-! ## The threads -/

/-- A `ValueError` of the decoder escapes the thread and ends the process. -/
def receive (s : Service) (conn : ℕ) (l : Link) (n : ℕ) : Service :=
  match l.thread with
  | .receiving dec =>
      if available l.toServer n then
        let left := { l with toServer := l.toServer.drop n }
        match dec.feed (l.toServer.take n) with
        | (_, .error _) => { s with terminated := true }
        | (dec, .ok none) => s.setLink conn { left with thread := .receiving dec }
        | (dec, .ok (some m)) => s.setLink conn { left with thread := .handling dec m }
      else s
  | _ => s

/-- A `recv` fails only when the peer has gone, with or without bytes left to read. -/
def leave (s : Service) (conn : ℕ) (l : Link) : Service :=
  match l.thread, l.peer with
  | .receiving _, .gone => s.setLink conn { l with thread := .closing }
  | _, _ => s

/-- The calls made under the mutex. -/
def lock (s : Service) (conn : ℕ) (l : Link) (fs : Codec.SaveOutcome) : Service :=
  match l.thread with
  | .handling dec m =>
      let outcome := Coordinator.handle fs s.coord m
      { s with
        coord := outcome.1
        links := s.links.insert conn
          { l with
            worker := TcpServer.connWorker l.worker m
            thread := match outcome.2 with
              | .ok replies => .replying dec replies
              | .error _ => .closing }
        terminated := match outcome.2 with
          | .ok _ => false
          | .error _ => true
        history := s.history ++ [.handled conn fs m outcome.2] }
  | .closing =>
      { s with
        coord := if l.worker ≠ 0 then s.coord.markWorkerDead ⟨l.worker⟩ else s.coord
        links := s.links.erase conn
        history := s.history ++ [.closed conn] }
  | _ => s

def reply (s : Service) (conn : ℕ) (l : Link) : Service :=
  match l.thread with
  | .replying dec replies =>
      s.setLink conn
        { l with
          toClient := l.toClient ++ replies.flatMap frameEncode
          thread := .receiving dec }
  | _ => s

/-! ## Steps -/

/-- A step on a connection that is not there does not happen. -/
def onLink (s : Service) (conn : ℕ) (k : Link → Service) : Service :=
  match s.links.find? conn with
  | some l => k l
  | none => s

/-- A step that its thread or peer is not ready for does not happen either. -/
def step (s : Service) (a : ServiceAction) : Service :=
  if s.terminated then s
  else
    match a with
    | .accept client => s.acceptPeer client
    | .call conn request => s.onLink conn fun l => s.call conn l request
    | .push conn bytes => s.onLink conn fun l => s.push conn l bytes
    | .hangUp conn => s.onLink conn fun l => s.setLink conn { l with peer := .gone }
    | .receive conn n => s.onLink conn fun l => s.receive conn l n
    | .leave conn => s.onLink conn fun l => s.leave conn l
    | .lock conn fs => s.onLink conn fun l => s.lock conn l fs
    | .reply conn => s.onLink conn fun l => s.reply conn l
    | .read conn n => s.onLink conn fun l => s.read conn l n

end Service

end FragmentationGovernor
