import FragmentationGovernor.Library.Run
import FragmentationGovernor.Model.Service
import FragmentationGovernor.Verification.Transport.Liveness

/-! # The threads take turns

Whatever the peers send and however the threads interleave, the server does what a server
does that handles whole frames one at a time, in the order of the lock. -/

namespace FragmentationGovernor

open Protocol

namespace Service

/-! ## What a step can do -/

/-- The steps of a service that has not terminated. -/
inductive Moves (s : Service) : ServiceAction → Service → Prop
  | stays {a} : Moves s a s
  | accepts {client} : Moves s (.accept client) (s.acceptPeer client)
  | calls {conn request l} (hl : s.links.find? conn = some l) (hpeer : l.peer = .idle) :
      Moves s (.call conn request)
        ((s.setLink conn
          { l with toServer := l.toServer ++ frameEncode request, peer := .waiting {} }).observe
            (.called conn request))
  | pushes {conn bytes l} (hl : s.links.find? conn = some l) (hpeer : l.peer = .foreign) :
      Moves s (.push conn bytes) (s.setLink conn { l with toServer := l.toServer ++ bytes })
  | hangsUp {conn l} (hl : s.links.find? conn = some l) :
      Moves s (.hangUp conn) (s.setLink conn { l with peer := .gone })
  | takes {conn n l dec dec' chunk rest} (hl : s.links.find? conn = some l)
      (hthread : l.thread = .receiving dec) (hne : chunk ≠ [])
      (hsplit : l.toServer = chunk ++ rest)
      (hfeed : dec.feed chunk = (dec', .ok none)) :
      Moves s (.receive conn n)
        (s.setLink conn { l with toServer := rest, thread := .receiving dec' })
  | decodes {conn n l dec dec' chunk rest m} (hl : s.links.find? conn = some l)
      (hthread : l.thread = .receiving dec) (hne : chunk ≠ [])
      (hsplit : l.toServer = chunk ++ rest)
      (hfeed : dec.feed chunk = (dec', .ok (some m))) :
      Moves s (.receive conn n)
        (s.setLink conn { l with toServer := rest, thread := .handling dec' m })
  | raises {conn n} : Moves s (.receive conn n) { s with terminated := true }
  | leaves {conn l dec} (hl : s.links.find? conn = some l)
      (hthread : l.thread = .receiving dec) (hpeer : l.peer = .gone) :
      Moves s (.leave conn) (s.setLink conn { l with thread := .closing })
  | handles {conn fs l dec m} (hl : s.links.find? conn = some l)
      (hthread : l.thread = .handling dec m) : Moves s (.lock conn fs) (s.lock conn l fs)
  | closes {conn fs l} (hl : s.links.find? conn = some l) (hthread : l.thread = .closing) :
      Moves s (.lock conn fs) (s.lock conn l fs)
  | replies {conn l dec replies} (hl : s.links.find? conn = some l)
      (hthread : l.thread = .replying dec replies) :
      Moves s (.reply conn)
        (s.setLink conn
          { l with
            toClient := l.toClient ++ replies.flatMap frameEncode
            thread := .receiving dec })
  | reads {conn n l dec dec' chunk rest} (hl : s.links.find? conn = some l)
      (hpeer : l.peer = .waiting dec) (hne : chunk ≠ []) (hsplit : l.toClient = chunk ++ rest)
      (hfeed : dec.feed chunk = (dec', .ok none)) :
      Moves s (.read conn n) (s.setLink conn { l with toClient := rest, peer := .waiting dec' })
  | returns {conn n l dec dec' chunk rest m} (hl : s.links.find? conn = some l)
      (hpeer : l.peer = .waiting dec) (hne : chunk ≠ []) (hsplit : l.toClient = chunk ++ rest)
      (hfeed : dec.feed chunk = (dec', .ok (some m))) :
      Moves s (.read conn n)
        ((s.setLink conn { l with toClient := rest, peer := .idle }).observe (.returned conn m))
  | aborts {conn n l rest} (hl : s.links.find? conn = some l) :
      Moves s (.read conn n) (s.setLink conn { l with toClient := rest, peer := .gone })

variable {s : Service}

theorem step_of_terminated (h : s.terminated = true) (a : ServiceAction) : s.step a = s := by
  simp [step, h]

theorem moves_onLink {a : ServiceAction} {conn : ℕ} {k : Link → Service}
    (h : ∀ l, s.links.find? conn = some l → Moves s a (k l)) : Moves s a (s.onLink conn k) := by
  unfold onLink
  cases hl : s.links.find? conn with
  | none => exact .stays
  | some l => exact h l hl

theorem take_ne_nil {stream : List UInt8} {n : ℕ} (h : available stream n = true) :
    stream.take n ≠ [] := by
  obtain ⟨hpos, -, hne⟩ := of_decide_eq_true h
  simp only [ne_eq, List.take_eq_nil_iff, not_or]
  exact ⟨hpos.ne', hne⟩

theorem moves_receive {conn n : ℕ} {l : Link} (hl : s.links.find? conn = some l) :
    Moves s (.receive conn n) (s.receive conn l n) := by
  unfold receive
  cases hthread : l.thread with
  | receiving dec =>
      dsimp only
      by_cases havail : available l.toServer n = true
      · rw [if_pos havail]
        have hne := take_ne_nil havail
        have hsplit := (List.take_append_drop n l.toServer).symm
        cases hfeed : dec.feed (l.toServer.take n) with
        | mk dec' r =>
            cases r with
            | error e => exact .raises
            | ok m =>
                cases m with
                | none => exact .takes hl hthread hne hsplit hfeed
                | some m => exact .decodes hl hthread hne hsplit hfeed
      · rw [if_neg havail]
        exact .stays
  | handling dec m => exact .stays
  | replying dec rs => exact .stays
  | closing => exact .stays

theorem moves_read {conn n : ℕ} {l : Link} (hl : s.links.find? conn = some l) :
    Moves s (.read conn n) (s.read conn l n) := by
  unfold read
  cases hpeer : l.peer with
  | waiting dec =>
      dsimp only
      by_cases havail : available l.toClient n = true
      · rw [if_pos havail]
        have hne := take_ne_nil havail
        have hsplit := (List.take_append_drop n l.toClient).symm
        cases hfeed : dec.feed (l.toClient.take n) with
        | mk dec' r =>
            cases r with
            | error e => exact .aborts hl
            | ok m =>
                cases m with
                | none => exact .reads hl hpeer hne hsplit hfeed
                | some m => exact .returns hl hpeer hne hsplit hfeed
      · rw [if_neg havail]
        exact .stays
  | idle => exact .stays
  | foreign => exact .stays
  | gone => exact .stays

theorem moves_lock {conn : ℕ} {fs : Codec.SaveOutcome} {l : Link}
    (hl : s.links.find? conn = some l) : Moves s (.lock conn fs) (s.lock conn l fs) := by
  cases hthread : l.thread with
  | handling dec m => exact .handles hl hthread
  | closing => exact .closes hl hthread
  | receiving dec =>
      rw [lock, hthread]
      exact .stays
  | replying dec rs =>
      rw [lock, hthread]
      exact .stays

theorem step_moves (h : s.terminated = false) (a : ServiceAction) : Moves s a (s.step a) := by
  unfold step
  rw [h, if_neg (by decide)]
  cases a with
  | accept client => exact .accepts
  | call conn request =>
      refine moves_onLink fun l hl => ?_
      unfold call
      cases hpeer : l.peer with
      | idle => exact .calls hl hpeer
      | _ => exact .stays
  | push conn bytes =>
      refine moves_onLink fun l hl => ?_
      unfold push
      cases hpeer : l.peer with
      | foreign =>
          have hmove : Moves s (.push conn bytes) _ := .pushes hl hpeer
          simpa only [hpeer] using hmove
      | _ => exact .stays
  | hangUp conn => exact moves_onLink fun l hl => .hangsUp hl
  | receive conn n => exact moves_onLink fun l hl => moves_receive hl
  | leave conn =>
      refine moves_onLink fun l hl => ?_
      unfold leave
      cases hthread : l.thread with
      | receiving dec =>
          cases hpeer : l.peer with
          | gone => simpa only [hpeer] using Moves.leaves hl hthread hpeer
          | _ => exact .stays
      | _ => exact .stays
  | lock conn fs => exact moves_onLink fun l hl => moves_lock hl
  | reply conn =>
      refine moves_onLink fun l hl => ?_
      unfold reply
      cases hthread : l.thread with
      | replying dec rs => exact .replies hl hthread
      | _ => exact .stays
  | read conn n => exact moves_onLink fun l hl => moves_read hl

/-! ## The server of whole frames -/

end Service

/-- The event of the server of whole frames behind an observation. -/
def Observation.event : Observation → Option TcpEvent
  | .accepted _ _ => some .connect
  | .handled conn fs m _ => some (.frame conn fs m)
  | .closed conn => some (.close conn)
  | .called _ _ => none
  | .returned _ _ => none

/-- The server that handles the frames of a history one after the other. -/
def sequential (epoch : CoordinatorEpoch) (history : List Observation) : TcpServer :=
  runFrom TcpServer.step (TcpServer.start epoch) (history.filterMap Observation.event)

/-- The outcome of every message is the one it has after the messages before it. -/
def Sequential (epoch : CoordinatorEpoch) (history : List Observation) : Prop :=
  ∀ front conn fs m outcome back, history = front ++ .handled conn fs m outcome :: back →
    outcome = (Coordinator.handle fs (sequential epoch front).coord m).2

section History

variable {epoch : CoordinatorEpoch} {history : List Observation} {o : Observation}

theorem sequential_snoc {e : TcpEvent} (h : o.event = some e) :
    sequential epoch (history ++ [o]) = (sequential epoch history).step e := by
  rw [sequential, List.filterMap_append, List.filterMap_cons_some h, List.filterMap_nil,
    runFrom_snoc]
  rfl

theorem sequential_snoc_of_none (h : o.event = none) :
    sequential epoch (history ++ [o]) = sequential epoch history := by
  rw [sequential, List.filterMap_append, List.filterMap_cons_none h, List.filterMap_nil,
    List.append_nil]
  rfl

theorem sequential_nil : Sequential epoch [] := by
  intro front conn fs m outcome back h
  simp at h

/-- A history stays sequential when what is added to it is. -/
theorem Sequential.snoc (h : Sequential epoch history)
    (ho : ∀ conn fs m outcome, o = .handled conn fs m outcome →
      outcome = (Coordinator.handle fs (sequential epoch history).coord m).2) :
    Sequential epoch (history ++ [o]) := by
  intro front conn fs m outcome back hsplit
  rcases List.eq_nil_or_concat back with rfl | ⟨back, o', rfl⟩
  · obtain ⟨rfl, heq⟩ := List.append_inj' hsplit rfl
    exact ho conn fs m outcome (List.cons.inj heq).1
  · have hback : history ++ [o] = (front ++ .handled conn fs m outcome :: back) ++ [o'] := by
      simp [hsplit]
    exact h front conn fs m outcome back (List.append_inj' hback rfl).1

end History

namespace Service

/-- The state is the one the observed frames lead to. -/
structure Explained (epoch : CoordinatorEpoch) (s : Service) : Prop where
  coord : s.coord = (sequential epoch s.history).coord
  conns : s.links.mapVals (fun _ l => l.worker) = (sequential epoch s.history).conns
  nextConn : s.nextConn = (sequential epoch s.history).nextConn
  running : s.terminated = false → (sequential epoch s.history).terminated = false
  outcomes : Sequential epoch s.history

variable {epoch : CoordinatorEpoch} {s : Service}

theorem explained_start (epoch : CoordinatorEpoch) : Explained epoch (start epoch) :=
  ⟨rfl, rfl, rfl, fun _ => rfl, sequential_nil⟩

theorem Explained.find?_conns (h : Explained epoch s) {conn : ℕ} {l : Link}
    (hl : s.links.find? conn = some l) :
    (sequential epoch s.history).conns.find? conn = some l.worker := by
  rw [← h.conns, OrdMap.find?_mapVals, hl]
  rfl

theorem mapVals_setLink (s : Service) {conn : ℕ} {l l' : Link}
    (hl : s.links.find? conn = some l) (hworker : l'.worker = l.worker) :
    (s.setLink conn l').links.mapVals (fun _ l => l.worker) =
      s.links.mapVals (fun _ l => l.worker) := by
  apply OrdMap.ext_find?
  intro k
  rw [setLink, OrdMap.mapVals_insert, OrdMap.find?_insert]
  split_ifs with hk
  · rw [hk, OrdMap.find?_mapVals, hl, hworker]
    rfl
  · rfl

/-- A step of a peer or of a thread outside the lock is not an event of the server. -/
theorem Explained.setLink (h : Explained epoch s) {conn : ℕ} {l l' : Link}
    (hl : s.links.find? conn = some l) (hworker : l'.worker = l.worker) :
    Explained epoch (s.setLink conn l') :=
  ⟨h.coord, (mapVals_setLink s hl hworker).trans h.conns, h.nextConn, h.running, h.outcomes⟩

theorem Explained.observe (h : Explained epoch s) {o : Observation} (ho : o.event = none) :
    Explained epoch (s.observe o) := by
  have hsame := @sequential_snoc_of_none epoch s.history o ho
  refine ⟨?_, ?_, ?_, ?_, h.outcomes.snoc ?_⟩
  · exact h.coord.trans (congrArg _ hsame.symm)
  · exact h.conns.trans (congrArg _ hsame.symm)
  · exact h.nextConn.trans (congrArg _ hsame.symm)
  · intro hrun
    exact (congrArg _ hsame).trans (h.running hrun)
  · rintro conn fs m outcome rfl
    cases ho

theorem Explained.acceptPeer (h : Explained epoch s) (hrun : s.terminated = false)
    (client : Bool) : Explained epoch (s.acceptPeer client) := by
  have hstep : sequential epoch (s.acceptPeer client).history =
      { sequential epoch s.history with
        conns := (sequential epoch s.history).conns.insert s.nextConn 0
        nextConn := s.nextConn + 1 } := by
    rw [Service.acceptPeer, sequential_snoc rfl, TcpServer.step_connect (h.running hrun),
      h.nextConn]
  refine ⟨?_, ?_, ?_, ?_, h.outcomes.snoc ?_⟩
  · rw [hstep]
    exact h.coord
  · rw [hstep]
    change (s.links.insert _ _).mapVals _ = _
    rw [OrdMap.mapVals_insert, h.conns]
  · rw [hstep]
    rfl
  · rw [hstep]
    exact h.running
  · rintro conn fs m outcome ⟨⟩

theorem Explained.handle (h : Explained epoch s) (hrun : s.terminated = false) {conn : ℕ}
    {l : Link} (hl : s.links.find? conn = some l) {dec : FrameDecoder} {m : Message}
    (hthread : l.thread = .handling dec m) (fs : Codec.SaveOutcome) :
    Explained epoch (s.lock conn l fs) := by
  have hevent : Observation.event (.handled conn fs m (Coordinator.handle fs s.coord m).2) =
      some (.frame conn fs m) := rfl
  have hstep := @sequential_snoc epoch s.history _ _ hevent
  rw [TcpServer.step_frame (h.running hrun) (h.find?_conns hl)] at hstep
  unfold lock
  rw [hthread]
  refine ⟨?_, ?_, ?_, ?_, h.outcomes.snoc ?_⟩
  · rw [hstep, TcpServer.handleFrame, ← h.coord]
  · rw [hstep, TcpServer.handleFrame, ← h.conns, OrdMap.mapVals_insert]
  · rw [hstep]
    exact h.nextConn
  · rw [hstep, TcpServer.handleFrame, ← h.coord]
    exact id
  · rintro conn' fs' m' outcome ⟨⟩
    rw [h.coord]

theorem Explained.close (h : Explained epoch s) (hrun : s.terminated = false) {conn : ℕ}
    {l : Link} (hl : s.links.find? conn = some l) (hthread : l.thread = .closing)
    (fs : Codec.SaveOutcome) : Explained epoch (s.lock conn l fs) := by
  have hstep := @sequential_snoc epoch s.history (.closed conn) _ rfl
  rw [TcpServer.step_close (h.running hrun) (h.find?_conns hl)] at hstep
  unfold lock
  rw [hthread]
  refine ⟨?_, ?_, ?_, ?_, h.outcomes.snoc ?_⟩
  · rw [hstep, TcpServer.handleClose, ← h.coord]
  · rw [hstep, TcpServer.handleClose, ← h.conns, OrdMap.mapVals_erase]
  · rw [hstep]
    exact h.nextConn
  · rw [hstep]
    exact h.running
  · rintro conn' fs' m' outcome ⟨⟩

theorem Explained.step (h : Explained epoch s) (a : ServiceAction) :
    Explained epoch (s.step a) := by
  cases hterm : s.terminated with
  | true =>
      rw [step_of_terminated hterm]
      exact h
  | false =>
      have hmove := step_moves hterm a
      generalize s.step a = s' at hmove
      cases hmove with
      | stays => exact h
      | accepts => exact h.acceptPeer hterm _
      | calls hl _ => exact Explained.observe (h.setLink hl (by rfl)) rfl
      | pushes hl _ => exact h.setLink hl rfl
      | hangsUp hl => exact h.setLink hl rfl
      | takes hl _ _ _ _ => exact h.setLink hl rfl
      | decodes hl _ _ _ _ => exact h.setLink hl rfl
      | raises => exact ⟨h.coord, h.conns, h.nextConn, by simp, h.outcomes⟩
      | leaves hl _ _ => exact h.setLink hl rfl
      | handles hl hthread => exact h.handle hterm hl hthread _
      | closes hl hthread => exact h.close hterm hl hthread _
      | replies hl _ => exact h.setLink hl rfl
      | reads hl _ _ _ _ => exact h.setLink hl rfl
      | returns hl _ _ _ _ => exact Explained.observe (h.setLink hl (by rfl)) rfl
      | aborts hl => exact h.setLink hl rfl

theorem explained_run (epoch : CoordinatorEpoch) (actions : List ServiceAction) :
    Explained epoch (runFrom step (start epoch) actions) :=
  runFrom_invariant (explained_start epoch) (fun _ a h => h.step a) actions

/-- Every run over the bytes of the sockets is a run of the server that handles whole frames
one at a time: it leaves the same coordinator and the same connections, and every outcome is
the one the messages handled before it lead to. -/
theorem refines_tcpServer (epoch : CoordinatorEpoch) (actions : List ServiceAction) :
    let s := runFrom step (start epoch) actions
    s.coord = (sequential epoch s.history).coord ∧
      s.links.mapVals (fun _ l => l.worker) = (sequential epoch s.history).conns ∧
      ((sequential epoch s.history).terminated = true → s.terminated = true) ∧
      Sequential epoch s.history := by
  intro s
  have h := explained_run epoch actions
  refine ⟨h.coord, h.conns, ?_, h.outcomes⟩
  intro hterm
  by_contra hrun
  rw [h.running (Bool.eq_false_of_not_eq_true hrun)] at hterm
  cases hterm

end Service

end FragmentationGovernor
