import FragmentationGovernor.Model.Transport
import FragmentationGovernor.Verification.Coordinator.Evidence

/-! # Liveness and connections

A server is observed together with the connection over which each worker was last
registered. Liveness follows those connections exactly as long as every close meets a
condition on the state it finds. -/

namespace FragmentationGovernor

namespace Coordinator

/-! ## Liveness in the coordinator -/

def Alive (c : Coordinator) (w : WorkerId) : Prop := c.workerAlive.find? w = some true

instance (c : Coordinator) (w : WorkerId) : Decidable (c.Alive w) :=
  inferInstanceAs (Decidable (_ = _))

/-- The registrations that are accepted. -/
def Registers (m : Message) (w : WorkerId) : Prop :=
  m.type = .register ∧ m.workerBoot ≠ 0 ∧ m.worker = w

theorem alive_markWorkerDead_iff (c : Coordinator) (w w' : WorkerId) :
    (c.markWorkerDead w).Alive w' ↔ w' ≠ w ∧ c.Alive w' := by
  rw [Alive, find?_markWorkerDead_alive]
  by_cases hw : w' = w
  · rw [if_pos hw]
    simp [hw]
  · rw [if_neg hw]
    simp [hw, Alive]

theorem alive_dropStale_of_ne (c : Coordinator) (m : Message) {w : WorkerId}
    (hw : w ≠ m.worker) : (c.dropStale m).Alive w ↔ c.Alive w := by
  rcases dropStale_cases c m with ⟨heq, -⟩ | ⟨heq, -⟩
  · rw [heq]
  · rw [heq, alive_markWorkerDead_iff]
    exact and_iff_right hw

theorem alive_register_iff (c : Coordinator) (m : Message) (w : WorkerId) :
    (c.register m).Alive w ↔ w = m.worker ∨ c.Alive w := by
  change ((c.dropStale m).workerAlive.insert m.worker true).find? w = some true ↔ _
  rw [OrdMap.find?_insert]
  by_cases hw : w = m.worker
  · rw [if_pos hw]
    simp [hw]
  · rw [if_neg hw]
    simp only [hw, false_or]
    exact c.alive_dropStale_of_ne m hw

/-- Handling a message makes a worker alive by registering it and in no other way, and
never makes one dead. -/
theorem Consistent.alive_handle_iff {c : Coordinator} (h : c.Consistent)
    (fs : Codec.SaveOutcome) (m : Message) (w : WorkerId) :
    (handle fs c m).1.Alive w ↔ Registers m w ∨ c.Alive w := by
  by_cases htype : m.type = .register
  · rw [handle_register htype, handleRegister]
    by_cases hboot : m.workerBoot = 0
    · rw [if_pos hboot]
      simp [Registers, hboot, reject]
    · rw [if_neg hboot]
      change (c.register m).Alive w ↔ _
      rw [alive_register_iff]
      simp [Registers, htype, hboot, eq_comm]
  · have hsame : (handle fs c m).1.workerAlive = c.workerAlive := by
      have he := h.handle_effect fs m
      generalize handle fs c m = o at he
      cases he with
      | registered hreg _ => exact (htype hreg).elim
      | advanced _ _ => exact (sameEvidence_advance c _).workerAlive
      | _ => rfl
    simp [Alive, hsame, Registers, htype]

/-- A registration is accepted exactly when it carries a boot id. -/
theorem accepted_register_iff (fs : Codec.SaveOutcome) (c : Coordinator) {m : Message}
    (htype : m.type = .register) : Accepted (handle fs c m) ↔ m.workerBoot ≠ 0 := by
  rw [handle_register htype, handleRegister]
  by_cases hboot : m.workerBoot = 0
  · rw [if_pos hboot]
    simp [Accepted, reject, fail, hboot]
  · rw [if_neg hboot]
    simp [Accepted, accept, done, hboot]

end Coordinator

open Coordinator

/-! ## Steps of the server -/

namespace TcpServer

variable {s : TcpServer}

theorem step_of_terminated (h : s.terminated = true) (e : TcpEvent) : s.step e = s := by
  simp [step, h]

theorem step_connect (h : s.terminated = false) :
    s.step .connect =
      { s with conns := s.conns.insert s.nextConn 0, nextConn := s.nextConn + 1 } := by
  simp [step, h]

theorem step_frame (h : s.terminated = false) {conn : ℕ} {old : UInt64}
    (hconn : s.conns.find? conn = some old) (fs : Codec.SaveOutcome) (m : Message) :
    s.step (.frame conn fs m) = s.handleFrame conn old fs m := by
  simp [step, h, hconn]

theorem step_close (h : s.terminated = false) {conn : ℕ} {worker : UInt64}
    (hconn : s.conns.find? conn = some worker) :
    s.step (.close conn) = s.handleClose conn worker := by
  simp [step, h, hconn]

/-- Frames and closes of a connection that is not open do not happen. -/
theorem step_of_not_open {conn : ℕ} (hconn : s.conns.find? conn = none) {e : TcpEvent}
    (he : (∃ fs m, e = .frame conn fs m) ∨ e = .close conn) : s.step e = s := by
  rcases he with ⟨fs, m, rfl⟩ | rfl
  · simp [step, hconn]
  · simp [step, hconn]

end TcpServer

/-! ## Observed servers -/

/-- A server with the connection whose REGISTER for each worker was accepted last. -/
structure Observed where
  server : TcpServer
  registrant : OrdMap WorkerId ℕ := ∅

namespace Observed

def start (epoch : CoordinatorEpoch) : Observed := { server := TcpServer.start epoch }

/-- The frame is handled and its REGISTER accepted. -/
def Admits (s : TcpServer) (conn : ℕ) (fs : Codec.SaveOutcome) (m : Message) : Prop :=
  s.terminated = false ∧ (∃ old, s.conns.find? conn = some old) ∧ m.type = .register ∧
    Accepted (handle fs s.coord m)

theorem admits_iff {s : TcpServer} {conn : ℕ} {fs : Codec.SaveOutcome} {m : Message} :
    Admits s conn fs m ↔ s.terminated = false ∧ s.conns.contains conn = true ∧
      m.type = .register ∧ m.workerBoot ≠ 0 := by
  rw [Admits, OrdMap.contains_iff]
  constructor
  · rintro ⟨hrun, hconn, htype, hacc⟩
    exact ⟨hrun, hconn, htype, (accepted_register_iff fs s.coord htype).mp hacc⟩
  · rintro ⟨hrun, hconn, htype, hboot⟩
    exact ⟨hrun, hconn, htype, (accepted_register_iff fs s.coord htype).mpr hboot⟩

instance (s : TcpServer) (conn : ℕ) (fs : Codec.SaveOutcome) (m : Message) :
    Decidable (Admits s conn fs m) := decidable_of_iff _ admits_iff.symm

def step (o : Observed) (e : TcpEvent) : Observed where
  server := o.server.step e
  registrant :=
    match e with
    | .frame conn fs m =>
        if Admits o.server conn fs m then o.registrant.insert m.worker conn else o.registrant
    | _ => o.registrant

/-- The connection is open. -/
def Open (o : Observed) (conn : ℕ) : Prop := ∃ worker, o.server.conns.find? conn = some worker

/-- A worker is alive exactly when the connection that last registered it is open. -/
def Follows (o : Observed) : Prop :=
  ∀ w, o.server.coord.Alive w ↔ ∃ conn, o.registrant.find? w = some conn ∧ o.Open conn

/-- A close may happen when the worker it declares dead was not registered since over
another open connection, and when it declares dead whatever its connection registered
last. -/
def CloseOk (o : Observed) : TcpEvent → Prop
  | .close conn => o.server.terminated = false → ∀ worker,
      o.server.conns.find? conn = some worker →
        (worker ≠ 0 → ∀ conn', o.registrant.find? ⟨worker⟩ = some conn' → conn' ≠ conn →
          ¬ o.Open conn') ∧
        ∀ w, o.registrant.find? w = some conn → worker ≠ 0 ∧ w = ⟨worker⟩
  | _ => True

/-- The bookkeeping of a run: the maps of the coordinator agree and connection numbers
are used once. -/
structure Numbered (o : Observed) : Prop where
  consistent : o.server.coord.Consistent
  conns : ∀ {conn}, o.Open conn → conn < o.server.nextConn
  registrants : ∀ {w conn}, o.registrant.find? w = some conn → conn < o.server.nextConn

/-! ## One step -/

theorem open_insert_iff {s : TcpServer} {conn conn' : ℕ} {v : UInt64} :
    (∃ worker, (s.conns.insert conn v).find? conn' = some worker) ↔
      conn' = conn ∨ ∃ worker, s.conns.find? conn' = some worker := by
  rw [OrdMap.find?_insert]
  by_cases hc : conn' = conn
  · rw [if_pos hc]
    simp [hc]
  · rw [if_neg hc]
    simp [hc]

theorem open_erase_iff {s : TcpServer} {conn conn' : ℕ} :
    (∃ worker, (s.conns.erase conn).find? conn' = some worker) ↔
      conn' ≠ conn ∧ ∃ worker, s.conns.find? conn' = some worker := by
  rw [OrdMap.find?_erase]
  by_cases hc : conn' = conn
  · rw [if_pos hc]
    simp [hc]
  · rw [if_neg hc]
    simp [hc]

theorem open_connect_iff {o : Observed} (hrun : o.server.terminated = false) (conn : ℕ) :
    (o.step .connect).Open conn ↔ conn = o.server.nextConn ∨ o.Open conn := by
  have hserver : (o.step .connect).server = _ := TcpServer.step_connect hrun
  rw [Open, hserver]
  exact open_insert_iff

/-- A frame leaves the connections as they are. -/
theorem open_frame_iff {o : Observed} (hrun : o.server.terminated = false) {conn : ℕ} {old : UInt64}
    (hconn : o.server.conns.find? conn = some old) (fs : Codec.SaveOutcome) (m : Message)
    (conn' : ℕ) : (o.step (.frame conn fs m)).Open conn' ↔ o.Open conn' := by
  have hserver : (o.step (.frame conn fs m)).server = _ := TcpServer.step_frame hrun hconn fs m
  rw [Open, hserver]
  refine open_insert_iff.trans ?_
  constructor
  · rintro (rfl | hold)
    · exact ⟨old, hconn⟩
    · exact hold
  · exact Or.inr

theorem open_close_iff {o : Observed} (hrun : o.server.terminated = false) {conn : ℕ}
    {worker : UInt64} (hconn : o.server.conns.find? conn = some worker) (conn' : ℕ) :
    (o.step (.close conn)).Open conn' ↔ conn' ≠ conn ∧ o.Open conn' := by
  have hserver : (o.step (.close conn)).server = _ := TcpServer.step_close hrun hconn
  rw [Open, hserver]
  exact open_erase_iff

theorem registrant_frame {o : Observed} {conn : ℕ} {fs : Codec.SaveOutcome} {m : Message}
    {w : WorkerId} {conn' : ℕ} (h : (o.step (.frame conn fs m)).registrant.find? w = some conn') :
    o.registrant.find? w = some conn' ∨ conn' = conn := by
  change (if Admits o.server conn fs m then o.registrant.insert m.worker conn
    else o.registrant).find? w = some conn' at h
  by_cases hadm : Admits o.server conn fs m
  · rw [if_pos hadm, OrdMap.find?_insert] at h
    by_cases hw : w = m.worker
    · rw [if_pos hw] at h
      cases h
      exact Or.inr rfl
    · rw [if_neg hw] at h
      exact Or.inl h
  · rw [if_neg hadm] at h
    exact Or.inl h

theorem registrant_of_terminated {o : Observed} (h : o.server.terminated = true)
    (e : TcpEvent) : (o.step e).registrant = o.registrant := by
  cases e with
  | frame conn fs m =>
      refine if_neg ?_
      intro hadm
      rw [hadm.1] at h
      cases h
  | connect => rfl
  | close conn => rfl

theorem registrant_of_not_open {o : Observed} {conn : ℕ}
    (hconn : o.server.conns.find? conn = none) (fs : Codec.SaveOutcome) (m : Message) :
    (o.step (.frame conn fs m)).registrant = o.registrant := by
  refine if_neg ?_
  intro hadm
  obtain ⟨-, ⟨old, hold⟩, -⟩ := hadm
  rw [hconn] at hold
  cases hold

/-- An event that changes neither liveness, connections nor registrations. -/
theorem follows_congr {o o' : Observed}
    (halive : ∀ w, o'.server.coord.Alive w ↔ o.server.coord.Alive w)
    (hreg : o'.registrant = o.registrant) (hopen : ∀ conn, o'.Open conn ↔ o.Open conn) :
    o'.Follows ↔ o.Follows := by
  simp only [Follows, halive, hreg, hopen]

theorem Numbered.follows_connect {o : Observed} (h : o.Numbered)
    (hrun : o.server.terminated = false) : (o.step .connect).Follows ↔ o.Follows := by
  have hstep : (o.step .connect).server =
      { o.server with
        conns := o.server.conns.insert o.server.nextConn 0
        nextConn := o.server.nextConn + 1 } :=
    TcpServer.step_connect hrun
  have hreg : (o.step .connect).registrant = o.registrant := rfl
  have hopen := open_connect_iff hrun
  have hsame : ∀ w, (∃ conn, (o.step .connect).registrant.find? w = some conn ∧
      (o.step .connect).Open conn) ↔ ∃ conn, o.registrant.find? w = some conn ∧ o.Open conn := by
    intro w
    constructor
    · rintro ⟨conn, hr, ho⟩
      rcases (hopen conn).mp ho with hnew | hold
      · exact absurd (h.registrants hr) (by omega)
      · exact ⟨conn, hr, hold⟩
    · rintro ⟨conn, hr, ho⟩
      exact ⟨conn, hr, (hopen conn).mpr (Or.inr ho)⟩
  simp only [Follows, hsame]
  rw [hstep]

/-- A frame on an open connection registers at most the worker it names, over that
connection. -/
theorem Numbered.follows_frame {o : Observed} (h : o.Numbered) (hfol : o.Follows)
    (hrun : o.server.terminated = false) {conn : ℕ} {old : UInt64}
    (hconn : o.server.conns.find? conn = some old) (fs : Codec.SaveOutcome) (m : Message) :
    (o.step (.frame conn fs m)).Follows := by
  have hserver : (o.step (.frame conn fs m)).server = o.server.handleFrame conn old fs m :=
    TcpServer.step_frame hrun hconn fs m
  have hopen := open_frame_iff hrun hconn fs m
  intro w
  have halive : (o.step (.frame conn fs m)).server.coord.Alive w ↔
      Registers m w ∨ o.server.coord.Alive w := by
    rw [hserver]
    exact h.consistent.alive_handle_iff fs m w
  have hreg : (o.step (.frame conn fs m)).registrant =
      if Admits o.server conn fs m then o.registrant.insert m.worker conn else o.registrant := rfl
  rw [halive, hfol w]
  simp only [hopen, hreg]
  by_cases hadm : Admits o.server conn fs m
  · obtain ⟨-, -, htype, hboot⟩ := admits_iff.mp hadm
    rw [if_pos hadm, OrdMap.find?_insert]
    by_cases hw : w = m.worker
    · rw [if_pos hw]
      have hnew : Registers m w := ⟨htype, hboot, hw.symm⟩
      have hthis : o.Open conn := ⟨old, hconn⟩
      simp [hnew, hthis]
    · rw [if_neg hw]
      have hnot : ¬ Registers m w := fun hr => hw hr.2.2.symm
      simp [hnot]
  · rw [if_neg hadm]
    have hnot : ¬ Registers m w := fun hr =>
      hadm (admits_iff.mpr ⟨hrun, OrdMap.contains_iff.mpr ⟨old, hconn⟩, hr.1, hr.2.1⟩)
    simp [hnot]

/-- A close keeps liveness following the connections exactly under its condition. -/
theorem follows_close_iff {o : Observed} (hfol : o.Follows) (hrun : o.server.terminated = false)
    {conn : ℕ} {worker : UInt64} (hconn : o.server.conns.find? conn = some worker) :
    (o.step (.close conn)).Follows ↔ o.CloseOk (.close conn) := by
  have hserver : (o.step (.close conn)).server = o.server.handleClose conn worker :=
    TcpServer.step_close hrun hconn
  have hopen := open_close_iff hrun hconn
  have hreg : (o.step (.close conn)).registrant = o.registrant := rfl
  have halive : ∀ w, (o.step (.close conn)).server.coord.Alive w ↔
      ¬ (worker ≠ 0 ∧ w = ⟨worker⟩) ∧ o.server.coord.Alive w := by
    intro w
    rw [hserver]
    change (if worker ≠ 0 then o.server.coord.markWorkerDead ⟨worker⟩
      else o.server.coord).Alive w ↔ _
    by_cases hz : worker ≠ 0
    · rw [if_pos hz, alive_markWorkerDead_iff]
      simp [hz]
    · rw [if_neg hz]
      simp [hz]
  constructor
  · intro hafter _ worker' hworker'
    rw [hconn] at hworker'
    cases hworker'
    refine ⟨?_, ?_⟩
    · intro hz conn' hr hne ho
      have hdead := (hafter ⟨worker⟩).mpr ⟨conn', by rw [hreg]; exact hr,
        (hopen conn').mpr ⟨hne, ho⟩⟩
      exact ((halive _).mp hdead).1 ⟨hz, rfl⟩
    · intro w hr
      by_contra hnot
      have hbefore : o.server.coord.Alive w := (hfol w).mpr ⟨conn, hr, worker, hconn⟩
      obtain ⟨conn', hr', ho'⟩ := (hafter w).mp ((halive w).mpr ⟨hnot, hbefore⟩)
      rw [hreg, hr] at hr'
      cases hr'
      exact ((hopen conn).mp ho').1 rfl
  · intro hok w
    obtain ⟨hother, hown⟩ := hok hrun worker hconn
    rw [halive w, hfol w]
    simp only [hopen, hreg]
    constructor
    · rintro ⟨hnot, conn', hr, ho⟩
      refine ⟨conn', hr, ?_, ho⟩
      rintro rfl
      exact hnot (hown w hr)
    · rintro ⟨conn', hr, hne, ho⟩
      refine ⟨?_, conn', hr, ho⟩
      rintro ⟨hz, rfl⟩
      exact hother hz conn' hr hne ho

/-- One step keeps liveness following the connections exactly when it is not a close that
breaks the condition. -/
theorem Numbered.follows_step_iff {o : Observed} (h : o.Numbered) (hfol : o.Follows)
    (e : TcpEvent) : (o.step e).Follows ↔ o.CloseOk e := by
  cases hrun : o.server.terminated with
  | true =>
      -- nothing happens after the process has ended
      have hserver : (o.step e).server = o.server :=
        TcpServer.step_of_terminated hrun e
      have hreg : (o.step e).registrant = o.registrant := registrant_of_terminated hrun e
      have hsame : (o.step e).Follows ↔ o.Follows :=
        follows_congr (by simp [hserver]) hreg (by simp [Open, hserver])
      have hok : o.CloseOk e := by
        cases e with
        | close conn =>
            intro hf
            rw [hf] at hrun
            cases hrun
        | connect => trivial
        | frame conn fs m => trivial
      exact ⟨fun _ => hok, fun _ => hsame.mpr hfol⟩
  | false =>
      cases e with
      | connect => exact ⟨fun _ => trivial, fun _ => (h.follows_connect hrun).mpr hfol⟩
      | frame conn fs m =>
          refine ⟨fun _ => trivial, fun _ => ?_⟩
          cases hconn : o.server.conns.find? conn with
          | none =>
              have hserver : (o.step (.frame conn fs m)).server = o.server :=
                TcpServer.step_of_not_open hconn (Or.inl ⟨fs, m, rfl⟩)
              have hreg := registrant_of_not_open hconn fs m
              exact (follows_congr (by simp [hserver]) hreg (by simp [Open, hserver])).mpr hfol
          | some old => exact h.follows_frame hfol hrun hconn fs m
      | close conn =>
          cases hconn : o.server.conns.find? conn with
          | none =>
              have hserver : (o.step (.close conn)).server = o.server :=
                TcpServer.step_of_not_open hconn (Or.inr rfl)
              have hsame : (o.step (.close conn)).Follows ↔ o.Follows :=
                follows_congr (by simp [hserver]) rfl (by simp [Open, hserver])
              refine ⟨fun _ _ worker hworker => ?_, fun _ => hsame.mpr hfol⟩
              rw [hconn] at hworker
              cases hworker
          | some worker => exact follows_close_iff hfol hrun hconn

/-! ## Runs -/

theorem numbered_start (epoch : CoordinatorEpoch) : (start epoch).Numbered := by
  refine ⟨consistent_new epoch, ?_, ?_⟩
  · intro conn ho
    obtain ⟨worker, hw⟩ := ho
    cases hw
  · intro w conn hr
    cases hr

/-- Steps that accept no connection keep the numbering. -/
theorem Numbered.of_same_numbers {o o' : Observed} (h : o.Numbered)
    (hcons : o'.server.coord.Consistent) (hnext : o'.server.nextConn = o.server.nextConn)
    (hopen : ∀ {conn}, o'.Open conn → o.Open conn)
    (hreg : ∀ {w conn}, o'.registrant.find? w = some conn →
      o.registrant.find? w = some conn ∨ o.Open conn) : o'.Numbered := by
  refine ⟨hcons, ?_, ?_⟩
  · intro conn ho
    rw [hnext]
    exact h.conns (hopen ho)
  · intro w conn hr
    rw [hnext]
    rcases hreg hr with hold | ho
    · exact h.registrants hold
    · exact h.conns ho

theorem Numbered.of_idle {o o' : Observed} (h : o.Numbered) (hserver : o'.server = o.server)
    (hreg : o'.registrant = o.registrant) : o'.Numbered := by
  refine h.of_same_numbers (by rw [hserver]; exact h.consistent) (by rw [hserver]) ?_ ?_
  · intro conn ho
    rwa [Open, hserver] at ho
  · intro w conn hr
    rw [hreg] at hr
    exact Or.inl hr

theorem Numbered.step {o : Observed} (h : o.Numbered) (e : TcpEvent) : (o.step e).Numbered := by
  cases hrun : o.server.terminated with
  | true =>
      exact h.of_idle (TcpServer.step_of_terminated hrun e) (registrant_of_terminated hrun e)
  | false =>
      cases e with
      | connect =>
          have hserver : (o.step .connect).server = _ := TcpServer.step_connect hrun
          refine ⟨by rw [hserver]; exact h.consistent, ?_, ?_⟩
          · intro conn ho
            rw [hserver]
            dsimp only
            rcases (open_connect_iff hrun conn).mp ho with rfl | ho
            · omega
            · have := h.conns ho
              omega
          · intro w conn hr
            rw [hserver]
            exact Nat.lt_succ_of_lt (h.registrants hr)
      | frame conn fs m =>
          cases hconn : o.server.conns.find? conn with
          | none =>
              exact h.of_idle (TcpServer.step_of_not_open hconn (Or.inl ⟨fs, m, rfl⟩))
                (registrant_of_not_open hconn fs m)
          | some old =>
              have hserver : (o.step (.frame conn fs m)).server = _ :=
                TcpServer.step_frame hrun hconn fs m
              refine h.of_same_numbers ?_ (by rw [hserver]; rfl) ?_ ?_
              · rw [hserver]
                exact h.consistent.of_effect (h.consistent.handle_effect fs m)
              · exact fun ho => (open_frame_iff hrun hconn fs m _).mp ho
              · intro w conn' hr
                rcases registrant_frame hr with hold | rfl
                · exact Or.inl hold
                · exact Or.inr ⟨old, hconn⟩
      | close conn =>
          cases hconn : o.server.conns.find? conn with
          | none => exact h.of_idle (TcpServer.step_of_not_open hconn (Or.inr rfl)) rfl
          | some worker =>
              have hserver : (o.step (.close conn)).server = _ :=
                TcpServer.step_close hrun hconn
              refine h.of_same_numbers ?_ (by rw [hserver]; rfl) ?_ (fun hr => Or.inl hr)
              · rw [hserver]
                change (if worker ≠ 0 then o.server.coord.markWorkerDead ⟨worker⟩
                  else o.server.coord).Consistent
                by_cases hz : worker ≠ 0
                · rw [if_pos hz]
                  exact h.consistent.markWorkerDead _
                · rw [if_neg hz]
                  exact h.consistent
              · exact fun ho => ((open_close_iff hrun hconn _).mp ho).2

theorem follows_start (epoch : CoordinatorEpoch) : (start epoch).Follows := by
  intro w
  constructor
  · intro h
    cases h
  · rintro ⟨conn, hr, -⟩
    cases hr

/-- From a numbered state in which liveness follows the connections, it keeps doing so
along a run exactly when every close of the run meets its condition. -/
theorem Numbered.follows_run_iff {o : Observed} (h : o.Numbered) (hfol : o.Follows)
    (events : List TcpEvent) :
    (∀ front back, events = front ++ back → (runFrom Observed.step o front).Follows) ↔
      AllSteps Observed.step CloseOk o events := by
  induction events generalizing o with
  | nil =>
      refine ⟨fun _ => allSteps_nil, ?_⟩
      intro _ front back hsplit
      rw [(List.append_eq_nil_iff.mp hsplit.symm).1]
      exact hfol
  | cons e rest ih =>
      rw [allSteps_cons, ← h.follows_step_iff hfol e]
      constructor
      · intro hall
        have hnext : (o.step e).Follows := hall [e] rest rfl
        refine ⟨hnext, (ih (h.step e) hnext).mp ?_⟩
        intro front back hsplit
        exact hall (e :: front) back (by rw [hsplit]; rfl)
      · rintro ⟨hnext, hrest⟩ front back hsplit
        cases front with
        | nil => exact hfol
        | cons e' front =>
            simp only [List.cons_append, List.cons.injEq] at hsplit
            obtain ⟨rfl, hsplit⟩ := hsplit
            exact (ih (h.step e) hnext).mpr hrest front back hsplit

/-- Over every interleaving of connections, frames and closes: each worker is alive at
each point exactly when the connection that last registered it is open, if and only if
every close meets its condition. -/
theorem alive_iff_registrant_open_iff (epoch : CoordinatorEpoch) (events : List TcpEvent) :
    (∀ front back, events = front ++ back → ∀ w : WorkerId,
      (runFrom Observed.step (start epoch) front).server.coord.Alive w ↔
        ∃ conn, (runFrom Observed.step (start epoch) front).registrant.find? w = some conn ∧
          (runFrom Observed.step (start epoch) front).Open conn) ↔
      AllSteps Observed.step CloseOk (start epoch) events :=
  (numbered_start epoch).follows_run_iff (follows_start epoch) events

/-- Worker 1 restarts: its new incarnation registers before the old socket is closed. -/
def restart : List TcpEvent :=
  [.connect, .frame 0 ⟨true, 0, 0, true⟩ (.register 1 1),
    .connect, .frame 1 ⟨true, 0, 0, true⟩ (.register 1 2), .close 0]

/-- The late close of the old connection kills the new incarnation. -/
theorem restart_kills_new_incarnation :
    ¬ ∀ (epoch : CoordinatorEpoch) (events : List TcpEvent) (w : WorkerId),
      (runFrom Observed.step (start epoch) events).server.coord.Alive w ↔
        ∃ conn, (runFrom Observed.step (start epoch) events).registrant.find? w = some conn ∧
          (runFrom Observed.step (start epoch) events).Open conn := by
  intro h
  have hopen : (runFrom Observed.step (start ⟨1⟩) restart).Open 1 :=
    OrdMap.contains_iff.mp (by decide +kernel)
  have hreg : (runFrom Observed.step (start ⟨1⟩) restart).registrant.find? ⟨1⟩ = some 1 := by
    decide +kernel
  have halive := (h ⟨1⟩ restart ⟨1⟩).mpr ⟨1, hreg, hopen⟩
  revert halive
  decide +kernel

end Observed

end FragmentationGovernor
