import FragmentationGovernor.Verification.Transport.Framing
import FragmentationGovernor.Verification.Transport.Service

/-! # Calls are linearizable

Clients that wait for each reply see the coordinator as one object: every call takes effect
at one point between its request and its reply, and the replies are those of handling the
requests one after the other in that order. -/

namespace FragmentationGovernor

open Protocol

/-! ## Conversations -/

def Observation.conn : Observation → ℕ
  | .accepted conn _ | .called conn _ | .handled conn _ _ _ | .returned conn _ | .closed conn =>
      conn

/-- What belongs to the calls made over a connection. -/
def Observation.isCallOf (conn : ℕ) : Observation → Bool
  | .called conn' _ | .handled conn' _ _ _ | .returned conn' _ => decide (conn' = conn)
  | .accepted _ _ | .closed _ => false

def calls (conn : ℕ) (history : List Observation) : List Observation :=
  history.filter (Observation.isCallOf conn)

/-- A call that has returned: a request, its handling and the reply, both as the wire carries
them. -/
inductive Round (conn : ℕ) : List Observation → Prop
  | intro {request m r reply : Message} {fs : Codec.SaveOutcome}
      (hrequest : frameDecode (frameEncode request) = .ok (some m))
      (hreply : frameDecode (frameEncode r) = .ok (some reply)) :
      Round conn [.called conn request, .handled conn fs m (.ok [r]), .returned conn reply]

/-- A call that has not returned, if there is one. -/
inductive Pending (conn : ℕ) : List Observation → Prop
  | none : Pending conn []
  | called {request : Message} : Pending conn [.called conn request]
  | handled {request m : Message} {fs : Codec.SaveOutcome}
      {outcome : Except ValueError (List Message)}
      (hrequest : frameDecode (frameEncode request) = .ok (some m)) :
      Pending conn [.called conn request, .handled conn fs m outcome]

/-- Calls one after the other, with no more than one that has not returned. -/
def Conversation (conn : ℕ) (os : List Observation) : Prop :=
  ∃ (rounds : List (List Observation)) (pending : List Observation),
    os = rounds.flatten ++ pending ∧ (∀ r ∈ rounds, Round conn r) ∧ Pending conn pending

section Calls

variable {conn : ℕ} {history os : List Observation} {o : Observation}

theorem conn_of_isCallOf (h : o.isCallOf conn = true) : o.conn = conn := by
  cases o with
  | called c m => exact of_decide_eq_true h
  | handled c fs m r => exact of_decide_eq_true h
  | returned c m => exact of_decide_eq_true h
  | accepted c b => cases h
  | closed c => cases h

theorem calls_append_of_all (h : ∀ o ∈ os, o.isCallOf conn = true) :
    calls conn (history ++ os) = calls conn history ++ os := by
  rw [calls, List.filter_append, List.filter_eq_self.mpr h]
  rfl

theorem calls_append_of_none (h : ∀ o ∈ os, o.isCallOf conn = false) :
    calls conn (history ++ os) = calls conn history := by
  have hnil : os.filter (Observation.isCallOf conn) = [] := by
    rw [List.filter_eq_nil_iff]
    intro o ho
    rw [h o ho]
    exact Bool.false_ne_true
  rw [calls, List.filter_append, hnil, List.append_nil]
  rfl

theorem isCallOf_of_ne {conn' : ℕ} (h : o.isCallOf conn = true) (hne : conn' ≠ conn) :
    o.isCallOf conn' = false := by
  cases hcall : o.isCallOf conn' with
  | false => rfl
  | true => exact (hne ((conn_of_isCallOf hcall).symm.trans (conn_of_isCallOf h))).elim

theorem calls_eq_nil (h : ∀ o ∈ history, o.conn ≠ conn) : calls conn history = [] := by
  rw [calls, List.filter_eq_nil_iff]
  intro o ho hcall
  exact h o ho (conn_of_isCallOf hcall)

end Calls

namespace Protocol.FrameDecoder

variable {dec dec' : FrameDecoder} {chunk rest f : List UInt8}

/-- A chunk of a single block is kept, or it is the last one and the block is decoded. -/
theorem feed_single (hblock : Block f) (hstream : dec.buf ++ (chunk ++ rest) = f) :
    (dec.feed chunk = (⟨dec.buf ++ chunk⟩, .ok none) ∧ (dec.buf ++ chunk).length < f.length) ∨
      (rest = [] ∧ (dec.feed chunk).2 = frameDecode f ∧
        ∀ m, frameDecode f = .ok m → dec.feed chunk = ({}, .ok m)) := by
  rw [← List.append_assoc] at hstream
  by_cases hlt : (dec.buf ++ chunk).length < f.length
  · have hwhole : dec.buf ++ chunk ++ rest = f ++ [] := by rw [hstream, List.append_nil]
    have hkept := feed_partial hblock hwhole hlt
    exact Or.inl ⟨hkept, hlt⟩
  · have hlen := congrArg List.length hstream
    rw [List.length_append] at hlen
    have hrest : rest = [] := List.eq_nil_of_length_eq_zero (by omega)
    rw [hrest, List.append_nil] at hstream
    have hfull : dec.buf ++ chunk = f ++ [] := by rw [hstream, List.append_nil]
    obtain ⟨hreply, hall⟩ := feed_block hblock hfull
    exact Or.inr ⟨hrest, hreply, hall⟩

theorem feed_single_none (hblock : Block f) (hstream : dec.buf ++ (chunk ++ rest) = f)
    (hfeed : dec.feed chunk = (dec', .ok none)) :
    (dec'.buf ++ rest = f ∧ dec'.buf.length < f.length) ∨
      (dec' = {} ∧ rest = [] ∧ frameDecode f = .ok none) := by
  rcases feed_single hblock hstream with ⟨hkept, hlt⟩ | ⟨hrest, hreply, hall⟩
  · rw [hkept] at hfeed
    cases hfeed
    exact Or.inl ⟨by rw [← hstream, List.append_assoc], hlt⟩
  · rw [hfeed] at hreply
    have hdone := hall none hreply.symm
    rw [hfeed] at hdone
    cases hdone
    exact Or.inr ⟨rfl, hrest, hreply.symm⟩

theorem feed_single_some {m : Message} (hblock : Block f)
    (hstream : dec.buf ++ (chunk ++ rest) = f) (hfeed : dec.feed chunk = (dec', .ok (some m))) :
    dec' = {} ∧ rest = [] ∧ frameDecode f = .ok (some m) := by
  rcases feed_single hblock hstream with ⟨hkept, -⟩ | ⟨hrest, hreply, hall⟩
  · rw [hkept] at hfeed
    cases hfeed
  · rw [hfeed] at hreply
    have hdone := hall (some m) hreply.symm
    rw [hfeed] at hdone
    cases hdone
    exact ⟨rfl, hrest, hreply.symm⟩

end Protocol.FrameDecoder

/-! ## Where a call stands -/

/-- The payload of the message is within the limit. -/
def WithinLimit (m : Message) : Prop := (encodePayload m).length ≤ protocolMaxPayload

instance (m : Message) : Decidable (WithinLimit m) := inferInstanceAs (Decidable (_ ≤ _))

theorem WithinLimit.block {m : Message} (h : WithinLimit m) : Block (frameEncode m) := block_frame h

/-- The messages that are not answered. -/
def Message.Silent (m : Message) : Prop :=
  m.type = .hello ∨ m.type = .shutdown ∨ m.type = .error

/-- A client that is still there waits, and nothing is on its way to it. -/
def Link.Waits (l : Link) : Prop := l.peer ≠ .gone → l.peer = .waiting {} ∧ l.toClient = []

/-- Where the call over a client's connection stands that has not returned. -/
inductive Stage (conn : ℕ) (l : Link) : List Observation → Prop
  | resting (hthread : l.thread = .receiving {}) (hin : l.toServer = [])
      (hpeer : l.peer ≠ .gone → l.peer = .idle ∧ l.toClient = []) : Stage conn l []
  | sent {request : Message} {dec : FrameDecoder} (hthread : l.thread = .receiving dec)
      (hfits : WithinLimit request) (hstream : dec.buf ++ l.toServer = frameEncode request)
      (hlt : dec.buf.length < (frameEncode request).length) (hwait : l.Waits) :
      Stage conn l [.called conn request]
  /-- the request cannot be decoded and is dropped -/
  | dropped {request : Message} (hthread : l.thread = .receiving {}) (hin : l.toServer = [])
      (hdrop : frameDecode (frameEncode request) = .ok none) (hwait : l.Waits) :
      Stage conn l [.called conn request]
  | decoded {request m : Message} (hthread : l.thread = .handling {} m) (hin : l.toServer = [])
      (hrequest : frameDecode (frameEncode request) = .ok (some m)) (hwait : l.Waits) :
      Stage conn l [.called conn request]
  | answered {request m : Message} {fs : Codec.SaveOutcome} {rs : List Message}
      (hthread : l.thread = .replying {} rs) (hin : l.toServer = [])
      (hrequest : frameDecode (frameEncode request) = .ok (some m)) (hwait : l.Waits)
      (hone : (rs = [] ∧ m.Silent) ∨ ∃ r, rs = [r] ∧ (l.peer ≠ .gone → WithinLimit r)) :
      Stage conn l [.called conn request, .handled conn fs m (.ok rs)]
  /-- nothing is sent back, or what is sent back cannot be decoded and is dropped -/
  | unanswered {request m : Message} {fs : Codec.SaveOutcome} {rs : List Message}
      (hthread : l.thread = .receiving {}) (hin : l.toServer = [])
      (hrequest : frameDecode (frameEncode request) = .ok (some m)) (hwait : l.Waits)
      (hdrop : (rs = [] ∧ m.Silent) ∨ ∃ r, rs = [r] ∧ frameDecode (frameEncode r) = .ok none) :
      Stage conn l [.called conn request, .handled conn fs m (.ok rs)]
  | returning {request m r : Message} {fs : Codec.SaveOutcome}
      (hthread : l.thread = .receiving {}) (hin : l.toServer = [])
      (hrequest : frameDecode (frameEncode request) = .ok (some m))
      (hpeer : l.peer ≠ .gone → ∃ dec, l.peer = .waiting dec ∧ WithinLimit r ∧
        dec.buf ++ l.toClient = frameEncode r ∧ dec.buf.length < (frameEncode r).length) :
      Stage conn l [.called conn request, .handled conn fs m (.ok [r])]
  | ended {pending : List Observation} (hthread : l.thread = .closing) (hpeer : l.peer = .gone)
      (hpending : Pending conn pending) : Stage conn l pending

/-- The calls over a connection, with the last one at its stage. -/
def Talking (conn : ℕ) (l : Link) (os : List Observation) : Prop :=
  ∃ (rounds : List (List Observation)) (pending : List Observation),
    os = rounds.flatten ++ pending ∧ (∀ r ∈ rounds, Round conn r) ∧ Stage conn l pending

section Stages

variable {conn : ℕ} {l : Link} {os current : List Observation}

theorem Stage.pending (h : Stage conn l current) : Pending conn current := by
  cases h with
  | resting _ _ _ => exact .none
  | sent _ _ _ _ _ => exact .called
  | dropped _ _ _ _ => exact .called
  | decoded _ _ _ _ => exact .called
  | answered _ _ hrequest _ _ => exact .handled hrequest
  | unanswered _ _ hrequest _ _ => exact .handled hrequest
  | returning _ _ hrequest _ => exact .handled hrequest
  | ended _ _ hpending => exact hpending

theorem Talking.conversation (h : Talking conn l os) : Conversation conn os := by
  obtain ⟨rounds, pending, heq, hrounds, hstage⟩ := h
  exact ⟨rounds, pending, heq, hrounds, hstage.pending⟩

/-- A step that goes on with the call that has not returned. -/
theorem Talking.goOn (h : Talking conn l os) {l' : Link} {more : List Observation}
    (hstage : ∀ pending, Stage conn l pending → Stage conn l' (pending ++ more)) :
    Talking conn l' (os ++ more) := by
  obtain ⟨rounds, pending, rfl, hrounds, hpending⟩ := h
  exact ⟨rounds, pending ++ more, List.append_assoc _ _ _, hrounds, hstage pending hpending⟩

theorem Link.Waits.ne_idle (h : l.Waits) : l.peer ≠ .idle := by
  intro hidle
  have hwait := (h (by simp [hidle])).1
  rw [hidle] at hwait
  cases hwait

/-- A client between two requests has got all its replies. -/
theorem Stage.of_idle (h : Stage conn l current) (hidle : l.peer = .idle) :
    current = [] ∧ l.thread = .receiving {} ∧ l.toServer = [] ∧ l.toClient = [] := by
  have hne : l.peer ≠ .gone := by simp [hidle]
  cases h with
  | resting hthread hin hpeer => exact ⟨rfl, hthread, hin, (hpeer hne).2⟩
  | sent _ _ _ _ hwait => exact (hwait.ne_idle hidle).elim
  | dropped _ _ _ hwait => exact (hwait.ne_idle hidle).elim
  | decoded _ _ _ hwait => exact (hwait.ne_idle hidle).elim
  | answered _ _ _ hwait _ => exact (hwait.ne_idle hidle).elim
  | unanswered _ _ _ hwait _ => exact (hwait.ne_idle hidle).elim
  | returning _ _ _ hpeer =>
      obtain ⟨dec, hwaiting, -⟩ := hpeer hne
      rw [hidle] at hwaiting
      cases hwaiting
  | ended _ hgone _ => exact (hne hgone).elim

theorem Talking.ne_foreign (h : Talking conn l os) : l.peer ≠ .foreign := by
  obtain ⟨rounds, pending, -, -, hstage⟩ := h
  intro hforeign
  have hne : l.peer ≠ .gone := by simp [hforeign]
  cases hstage with
  | resting _ _ hpeer => simp [hforeign] at hpeer
  | sent _ _ _ _ hwait => simp [Link.Waits, hforeign] at hwait
  | dropped _ _ _ hwait => simp [Link.Waits, hforeign] at hwait
  | decoded _ _ _ hwait => simp [Link.Waits, hforeign] at hwait
  | answered _ _ _ hwait _ => simp [Link.Waits, hforeign] at hwait
  | unanswered _ _ _ hwait _ => simp [Link.Waits, hforeign] at hwait
  | returning _ _ _ hpeer => simp [hforeign] at hpeer
  | ended _ hgone _ => exact hne hgone

/-- What a thread receives is the request of the call. -/
theorem Stage.of_receiving (h : Stage conn l current) {dec : FrameDecoder}
    (hreceiving : l.thread = .receiving dec) (hne : l.toServer ≠ []) :
    ∃ request, current = [.called conn request] ∧ WithinLimit request ∧
      dec.buf ++ l.toServer = frameEncode request ∧ l.Waits := by
  cases h with
  | @sent request dec' hthread hfits hstream hlt hwait =>
      rw [hreceiving] at hthread
      cases hthread
      exact ⟨request, rfl, hfits, hstream, hwait⟩
  | resting _ hin _ => exact (hne hin).elim
  | dropped _ hin _ _ => exact (hne hin).elim
  | decoded _ hin _ _ => exact (hne hin).elim
  | answered _ hin _ _ _ => exact (hne hin).elim
  | unanswered _ hin _ _ _ => exact (hne hin).elim
  | returning _ hin _ _ => exact (hne hin).elim
  | ended hthread _ _ =>
      rw [hreceiving] at hthread
      cases hthread

theorem Stage.of_handling (h : Stage conn l current) {dec : FrameDecoder} {m : Message}
    (hhandling : l.thread = .handling dec m) :
    ∃ request, current = [.called conn request] ∧ dec = {} ∧ l.toServer = [] ∧
      frameDecode (frameEncode request) = .ok (some m) ∧ l.Waits := by
  cases h with
  | @decoded request m' hthread hin hrequest hwait =>
      rw [hhandling] at hthread
      cases hthread
      exact ⟨request, rfl, rfl, hin, hrequest, hwait⟩
  | resting hthread _ _ => simp [hhandling] at hthread
  | sent hthread _ _ _ _ => simp [hhandling] at hthread
  | dropped hthread _ _ _ => simp [hhandling] at hthread
  | answered hthread _ _ _ _ => simp [hhandling] at hthread
  | unanswered hthread _ _ _ _ => simp [hhandling] at hthread
  | returning hthread _ _ _ => simp [hhandling] at hthread
  | ended hthread _ _ => simp [hhandling] at hthread

/-- What a client reads is the reply to its call. -/
theorem Stage.of_reading (h : Stage conn l current) {dec : FrameDecoder}
    (hwaiting : l.peer = .waiting dec) (hne : l.toClient ≠ []) :
    ∃ request m r fs, current = [.called conn request, .handled conn fs m (.ok [r])] ∧
      l.thread = .receiving {} ∧ l.toServer = [] ∧
      frameDecode (frameEncode request) = .ok (some m) ∧ WithinLimit r ∧
      dec.buf ++ l.toClient = frameEncode r := by
  have hthere : l.peer ≠ .gone := by simp [hwaiting]
  cases h with
  | @returning request m r fs hthread hin hrequest hpeer =>
      obtain ⟨dec', hdec', hfits, hstream, -⟩ := hpeer hthere
      rw [hwaiting] at hdec'
      cases hdec'
      exact ⟨request, m, r, fs, rfl, hthread, hin, hrequest, hfits, hstream⟩
  | resting _ _ hpeer => exact (hne (hpeer hthere).2).elim
  | sent _ _ _ _ hwait => exact (hne (hwait hthere).2).elim
  | dropped _ _ _ hwait => exact (hne (hwait hthere).2).elim
  | decoded _ _ _ hwait => exact (hne (hwait hthere).2).elim
  | answered _ _ _ hwait _ => exact (hne (hwait hthere).2).elim
  | unanswered _ _ _ hwait _ => exact (hne (hwait hthere).2).elim
  | ended _ hgone _ => exact (hthere hgone).elim

/-! ### Steps of a call -/

theorem Talking.call (h : Talking conn l os) (hidle : l.peer = .idle) {request : Message}
    (hfits : WithinLimit request) :
    Talking conn { l with toServer := l.toServer ++ frameEncode request, peer := .waiting {} }
      (os ++ [.called conn request]) := by
  refine h.goOn fun pending hstage => ?_
  obtain ⟨rfl, hthread, hin, hout⟩ := hstage.of_idle hidle
  have hlen := hfits.block.length_eq
  have hlt : ({} : FrameDecoder).buf.length < (frameEncode request).length := by
    change 0 < _
    omega
  refine .sent hthread hfits ?_ hlt (fun _ => ⟨rfl, hout⟩)
  rw [hin, List.nil_append, List.nil_append]

/-- A client that is gone leaves the call at its stage. -/
theorem Talking.abandon (h : Talking conn l os) (left : List UInt8) :
    Talking conn { l with toClient := left, peer := .gone } os := by
  rw [← List.append_nil os]
  refine h.goOn fun pending hstage => ?_
  rw [List.append_nil]
  cases hstage with
  | resting hthread hin _ => exact .resting hthread hin (by simp)
  | sent hthread hfits hstream hlt _ =>
      exact .sent hthread hfits hstream hlt (fun hne => (hne rfl).elim)
  | dropped hthread hin hdrop _ => exact .dropped hthread hin hdrop (fun hne => (hne rfl).elim)
  | decoded hthread hin hrequest _ =>
      exact .decoded hthread hin hrequest (fun hne => (hne rfl).elim)
  | answered hthread hin hrequest _ hone =>
      refine .answered hthread hin hrequest (fun hne => (hne rfl).elim) ?_
      rcases hone with hsilent | ⟨r, rfl, -⟩
      · exact Or.inl hsilent
      · exact Or.inr ⟨r, rfl, fun hne => (hne rfl).elim⟩
  | unanswered hthread hin hrequest _ hdrop =>
      exact .unanswered hthread hin hrequest (fun hne => (hne rfl).elim) hdrop
  | returning hthread hin hrequest _ =>
      exact .returning hthread hin hrequest (fun hne => (hne rfl).elim)
  | ended hthread _ hpending => exact .ended hthread rfl hpending

theorem Talking.take (h : Talking conn l os) {dec dec' : FrameDecoder} {chunk rest : List UInt8}
    (hreceiving : l.thread = .receiving dec) (hne : chunk ≠ [])
    (hsplit : l.toServer = chunk ++ rest) (hfeed : dec.feed chunk = (dec', .ok none)) :
    Talking conn { l with toServer := rest, thread := .receiving dec' } os := by
  rw [← List.append_nil os]
  refine h.goOn fun pending hstage => ?_
  obtain ⟨request, rfl, hfits, hstream, hwait⟩ :=
    hstage.of_receiving hreceiving (by simp [hsplit, hne])
  rw [hsplit] at hstream
  rcases FrameDecoder.feed_single_none hfits.block hstream hfeed with
    ⟨hkept, hlt⟩ | ⟨rfl, rfl, hdrop⟩
  · exact .sent rfl hfits hkept hlt hwait
  · exact .dropped rfl rfl hdrop hwait

theorem Talking.decode (h : Talking conn l os) {dec dec' : FrameDecoder}
    {chunk rest : List UInt8} {m : Message} (hreceiving : l.thread = .receiving dec)
    (hne : chunk ≠ []) (hsplit : l.toServer = chunk ++ rest)
    (hfeed : dec.feed chunk = (dec', .ok (some m))) :
    Talking conn { l with toServer := rest, thread := .handling dec' m } os := by
  rw [← List.append_nil os]
  refine h.goOn fun pending hstage => ?_
  obtain ⟨request, rfl, hfits, hstream, hwait⟩ :=
    hstage.of_receiving hreceiving (by simp [hsplit, hne])
  rw [hsplit] at hstream
  obtain ⟨rfl, rfl, hrequest⟩ := FrameDecoder.feed_single_some hfits.block hstream hfeed
  exact .decoded rfl rfl hrequest hwait

theorem Talking.leave (h : Talking conn l os) (hgone : l.peer = .gone) :
    Talking conn { l with thread := .closing } os := by
  rw [← List.append_nil os]
  refine h.goOn fun pending hstage => ?_
  rw [List.append_nil]
  exact .ended rfl hgone hstage.pending

theorem Talking.handle (h : Talking conn l os) {dec : FrameDecoder} {m : Message}
    (hhandling : l.thread = .handling dec m) (worker : UInt64) (fs : Codec.SaveOutcome)
    {rs : List Message} (hone : (rs = [] ∧ m.Silent) ∨ ∃ r, rs = [r])
    (hfits : ∀ dec', l.peer = .waiting dec' → ∀ r ∈ rs, WithinLimit r) :
    Talking conn { l with worker := worker, thread := .replying dec rs }
      (os ++ [.handled conn fs m (.ok rs)]) := by
  refine h.goOn fun pending hstage => ?_
  obtain ⟨request, rfl, rfl, hin, hrequest, hwait⟩ := hstage.of_handling hhandling
  refine .answered rfl hin hrequest hwait ?_
  rcases hone with hsilent | ⟨r, rfl⟩
  · exact Or.inl hsilent
  · exact Or.inr ⟨r, rfl, fun hne => hfits {} (hwait hne).1 r (by simp)⟩

/-- A message whose handling raises ends the process; its call does not return. -/
theorem Talking.raise (h : Talking conn l os) {dec : FrameDecoder} {m : Message}
    (hhandling : l.thread = .handling dec m) (fs : Codec.SaveOutcome) (e : ValueError) :
    Conversation conn (os ++ [.handled conn fs m (.error e)]) := by
  obtain ⟨rounds, pending, rfl, hrounds, hstage⟩ := h
  obtain ⟨request, rfl, -, -, hrequest, -⟩ := hstage.of_handling hhandling
  exact ⟨rounds, _, List.append_assoc _ _ _, hrounds, .handled hrequest⟩

theorem Talking.reply (h : Talking conn l os) {dec : FrameDecoder} {rs : List Message}
    (hreplying : l.thread = .replying dec rs) :
    Talking conn
      { l with toClient := l.toClient ++ rs.flatMap frameEncode, thread := .receiving dec }
      os := by
  rw [← List.append_nil os]
  refine h.goOn fun pending hstage => ?_
  rw [List.append_nil]
  cases hstage with
  | @answered request m fs rs' hthread hin hrequest hwait hone =>
      rw [hreplying] at hthread
      cases hthread
      rcases hone with ⟨rfl, hsilent⟩ | ⟨r, rfl, hfits⟩
      · refine .unanswered rfl hin hrequest ?_ (Or.inl ⟨rfl, hsilent⟩)
        intro hne
        obtain ⟨hwaiting, hout⟩ := hwait hne
        refine ⟨hwaiting, ?_⟩
        rw [hout, List.flatMap_nil, List.append_nil]
      · refine .returning rfl hin hrequest ?_
        intro hne
        obtain ⟨hwaiting, hout⟩ := hwait hne
        have hlen := (hfits hne).block.length_eq
        refine ⟨{}, hwaiting, hfits hne, ?_, ?_⟩
        · rw [hout, List.flatMap_singleton, List.nil_append, List.nil_append]
        · change 0 < _
          omega
  | resting hthread _ _ => simp [hreplying] at hthread
  | sent hthread _ _ _ _ => simp [hreplying] at hthread
  | dropped hthread _ _ _ => simp [hreplying] at hthread
  | decoded hthread _ _ _ => simp [hreplying] at hthread
  | unanswered hthread _ _ _ _ => simp [hreplying] at hthread
  | returning hthread _ _ _ => simp [hreplying] at hthread
  | ended hthread _ _ => simp [hreplying] at hthread

theorem Talking.read (h : Talking conn l os) {dec dec' : FrameDecoder} {chunk rest : List UInt8}
    (hwaiting : l.peer = .waiting dec) (hne : chunk ≠ [])
    (hsplit : l.toClient = chunk ++ rest) (hfeed : dec.feed chunk = (dec', .ok none)) :
    Talking conn { l with toClient := rest, peer := .waiting dec' } os := by
  rw [← List.append_nil os]
  refine h.goOn fun pending hstage => ?_
  obtain ⟨request, m, r, fs, rfl, hthread, hin, hrequest, hfits, hstream⟩ :=
    hstage.of_reading hwaiting (by simp [hsplit, hne])
  rw [hsplit] at hstream
  rcases FrameDecoder.feed_single_none hfits.block hstream hfeed with
    ⟨hkept, hlt⟩ | ⟨rfl, rfl, hdrop⟩
  · exact .returning hthread hin hrequest (fun _ => ⟨dec', rfl, hfits, hkept, hlt⟩)
  · exact .unanswered hthread hin hrequest (fun _ => ⟨rfl, rfl⟩) (Or.inr ⟨r, rfl, hdrop⟩)

/-- The reply completes a round. -/
theorem Talking.return (h : Talking conn l os) {dec dec' : FrameDecoder}
    {chunk rest : List UInt8} {m : Message} (hwaiting : l.peer = .waiting dec) (hne : chunk ≠ [])
    (hsplit : l.toClient = chunk ++ rest) (hfeed : dec.feed chunk = (dec', .ok (some m))) :
    Talking conn { l with toClient := rest, peer := .idle } (os ++ [.returned conn m]) := by
  obtain ⟨rounds, pending, rfl, hrounds, hstage⟩ := h
  obtain ⟨request, m', r, fs, rfl, hthread, hin, hrequest, hfits, hstream⟩ :=
    hstage.of_reading hwaiting (by simp [hsplit, hne])
  rw [hsplit] at hstream
  obtain ⟨rfl, rfl, hreply⟩ := FrameDecoder.feed_single_some hfits.block hstream hfeed
  refine ⟨rounds ++ [[.called conn request, .handled conn fs m' (.ok [r]), .returned conn m]], [],
    by simp, ?_, .resting hthread hin (fun _ => ⟨rfl, rfl⟩)⟩
  intro round hround
  rcases List.mem_append.mp hround with hround | hround
  · exact hrounds round hround
  · cases List.mem_singleton.mp hround
    exact .intro hrequest hreply

end Stages

/-! ## Runs -/

namespace Coordinator

/-- A message is answered once, unless it is a greeting or a notice or its handling raises. -/
theorem Effect.replies {c : Coordinator} {m : Message} {o : Outcome} (h : Effect c m o) :
    (o.2 = .ok [] ∧ m.Silent) ∨ (∃ r, o.2 = .ok [r]) ∨ ∃ e, o.2 = .error e := by
  cases h with
  | silent htype => exact Or.inl ⟨rfl, htype⟩
  | raised e => exact Or.inr (Or.inr ⟨e, rfl⟩)
  | planRaised _ _ => exact Or.inr (Or.inr ⟨_, rfl⟩)
  | _ => exact Or.inr (Or.inl ⟨_, rfl⟩)

end Coordinator

namespace Service

/-- Requests, and replies to clients that wait for them, are within the limit on payloads. -/
def Carried (s : Service) : ServiceAction → Prop
  | .call _ request => WithinLimit request
  | .lock conn fs =>
      ∀ l dec dec' m rs, s.links.find? conn = some l → l.thread = .handling dec m →
        l.peer = .waiting dec' → (Coordinator.handle fs s.coord m).2 = .ok rs →
          ∀ r ∈ rs, WithinLimit r
  | _ => True

/-- What holds of the connections of clients and of their calls. -/
structure Linear (s : Service) : Prop where
  consistent : s.coord.Consistent
  observed : ∀ o ∈ s.history, o.conn < s.nextConn
  numbered : ∀ {conn l}, s.links.find? conn = some l → conn < s.nextConn
  conversation : ∀ {conn}, .accepted conn true ∈ s.history →
    Conversation conn (calls conn s.history)
  talking : s.terminated = false → ∀ {conn l}, s.links.find? conn = some l →
    .accepted conn true ∈ s.history → Talking conn l (calls conn s.history)

variable {s s' : Service}

theorem linear_start (epoch : CoordinatorEpoch) : Linear (start epoch) := by
  refine ⟨Coordinator.consistent_new epoch, by simp [start], ?_, by simp [start], by simp [start]⟩
  intro conn l hl
  cases hl

/-- A step of one connection, with the observations it adds to the calls made over it. -/
theorem Linear.advance (h : Linear s) (hcons : s'.coord.Consistent) {conn : ℕ} {l l' : Link}
    (hl : s.links.find? conn = some l) {os : List Observation}
    (hos : ∀ o ∈ os, o.isCallOf conn = true) (hlinks : s'.links = s.links.insert conn l')
    (hnext : s'.nextConn = s.nextConn) (hhistory : s'.history = s.history ++ os)
    (hrun : s.terminated = false)
    (hconv : .accepted conn true ∈ s.history → Conversation conn (calls conn s.history ++ os))
    (htalk : s'.terminated = false → .accepted conn true ∈ s.history →
      Talking conn l' (calls conn s.history ++ os)) : Linear s' := by
  have hmem : ∀ {conn'}, .accepted conn' true ∈ s'.history → .accepted conn' true ∈ s.history := by
    intro conn' hacc
    rw [hhistory] at hacc
    rcases List.mem_append.mp hacc with hacc | hacc
    · exact hacc
    · cases hos _ hacc
  have hsame : calls conn s'.history = calls conn s.history ++ os := by
    rw [hhistory, calls_append_of_all hos]
  have hother : ∀ {conn'}, conn' ≠ conn → calls conn' s'.history = calls conn' s.history := by
    intro conn' hne
    rw [hhistory, calls_append_of_none (fun o ho => isCallOf_of_ne (hos o ho) hne)]
  refine ⟨hcons, ?_, ?_, ?_, ?_⟩
  · intro o ho
    rw [hhistory] at ho
    rw [hnext]
    rcases List.mem_append.mp ho with ho | ho
    · exact h.observed o ho
    · rw [conn_of_isCallOf (hos o ho)]
      exact h.numbered hl
  · intro conn' k hk
    rw [hlinks, OrdMap.find?_insert] at hk
    rw [hnext]
    split_ifs at hk with heq
    · rw [heq]
      exact h.numbered hl
    · exact h.numbered hk
  · intro conn' hacc
    by_cases hne : conn' = conn
    · rw [hne, hsame]
      rw [hne] at hacc
      exact hconv (hmem hacc)
    · rw [hother hne]
      exact h.conversation (hmem hacc)
  · intro hterm conn' k hk hacc
    rw [hlinks, OrdMap.find?_insert] at hk
    split_ifs at hk with hne
    · cases hk
      rw [hne, hsame]
      rw [hne] at hacc
      exact htalk hterm (hmem hacc)
    · rw [hother hne]
      exact h.talking hrun hk (hmem hacc)

/-- A step of one connection outside the lock. -/
theorem Linear.setLink (h : Linear s) (hrun : s.terminated = false) {conn : ℕ} {l l' : Link}
    (hl : s.links.find? conn = some l)
    (htalk : ∀ {os}, Talking conn l os → Talking conn l' os) : Linear (s.setLink conn l') := by
  have hnew : .accepted conn true ∈ s.history → Talking conn l' (calls conn s.history ++ []) := by
    intro hacc
    rw [List.append_nil]
    exact htalk (h.talking hrun hl hacc)
  exact h.advance h.consistent hl (by simp) rfl rfl (List.append_nil _).symm hrun
    (fun hacc => (hnew hacc).conversation) (fun _ hacc => hnew hacc)

/-- The same with an observation at the client's end. -/
theorem Linear.setLink_observe (h : Linear s) (hrun : s.terminated = false) {conn : ℕ}
    {l l' : Link} (hl : s.links.find? conn = some l) {o : Observation}
    (ho : o.isCallOf conn = true)
    (htalk : ∀ {os}, Talking conn l os → Talking conn l' (os ++ [o])) :
    Linear ((s.setLink conn l').observe o) := by
  have hnew : .accepted conn true ∈ s.history → Talking conn l' (calls conn s.history ++ [o]) :=
    fun hacc => htalk (h.talking hrun hl hacc)
  exact h.advance h.consistent hl (by simpa using ho) rfl rfl rfl hrun
    (fun hacc => (hnew hacc).conversation) (fun _ hacc => hnew hacc)

theorem Linear.acceptPeer (h : Linear s) (hrun : s.terminated = false) (client : Bool) :
    Linear (s.acceptPeer client) := by
  have hmem : ∀ {conn}, .accepted conn true ∈ s.history ++ [.accepted s.nextConn client] →
      .accepted conn true ∈ s.history ∨ (conn = s.nextConn ∧ client = true) := by
    intro conn hacc
    rcases List.mem_append.mp hacc with hacc | hacc
    · exact Or.inl hacc
    · cases List.mem_singleton.mp hacc
      exact Or.inr ⟨rfl, rfl⟩
  have hcalls : ∀ conn, calls conn (s.history ++ [.accepted s.nextConn client]) =
      calls conn s.history := by
    intro conn
    exact calls_append_of_none (by simp [Observation.isCallOf])
  have hnil : calls s.nextConn s.history = [] :=
    calls_eq_nil (fun o ho => (h.observed o ho).ne)
  refine ⟨h.consistent, ?_, ?_, ?_, ?_⟩
  · intro o ho
    change o.conn < s.nextConn + 1
    rcases List.mem_append.mp ho with ho | ho
    · exact Nat.lt_succ_of_lt (h.observed o ho)
    · cases List.mem_singleton.mp ho
      exact Nat.lt_succ_self _
  · intro conn l hl
    change conn < s.nextConn + 1
    change (s.links.insert _ _).find? conn = _ at hl
    by_cases heq : conn = s.nextConn
    · rw [heq]
      exact Nat.lt_succ_self _
    · rw [OrdMap.find?_insert_of_ne _ _ heq] at hl
      exact Nat.lt_succ_of_lt (h.numbered hl)
  · intro conn hacc
    change Conversation conn (calls conn (s.history ++ _))
    rw [hcalls]
    rcases hmem hacc with hacc | ⟨rfl, -⟩
    · exact h.conversation hacc
    · rw [hnil]
      exact ⟨[], [], rfl, by simp, .none⟩
  · intro _ conn l hl hacc
    change Talking conn l (calls conn (s.history ++ _))
    rw [hcalls]
    change (s.links.insert _ _).find? conn = _ at hl
    rcases hmem hacc with hacc | ⟨rfl, rfl⟩
    · have hold : conn < s.nextConn := h.observed _ hacc
      rw [OrdMap.find?_insert_of_ne _ _ hold.ne] at hl
      exact h.talking hrun hl hacc
    · rw [OrdMap.find?_insert_self] at hl
      cases hl
      rw [hnil]
      exact ⟨[], [], rfl, by simp, .resting rfl rfl (fun _ => ⟨rfl, rfl⟩)⟩

theorem Linear.handle (h : Linear s) (hrun : s.terminated = false) {conn : ℕ} {l : Link}
    (hl : s.links.find? conn = some l) {dec : FrameDecoder} {m : Message}
    (hthread : l.thread = .handling dec m) {fs : Codec.SaveOutcome}
    (hcarried : s.Carried (.lock conn fs)) : Linear (s.lock conn l fs) := by
  have hcons : (Coordinator.handle fs s.coord m).1.Consistent :=
    h.consistent.step (.message fs m)
  have hreplies := (h.consistent.handle_effect fs m).replies
  cases hout : (Coordinator.handle fs s.coord m).2 with
  | ok rs =>
      rw [hout] at hreplies
      have hone : (rs = [] ∧ m.Silent) ∨ ∃ r, rs = [r] := by
        rcases hreplies with ⟨hnil, hsilent⟩ | ⟨r, hr⟩ | ⟨e, he⟩
        · exact Or.inl ⟨Except.ok.inj hnil, hsilent⟩
        · exact Or.inr ⟨r, Except.ok.inj hr⟩
        · cases he
      have hlock : s.lock conn l fs =
          { s with
            coord := (Coordinator.handle fs s.coord m).1
            links := s.links.insert conn
              { l with
                worker := TcpServer.connWorker l.worker m
                thread := .replying dec rs }
            terminated := false
            history := s.history ++ [.handled conn fs m (.ok rs)] } := by
        simp only [lock, hthread, hout]
      have hnew : .accepted conn true ∈ s.history → Talking conn
          { l with worker := TcpServer.connWorker l.worker m, thread := .replying dec rs }
          (calls conn s.history ++ [.handled conn fs m (.ok rs)]) := by
        intro hacc
        refine (h.talking hrun hl hacc).handle hthread _ fs hone ?_
        intro dec' hpeer
        exact hcarried l dec dec' m rs hl hthread hpeer hout
      rw [hlock]
      exact h.advance hcons hl (by simp [Observation.isCallOf]) rfl rfl rfl hrun
        (fun hacc => (hnew hacc).conversation) (fun _ hacc => hnew hacc)
  | error e =>
      have hlock : s.lock conn l fs =
          { s with
            coord := (Coordinator.handle fs s.coord m).1
            links := s.links.insert conn
              { l with worker := TcpServer.connWorker l.worker m, thread := .closing }
            terminated := true
            history := s.history ++ [.handled conn fs m (.error e)] } := by
        simp only [lock, hthread, hout]
      rw [hlock]
      exact h.advance hcons hl (by simp [Observation.isCallOf]) rfl rfl rfl hrun
        (fun hacc => (h.talking hrun hl hacc).raise hthread fs e) (by simp)

theorem Linear.close (h : Linear s) (hrun : s.terminated = false) {conn : ℕ} {l : Link}
    (hthread : l.thread = .closing) (fs : Codec.SaveOutcome) (hl : s.links.find? conn = some l) :
    Linear (s.lock conn l fs) := by
  have hlock : s.lock conn l fs =
      { s with
        coord := if l.worker ≠ 0 then s.coord.markWorkerDead ⟨l.worker⟩ else s.coord
        links := s.links.erase conn
        history := s.history ++ [.closed conn] } := by
    simp only [lock, hthread]
  have hmem : ∀ {conn'}, .accepted conn' true ∈ s.history ++ [.closed conn] →
      .accepted conn' true ∈ s.history := by
    intro conn' hacc
    simpa using hacc
  have hcalls : ∀ conn', calls conn' (s.history ++ [.closed conn]) = calls conn' s.history :=
    fun conn' => calls_append_of_none (by simp [Observation.isCallOf])
  rw [hlock]
  refine ⟨?_, ?_, ?_, ?_, ?_⟩
  · dsimp only
    split_ifs
    · exact h.consistent.markWorkerDead _
    · exact h.consistent
  · intro o ho
    rcases List.mem_append.mp ho with ho | ho
    · exact h.observed o ho
    · cases List.mem_singleton.mp ho
      exact h.numbered hl
  · intro conn' k hk
    rw [OrdMap.find?_erase] at hk
    split_ifs at hk
    exact h.numbered hk
  · intro conn' hacc
    rw [hcalls]
    exact h.conversation (hmem hacc)
  · intro _ conn' k hk hacc
    rw [OrdMap.find?_erase] at hk
    split_ifs at hk
    rw [hcalls]
    exact h.talking hrun hk (hmem hacc)

theorem Linear.step (h : Linear s) {a : ServiceAction} (hcarried : s.Carried a) :
    Linear (s.step a) := by
  cases hterm : s.terminated with
  | true =>
      rw [step_of_terminated hterm]
      exact h
  | false =>
      have hmove := step_moves hterm a
      generalize s.step a = s' at hmove
      cases hmove with
      | stays => exact h
      | accepts => exact h.acceptPeer hterm _
      | calls hl hpeer =>
          refine h.setLink_observe hterm hl ?_ (fun htalk => htalk.call hpeer hcarried)
          simp [Observation.isCallOf]
      | pushes hl hpeer => exact h.setLink hterm hl (fun htalk => (htalk.ne_foreign hpeer).elim)
      | @hangsUp _ l hl => exact h.setLink hterm hl (fun htalk => htalk.abandon l.toClient)
      | takes hl hthread hne hsplit hfeed =>
          exact h.setLink hterm hl (fun htalk => htalk.take hthread hne hsplit hfeed)
      | decodes hl hthread hne hsplit hfeed =>
          exact h.setLink hterm hl (fun htalk => htalk.decode hthread hne hsplit hfeed)
      | raises => exact ⟨h.consistent, h.observed, h.numbered, h.conversation, by simp⟩
      | leaves hl _ hpeer => exact h.setLink hterm hl (fun htalk => htalk.leave hpeer)
      | handles hl hthread => exact h.handle hterm hl hthread hcarried
      | closes hl hthread => exact h.close hterm hthread _ hl
      | replies hl hthread => exact h.setLink hterm hl (fun htalk => htalk.reply hthread)
      | reads hl hpeer hne hsplit hfeed =>
          exact h.setLink hterm hl (fun htalk => htalk.read hpeer hne hsplit hfeed)
      | returns hl hpeer hne hsplit hfeed =>
          refine h.setLink_observe hterm hl ?_
            (fun htalk => htalk.return hpeer hne hsplit hfeed)
          simp [Observation.isCallOf]
      | aborts hl => exact h.setLink hterm hl (fun htalk => htalk.abandon _)

theorem linear_run {epoch : CoordinatorEpoch} {actions : List ServiceAction}
    (hall : AllSteps step Carried (start epoch) actions) :
    Linear (runFrom step (start epoch) actions) :=
  runFrom_induction (linear_start epoch) (fun _ _ h hcarried => h.step hcarried) hall

/-! ## A call from its request to its reply -/

/-- The service runs, with the connection, the coordinator and the history as given. -/
structure At (s : Service) (conn : ℕ) (l : Link) (c : Coordinator)
    (history : List Observation) : Prop where
  running : s.terminated = false
  link : s.links.find? conn = some l
  coord : s.coord = c
  history : s.history = history

section Call

variable {s : Service} {conn n : ℕ} {l : Link} {c : Coordinator} {os : List Observation}
  {dec dec' : FrameDecoder} {m : Message}

theorem At.setLink (h : At s conn l c os) (l' : Link) : At (s.setLink conn l') conn l' c os :=
  ⟨h.running, OrdMap.find?_insert_self _ _ _, h.coord, h.history⟩

theorem At.observe (h : At s conn l c os) (o : Observation) :
    At (s.observe o) conn l c (os ++ [o]) :=
  ⟨h.running, h.link, h.coord, congrArg (fun os => os ++ [o]) h.history⟩

theorem At.call (h : At s conn l c os) (hpeer : l.peer = .idle) (request : Message) :
    At (s.step (.call conn request)) conn
      { l with toServer := l.toServer ++ frameEncode request, peer := .waiting {} } c
      (os ++ [.called conn request]) := by
  simp only [step, h.running, onLink, h.link, Service.call, hpeer]
  exact (h.setLink _).observe _

theorem At.receive (h : At s conn l c os) (hthread : l.thread = .receiving dec)
    (havail : available l.toServer n = true)
    (hfeed : dec.feed (l.toServer.take n) = (dec', .ok (some m))) :
    At (s.step (.receive conn n)) conn
      { l with toServer := l.toServer.drop n, thread := .handling dec' m } c os := by
  simp only [step, h.running, onLink, h.link, Service.receive, hthread, havail, hfeed, if_true]
  exact h.setLink _

theorem At.lock (h : At s conn l c os) (hthread : l.thread = .handling dec m)
    (fs : Codec.SaveOutcome) {rs : List Message}
    (hrs : (Coordinator.handle fs c m).2 = .ok rs) :
    At (s.step (.lock conn fs)) conn
      { l with worker := TcpServer.connWorker l.worker m, thread := .replying dec rs }
      (Coordinator.handle fs c m).1 (os ++ [.handled conn fs m (.ok rs)]) := by
  simp only [step, h.running, onLink, h.link, Service.lock, hthread, h.coord, hrs, h.history]
  exact ⟨rfl, OrdMap.find?_insert_self _ _ _, rfl, rfl⟩

theorem At.reply (h : At s conn l c os) {rs : List Message}
    (hthread : l.thread = .replying dec rs) :
    At (s.step (.reply conn)) conn
      { l with toClient := l.toClient ++ rs.flatMap frameEncode, thread := .receiving dec } c
      os := by
  simp only [step, h.running, onLink, h.link, Service.reply, hthread]
  exact h.setLink _

theorem At.read (h : At s conn l c os) (hpeer : l.peer = .waiting dec)
    (havail : available l.toClient n = true)
    (hfeed : dec.feed (l.toClient.take n) = (dec', .ok (some m))) :
    At (s.step (.read conn n)) conn { l with toClient := l.toClient.drop n, peer := .idle } c
      (os ++ [.returned conn m]) := by
  simp only [step, h.running, onLink, h.link, Service.read, hpeer, havail, hfeed, if_true]
  exact (h.setLink _).observe _

/-- A frame that arrives in one piece. -/
theorem feed_whole {r : Message} (hfits : WithinLimit m)
    (hlen : (frameEncode m).length ≤ recvBuffer)
    (hdec : frameDecode (frameEncode m) = .ok (some r)) :
    FrameDecoder.feed {} ((frameEncode m).take recvBuffer) = ({}, .ok (some r)) := by
  have hwhole : ({} : FrameDecoder).buf ++ frameEncode m = frameEncode m ++ [] := by
    rw [List.append_nil, List.nil_append]
  rw [List.take_of_length_le hlen]
  exact (FrameDecoder.feed_block hfits.block hwhole).2 _ hdec

theorem available_frame (hfits : WithinLimit m) : available (frameEncode m) recvBuffer = true := by
  have hlen := hfits.block.length_eq
  refine decide_eq_true ⟨by decide, le_rfl, ?_⟩
  intro hnil
  rw [hnil, List.length_nil] at hlen
  omega

/-- The steps of a call whose request and reply arrive in one piece. -/
def callSteps (conn : ℕ) (request : Message) (fs : Codec.SaveOutcome) : List ServiceAction :=
  [.call conn request, .receive conn recvBuffer, .lock conn fs, .reply conn,
    .read conn recvBuffer]

/-- A client between two requests gets the reply of the coordinator to its next one. -/
theorem At.callSteps {worker : UInt64}
    (h : At s conn { worker := worker, peer := .idle } c os) {request r reply : Message}
    {fs : Codec.SaveOutcome} (hrequest : WithinLimit request)
    (hrequestLen : (frameEncode request).length ≤ recvBuffer)
    (hrequestDec : frameDecode (frameEncode request) = .ok (some m))
    (hr : (Coordinator.handle fs c m).2 = .ok [r]) (hreply : WithinLimit r)
    (hreplyLen : (frameEncode r).length ≤ recvBuffer)
    (hreplyDec : frameDecode (frameEncode r) = .ok (some reply)) :
    AllSteps step Carried s (Service.callSteps conn request fs) ∧
      At (runFrom step s (Service.callSteps conn request fs)) conn
        { worker := TcpServer.connWorker worker m, peer := .idle }
        (Coordinator.handle fs c m).1
        (os ++ [.called conn request] ++ [.handled conn fs m (.ok [r])] ++
          [.returned conn reply]) := by
  have hcalled := h.call rfl request
  dsimp only at hcalled
  rw [List.nil_append] at hcalled
  have hreceived := hcalled.receive rfl (available_frame hrequest)
    (feed_whole hrequest hrequestLen hrequestDec)
  dsimp only at hreceived
  rw [List.drop_of_length_le hrequestLen] at hreceived
  have hlocked := hreceived.lock rfl fs hr
  have hreplied := hlocked.reply rfl
  dsimp only at hreplied
  rw [List.flatMap_singleton, List.nil_append] at hreplied
  have hreturned := hreplied.read rfl (available_frame hreply)
    (feed_whole hreply hreplyLen hreplyDec)
  dsimp only at hreturned
  rw [List.drop_of_length_le hreplyLen] at hreturned
  refine ⟨⟨hrequest, trivial, ?_, trivial, trivial, trivial⟩, hreturned⟩
  intro l dec₁ dec₂ m' rs hl hthread _ hrs r' hr'
  rw [hreceived.link] at hl
  cases hl
  cases hthread
  rw [hreceived.coord, hr] at hrs
  cases hrs
  rw [List.mem_singleton.mp hr']
  exact hreply

end Call

/-- Over every interleaving of threads and clients, with requests and awaited replies within the
limit on payloads, the messages are handled one after the other, and the calls of each client are
rounds of a request, the handling of what it decodes to and the decoded reply, in this order, with
no more than one call that has not returned. -/
theorem calls_linearizable (epoch : CoordinatorEpoch) (actions : List ServiceAction)
    (hall : AllSteps step Carried (start epoch) actions) :
    let history := (runFrom step (start epoch) actions).history
    Sequential epoch history ∧
      ∀ conn, .accepted conn true ∈ history → Conversation conn (calls conn history) :=
  ⟨(explained_run epoch actions).outcomes, fun _ hacc => (linear_run hall).conversation hacc⟩

/-- Cancels a plan that is not there. -/
def inquiry : Message := .cancelPlan 7

def refusal : Message := Coordinator.fail "unknown plan"

theorem frameDecode_inquiry : frameDecode (frameEncode inquiry) = .ok (some inquiry) := by
  have hframe : frameDecode (frameEncode inquiry) = decodePayload (encodePayload inquiry) :=
    frameDecode_frame (by decide)
  rw [hframe, decodePayload_of_transmitted (sendable_plain rfl rfl rfl rfl rfl) rfl]

theorem frameDecode_refusal : frameDecode (frameEncode refusal) = .ok (some refusal) := by
  have hframe : frameDecode (frameEncode refusal) = decodePayload (encodePayload refusal) :=
    frameDecode_frame (by decide)
  have hsendable : Sendable refusal := by
    refine ⟨by decide, sendablePlan_default, ?_, by decide, by decide⟩
    intro lo hi hlo
    cases hlo
  rw [hframe, decodePayload_of_transmitted hsendable rfl]

def calmDisk : Codec.SaveOutcome := ⟨true, 0, 0, true⟩

def inquiryRun : List ServiceAction := .accept true :: callSteps 0 inquiry calmDisk

theorem at_accepted :
    At ((start ⟨1⟩).step (.accept true)) 0 { worker := 0, peer := .idle } (Coordinator.new ⟨1⟩)
      [.accepted 0 true] := ⟨rfl, rfl, rfl, rfl⟩

theorem inquiryRun_steps :
    AllSteps step Carried (start ⟨1⟩) inquiryRun ∧
      (runFrom step (start ⟨1⟩) inquiryRun).history =
        [.accepted 0 true, .called 0 inquiry, .handled 0 calmDisk inquiry (.ok [refusal]),
          .returned 0 refusal] := by
  have hr : (Coordinator.handle calmDisk (Coordinator.new ⟨1⟩) inquiry).2 = .ok [refusal] := rfl
  have hcall := at_accepted.callSteps (by decide) (by decide +kernel) frameDecode_inquiry hr
    (by decide) (by decide +kernel) frameDecode_refusal
  rw [inquiryRun, allSteps_cons, runFrom_cons, hcall.2.history]
  exact ⟨⟨trivial, hcall.1⟩, rfl⟩

/-- A call that is refused. -/
theorem calls_linearizable_inquiry :
    calls 0 (runFrom step (start ⟨1⟩) inquiryRun).history =
        [.called 0 inquiry, .handled 0 calmDisk inquiry (.ok [refusal]), .returned 0 refusal] ∧
      Conversation 0 (calls 0 (runFrom step (start ⟨1⟩) inquiryRun).history) := by
  obtain ⟨hall, hhistory⟩ := inquiryRun_steps
  refine ⟨by rw [hhistory]; rfl, (calls_linearizable ⟨1⟩ inquiryRun hall).2 0 ?_⟩
  rw [hhistory]
  simp

/-- Within the limit on payloads a client waits in vain only for what is not sent: nothing is left
to be done on its connection, and the request was dropped, or it is one that is not answered, or
the reply was dropped. -/
theorem reply_not_lost (epoch : CoordinatorEpoch) (actions : List ServiceAction)
    (hall : AllSteps step Carried (start epoch) actions) (conn : ℕ) (l : Link)
    (dec dec' : FrameDecoder)
    (hrun : (runFrom step (start epoch) actions).terminated = false)
    (hl : (runFrom step (start epoch) actions).links.find? conn = some l)
    (hclient : .accepted conn true ∈ (runFrom step (start epoch) actions).history)
    (hwaiting : l.peer = .waiting dec) (hreceiving : l.thread = .receiving dec')
    (hin : l.toServer = []) (hout : l.toClient = []) :
    ∃ front request,
      (calls conn (runFrom step (start epoch) actions).history = front ++ [.called conn request] ∧
        frameDecode (frameEncode request) = .ok none) ∨
      ∃ fs m rs, calls conn (runFrom step (start epoch) actions).history =
          front ++ [.called conn request, .handled conn fs m (.ok rs)] ∧
        ((rs = [] ∧ m.Silent) ∨ ∃ r, rs = [r] ∧ frameDecode (frameEncode r) = .ok none) := by
  obtain ⟨rounds, pending, heq, -, hstage⟩ := (linear_run hall).talking hrun hl hclient
  have hthere : l.peer ≠ .gone := by simp [hwaiting]
  rw [heq]
  cases hstage with
  | dropped _ _ hdrop _ => exact ⟨_, _, Or.inl ⟨rfl, hdrop⟩⟩
  | unanswered _ _ _ _ hdrop => exact ⟨_, _, Or.inr ⟨_, _, _, rfl, hdrop⟩⟩
  | resting _ _ hpeer => simp [hwaiting] at hpeer
  | sent hthread _ hstream hlt _ =>
      rw [hin, List.append_nil] at hstream
      rw [hstream] at hlt
      exact (lt_irrefl _ hlt).elim
  | decoded hthread _ _ _ => simp [hreceiving] at hthread
  | answered hthread _ _ _ _ => simp [hreceiving] at hthread
  | returning _ _ _ hpeer =>
      obtain ⟨_, _, _, hstream, hlt⟩ := hpeer hthere
      rw [hout, List.append_nil] at hstream
      rw [hstream] at hlt
      exact (lt_irrefl _ hlt).elim
  | ended _ hgone _ => exact (hthere hgone).elim

def greetingRun : List ServiceAction :=
  [.accept true, .call 0 greeting, .receive 0 recvBuffer, .lock 0 calmDisk, .reply 0]

theorem at_greeted :
    AllSteps step Carried (start ⟨1⟩) greetingRun ∧
      At (runFrom step (start ⟨1⟩) greetingRun) 0 { peer := .waiting {} } (Coordinator.new ⟨1⟩)
        [.accepted 0 true, .called 0 greeting, .handled 0 calmDisk greeting (.ok [])] := by
  have hfits : WithinLimit greeting := by decide
  have hlen : (frameEncode greeting).length ≤ recvBuffer := by decide +kernel
  have hcalled := at_accepted.call rfl greeting
  dsimp only at hcalled
  rw [List.nil_append] at hcalled
  have hreceived := hcalled.receive rfl (available_frame hfits)
    (feed_whole hfits hlen frameDecode_greeting)
  dsimp only at hreceived
  rw [List.drop_of_length_le hlen] at hreceived
  have hsilent : (Coordinator.handle calmDisk (Coordinator.new ⟨1⟩) greeting).2 = .ok [] := rfl
  have hlocked := hreceived.lock rfl calmDisk hsilent
  have hreplied := hlocked.reply rfl
  simp only [greetingRun, allSteps_cons, allSteps_nil, runFrom_cons, runFrom_nil]
  refine ⟨⟨trivial, hfits, trivial, ?_, trivial, trivial⟩, hreplied⟩
  intro l dec₁ dec₂ m rs hl hthread _ hrs r hr
  rw [hreceived.link] at hl
  cases hl
  cases hthread
  rw [hreceived.coord] at hrs
  cases hrs
  cases hr

/-- A greeting is not answered. -/
theorem reply_not_lost_greeting :
    ∃ front request,
      (calls 0 (runFrom step (start ⟨1⟩) greetingRun).history = front ++ [.called 0 request] ∧
        frameDecode (frameEncode request) = .ok none) ∨
      ∃ fs m rs, calls 0 (runFrom step (start ⟨1⟩) greetingRun).history =
          front ++ [.called 0 request, .handled 0 fs m (.ok rs)] ∧
        ((rs = [] ∧ m.Silent) ∨ ∃ r, rs = [r] ∧ frameDecode (frameEncode r) = .ok none) := by
  obtain ⟨hall, hat⟩ := at_greeted
  refine reply_not_lost ⟨1⟩ greetingRun hall 0 _ {} {} hat.running hat.link ?_ rfl rfl rfl rfl
  rw [hat.history]
  simp

end Service

end FragmentationGovernor
