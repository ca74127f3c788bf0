import FragmentationGovernor.Verification.Transport.Framing

/-! # Messages over a stream

What a server and a client get out of the frames their peer has sent. A server hands on one
message for a chunk, and a client forgets what follows a frame in its chunk, so that both
depend on how the network cuts the stream. -/

namespace FragmentationGovernor.Protocol

open Codec

/-! ## Frames that are complete -/

/-- The number of frames that lie wholly within the first `n` bytes of a stream. -/
def completed : List (List UInt8) → ℕ → ℕ
  | [], _ => 0
  | f :: fs, n => if f.length ≤ n then completed fs (n - f.length) + 1 else 0

theorem completed_cons_of_le {f : List UInt8} {n : ℕ} (h : f.length ≤ n)
    (fs : List (List UInt8)) : completed (f :: fs) n = completed fs (n - f.length) + 1 := by
  rw [completed, if_pos h]

theorem completed_eq_zero {fs : List (List UInt8)} {n : ℕ}
    (h : ∀ f ∈ fs.head?, n < f.length) : completed fs n = 0 := by
  cases fs with
  | nil => rfl
  | cons f fs => rw [completed, if_neg (not_le.mpr (h f rfl))]

/-- At its end all frames of a stream are complete. -/
theorem completed_flatten (fs : List (List UInt8)) :
    completed fs fs.flatten.length = fs.length := by
  induction fs with
  | nil => rfl
  | cons f fs ih =>
      rw [List.flatten_cons, List.length_append, completed_cons_of_le (Nat.le_add_right _ _),
        Nat.add_sub_cancel_left, ih, List.length_cons]

/-! ## The server -/

/-- After every chunk as many messages have been handed on as frames are complete. -/
def Prompt (d : FrameDecoder) (frames chunks : List (List UInt8)) : Prop :=
  ∀ front, front <+: chunks → ∃ d' ms, d.feedAll front = .ok (d', ms) ∧
    ms.length = completed frames (d.buf.length + front.flatten.length)

/-- No chunk completes more than one frame, with `n` bytes in front of the chunks. -/
def OneByOne (n : ℕ) (frames chunks : List (List UInt8)) : Prop :=
  ∀ front chunk, front ++ [chunk] <+: chunks →
    completed frames (n + (front ++ [chunk]).flatten.length) ≤
      completed frames (n + front.flatten.length) + 1

/-- The frame decodes to a message. -/
def Decodes (f : List UInt8) : Prop := ∃ m, frameDecode f = .ok (some m)

theorem oneByOne_cons {n : ℕ} {frames chunks : List (List UInt8)} {chunk : List UInt8} :
    OneByOne n frames (chunk :: chunks) ↔
      completed frames (n + chunk.length) ≤ completed frames n + 1 ∧
        OneByOne (n + chunk.length) frames chunks := by
  constructor
  · intro h
    refine ⟨by simpa using h [] chunk (by simp), ?_⟩
    intro front next hfront
    have hnext := h (chunk :: front) next (List.prefix_cons_inj chunk |>.mpr hfront)
    simpa [Nat.add_assoc] using hnext
  · rintro ⟨hfirst, hrest⟩ front next hfront
    cases front with
    | nil =>
        rw [List.nil_append, List.cons_prefix_cons] at hfront
        rw [hfront.1]
        simpa using hfirst
    | cons c front =>
        rw [List.cons_append, List.cons_prefix_cons] at hfront
        rw [hfront.1]
        simpa [Nat.add_assoc] using hrest front next hfront.2

theorem oneByOne_nil (n : ℕ) (frames : List (List UInt8)) : OneByOne n frames [] := by
  intro front chunk hfront
  simp at hfront

theorem prompt_cons {d : FrameDecoder} {frames chunks : List (List UInt8)} {chunk : List UInt8}
    (hnone : completed frames d.buf.length = 0) :
    Prompt d frames (chunk :: chunks) ↔ ∃ d' m, d.feed chunk = (d', .ok m) ∧
      ∀ front, front <+: chunks → ∃ d'' ms, d'.feedAll front = .ok (d'', ms) ∧
        m.toList.length + ms.length =
          completed frames (d.buf.length + chunk.length + front.flatten.length) := by
  constructor
  · intro h
    cases hfeed : d.feed chunk with
    | mk d' reply =>
        cases reply with
        | error e =>
            obtain ⟨d'', ms, heq, -⟩ := h [chunk] (by simp)
            rw [FrameDecoder.feedAll, hfeed] at heq
            cases heq
        | ok m =>
            refine ⟨d', m, rfl, ?_⟩
            intro front hfront
            obtain ⟨d'', ms, heq, hlen⟩ :=
              h (chunk :: front) ((List.prefix_cons_inj chunk).mpr hfront)
            rw [FrameDecoder.feedAll_cons_ok hfeed, bind_eq_ok] at heq
            obtain ⟨⟨d₁, ms₁⟩, hrest, heq⟩ := heq
            cases heq
            refine ⟨_, ms₁, hrest, ?_⟩
            rw [← List.length_append, hlen, List.flatten_cons, List.length_append, Nat.add_assoc]
  · rintro ⟨d', m, hfeed, h⟩ front hfront
    cases front with
    | nil => exact ⟨d, [], rfl, by simp [hnone]⟩
    | cons c front =>
        obtain ⟨rfl, hrest⟩ := List.cons_prefix_cons.mp hfront
        obtain ⟨d'', ms, heq, hlen⟩ := h front hrest
        refine ⟨d'', m.toList ++ ms, ?_, ?_⟩
        · rw [FrameDecoder.feedAll_cons_ok hfeed, heq, ok_bind]
        · rw [List.length_append, hlen, List.flatten_cons, List.length_append, Nat.add_assoc]

/-- A prompt decoder starts without a complete frame. -/
theorem Prompt.completed_eq_zero {d : FrameDecoder} {frames chunks : List (List UInt8)}
    (h : Prompt d frames chunks) : completed frames d.buf.length = 0 := by
  obtain ⟨d', ms, heq, hlen⟩ := h [] (List.nil_prefix)
  cases heq
  exact hlen.symm

section Complete

variable {d : FrameDecoder} {f buf chunk : List UInt8} {fs chunks : List (List UInt8)}

theorem completed_behind (hchunk : d.buf ++ chunk = f ++ buf) (n : ℕ) :
    completed (f :: fs) (d.buf.length + chunk.length + n) =
      completed fs (buf.length + n) + 1 := by
  rw [← List.length_append, hchunk, List.length_append, Nat.add_assoc,
    completed_cons_of_le (Nat.le_add_right _ _), Nat.add_sub_cancel_left]

/-- When a chunk completes the first frame, that frame has to decode and the rest has to be
prompt. -/
theorem prompt_complete_iff (hf : Block f) (hnone : completed (f :: fs) d.buf.length = 0)
    (hchunk : d.buf ++ chunk = f ++ buf) :
    Prompt d (f :: fs) (chunk :: chunks) ↔ Decodes f ∧ Prompt ⟨buf⟩ fs chunks := by
  obtain ⟨hreply, hfeed⟩ := FrameDecoder.feed_block hf hchunk
  rw [prompt_cons hnone]
  simp only [completed_behind hchunk]
  cases hdec : frameDecode f with
  | error e =>
      refine iff_of_false ?_ ?_
      · rintro ⟨d', m, hok, -⟩
        rw [hok, hdec] at hreply
        cases hreply
      · rintro ⟨⟨m, hm⟩, -⟩
        rw [hdec] at hm
        cases hm
  | ok reply =>
      rw [hfeed reply hdec]
      cases reply with
      | none =>
          refine iff_of_false ?_ ?_
          · -- the frame is complete and there is no message for it
            rintro ⟨d', m, hok, hall⟩
            cases hok
            obtain ⟨d'', ms, heq, hlen⟩ := hall [] (List.nil_prefix)
            cases heq
            cases hlen
          · rintro ⟨⟨m, hm⟩, -⟩
            rw [hdec] at hm
            cases hm
      | some m =>
          have hf' : Decodes f := ⟨m, hdec⟩
          simp [Prompt, Nat.add_comm 1, hf']

theorem oneByOne_complete_iff (hnone : completed (f :: fs) d.buf.length = 0)
    (hchunk : d.buf ++ chunk = f ++ buf) :
    OneByOne d.buf.length (f :: fs) (chunk :: chunks) ↔
      completed fs buf.length = 0 ∧ OneByOne buf.length fs chunks := by
  have hfirst : completed (f :: fs) (d.buf.length + chunk.length) = completed fs buf.length + 1 :=
    completed_behind hchunk 0
  rw [oneByOne_cons, hnone, hfirst, Nat.add_le_add_iff_right, Nat.le_zero]
  simp only [OneByOne, completed_behind hchunk, Nat.add_le_add_iff_right]

end Complete

/-- A decoder with no complete frame in its buffer is prompt exactly when all frames decode and
no chunk completes two. -/
theorem prompt_iff {d : FrameDecoder} {frames chunks : List (List UInt8)}
    (hblocks : ∀ f ∈ frames, Block f) (hstream : d.buf ++ chunks.flatten = frames.flatten)
    (hnone : completed frames d.buf.length = 0) :
    Prompt d frames chunks ↔ (∀ f ∈ frames, Decodes f) ∧ OneByOne d.buf.length frames chunks := by
  induction chunks generalizing d frames with
  | nil =>
      rw [List.flatten_nil, List.append_nil] at hstream
      have hlen := completed_flatten frames
      rw [← hstream, hnone] at hlen
      rw [List.eq_nil_of_length_eq_zero hlen.symm]
      refine iff_of_true ?_ ⟨by simp, oneByOne_nil _ _⟩
      intro front hfront
      rw [List.prefix_nil.mp hfront]
      exact ⟨d, [], rfl, rfl⟩
  | cons chunk chunks ih =>
      rw [List.flatten_cons, ← List.append_assoc] at hstream
      by_cases hhead : ∀ f ∈ frames.head?, (d.buf ++ chunk).length < f.length
      · have hfeed := FrameDecoder.feed_incomplete hblocks hstream hhead
        have hzero := completed_eq_zero hhead
        have hstep := @ih ⟨d.buf ++ chunk⟩ frames hblocks hstream hzero
        rw [prompt_cons hnone, oneByOne_cons, hnone, ← List.length_append, hfeed, hzero]
        simpa [Prompt] using hstep
      · obtain ⟨f, fs, buf, rfl, hchunk, hrest⟩ := FrameDecoder.exists_of_complete hstream hhead
        rw [prompt_complete_iff (hblocks f (by simp)) hnone hchunk,
          oneByOne_complete_iff hnone hchunk, List.forall_mem_cons]
        by_cases hfs : completed fs buf.length = 0
        · have hstep := @ih ⟨buf⟩ fs (fun g hg => hblocks g (by simp [hg])) hrest hfs
          rw [hstep]
          simp only [hfs, true_and, and_assoc]
        · refine iff_of_false ?_ ?_
          · rintro ⟨-, hprompt⟩
            exact hfs hprompt.completed_eq_zero
          · rintro ⟨-, hzero, -⟩
            exact hfs hzero

/-- Once all bytes have been fed, a prompt decoder has returned a message for every frame. -/
theorem Prompt.delivered {frames chunks : List (List UInt8)} (h : Prompt {} frames chunks)
    (hdivision : chunks.flatten = frames.flatten) :
    ∃ d ms, FrameDecoder.feedAll {} chunks = .ok (d, ms) ∧ ms.length = frames.length := by
  obtain ⟨d, ms, heq, hlen⟩ := h chunks (List.prefix_refl chunks)
  refine ⟨d, ms, heq, ?_⟩
  rw [hlen, hdivision, ← completed_flatten frames]
  exact congrArg _ (Nat.zero_add _)

/-- What it has returned is then what the frames decode to. -/
theorem Prompt.messages {frames chunks : List (List UInt8)} (h : Prompt {} frames chunks)
    (hblocks : ∀ f ∈ frames, Block f) (hdec : ∀ f ∈ frames, Decodes f)
    (hdivision : chunks.flatten = frames.flatten) :
    ∃ d, FrameDecoder.feedAll {} chunks = .ok (d, frames.filterMap decoded) := by
  obtain ⟨d, ms, heq, hlen⟩ := h.delivered hdivision
  have hreturn : ∀ f ∈ frames, ∃ m, frameDecode f = .ok m := by
    intro f hf
    obtain ⟨m, hm⟩ := hdec f hf
    exact ⟨some m, hm⟩
  obtain ⟨taken, left, d', rfl, heq', -⟩ :=
    @feedAll_stream frames chunks {} hblocks hreturn hdivision
  rw [heq] at heq'
  cases heq'
  have hle := List.length_filterMap_le decoded taken
  rw [List.length_append] at hlen
  have hleft : left = [] := List.eq_nil_of_length_eq_zero (by omega)
  rw [hleft, List.append_nil]
  exact ⟨_, heq⟩

theorem filterMap_decoded_eq_iff {msgs : List Message}
    (hdec : ∀ f ∈ msgs.map frameEncode, Decodes f) :
    (msgs.map frameEncode).filterMap decoded = msgs ↔
      ∀ m ∈ msgs, frameDecode (frameEncode m) = .ok (some m) := by
  induction msgs with
  | nil => simp
  | cons m msgs ih =>
      obtain ⟨m', hm'⟩ := hdec (frameEncode m) (by simp)
      have hrest := ih (fun f hf => hdec f (by rw [List.map_cons]; simp [hf]))
      rw [List.map_cons, List.filterMap_cons, decoded_eq hm', List.forall_mem_cons, hm', ← hrest]
      simp

theorem block_of_mem_frames {msgs : List Message}
    (h : ∀ m ∈ msgs, (encodePayload m).length ≤ protocolMaxPayload) :
    ∀ f ∈ msgs.map frameEncode, Block f := by
  intro f hf
  obtain ⟨m, hm, rfl⟩ := List.mem_map.mp hf
  exact block_frame (h m hm)

/-- A fresh decoder has no frame in its buffer. -/
theorem prompt_start_iff {frames chunks : List (List UInt8)} (hblocks : ∀ f ∈ frames, Block f)
    (hdivision : chunks.flatten = frames.flatten) :
    Prompt {} frames chunks ↔ (∀ f ∈ frames, Decodes f) ∧ OneByOne 0 frames chunks := by
  refine @prompt_iff {} frames chunks hblocks hdivision (completed_eq_zero ?_)
  intro f hf
  have hlen := (hblocks f (List.mem_of_mem_head? hf)).length_eq
  rw [List.length_nil]
  omega

/-- The messages a server is sent are handed on as their frames arrive, and all of them once
the last byte has, exactly when each is carried whole by its frame and no chunk completes more
than one frame. -/
theorem feedAll_prompt_iff (msgs : List Message) (chunks : List (List UInt8))
    (hdivision : chunks.flatten = (msgs.map frameEncode).flatten) :
    (Prompt {} (msgs.map frameEncode) chunks ∧
        ∃ d, FrameDecoder.feedAll {} chunks = .ok (d, msgs)) ↔
      (∀ m ∈ msgs, frameDecode (frameEncode m) = .ok (some m)) ∧
        OneByOne 0 (msgs.map frameEncode) chunks := by
  constructor
  · rintro ⟨hprompt, d, hfed⟩
    -- a message that was handed on has a frame, so its payload is within the limit
    have hblocks : ∀ f ∈ msgs.map frameEncode, Block f := by
      apply block_of_mem_frames
      intro m hm
      obtain ⟨f, hf⟩ := exists_frame_of_feedAll hfed m hm
      exact fits_of_frameDecode hf
    obtain ⟨hdec, hone⟩ := (prompt_start_iff hblocks hdivision).mp hprompt
    obtain ⟨d', hmessages⟩ := hprompt.messages hblocks hdec hdivision
    rw [hfed, Except.ok.injEq, Prod.mk.injEq] at hmessages
    exact ⟨(filterMap_decoded_eq_iff hdec).mp hmessages.2.symm, hone⟩
  · rintro ⟨hcarried, hone⟩
    have hblocks := block_of_mem_frames fun m hm => fits_of_frameDecode (hcarried m hm)
    have hdec : ∀ f ∈ msgs.map frameEncode, Decodes f := by
      intro f hf
      obtain ⟨m, hm, rfl⟩ := List.mem_map.mp hf
      exact ⟨m, hcarried m hm⟩
    have hprompt := (prompt_start_iff hblocks hdivision).mpr ⟨hdec, hone⟩
    obtain ⟨d, hmessages⟩ := hprompt.messages hblocks hdec hdivision
    rw [(filterMap_decoded_eq_iff hdec).mpr hcarried] at hmessages
    exact ⟨hprompt, d, hmessages⟩

/-- The frames of two greetings. -/
def greetingFrames : List (List UInt8) := [greeting, greeting].map frameEncode

theorem carried_greetings :
    ∀ m ∈ [greeting, greeting], frameDecode (frameEncode m) = .ok (some m) := by
  intro m hm
  simp only [List.mem_cons, List.not_mem_nil, or_false, or_self] at hm
  rw [hm]
  exact frameDecode_greeting

theorem length_greeting : (frameEncode greeting).length = 24 := by decide +kernel

theorem ne_nil_of_mem_greetingFrames : ∀ f ∈ greetingFrames, f ≠ [] := by
  intro f hf hnil
  obtain ⟨m, hm, rfl⟩ := List.mem_map.mp hf
  simp only [List.mem_cons, List.not_mem_nil, or_false, or_self] at hm
  have hlen := length_greeting
  rw [← hm, hnil] at hlen
  cases hlen

/-- Each in a chunk of its own, both are returned. -/
theorem feedAll_prompt_iff_greetings :
    Prompt {} greetingFrames greetingFrames ∧
      ∃ d, FrameDecoder.feedAll {} greetingFrames = .ok (d, [greeting, greeting]) := by
  have hone : OneByOne 0 greetingFrames greetingFrames := by
    rw [greetingFrames, List.map_cons, List.map_singleton, oneByOne_cons, oneByOne_cons]
    simp only [completed, length_greeting]
    exact ⟨by decide, by decide, oneByOne_nil _ _⟩
  exact (feedAll_prompt_iff [greeting, greeting] greetingFrames rfl).mpr ⟨carried_greetings, hone⟩

/-- A chunk with both of them gives the first, and leaves the second with the decoder. -/
theorem feed_coalesced :
    FrameDecoder.feed {} greetingFrames.flatten =
      (⟨frameEncode greeting⟩, .ok (some greeting)) := by
  have hblock : Block (frameEncode greeting) := block_of_frameDecode frameDecode_greeting
  have hsplit : ({} : FrameDecoder).buf ++ greetingFrames.flatten =
      frameEncode greeting ++ frameEncode greeting := by
    simp [greetingFrames]
  exact (FrameDecoder.feed_block hblock hsplit).2 _ frameDecode_greeting

/-- In one chunk, the second is not. -/
theorem coalesced_greetings :
    (∃ d, FrameDecoder.feedAll {} [greetingFrames.flatten] = .ok (d, [greeting])) ∧
      ¬ Prompt {} greetingFrames [greetingFrames.flatten] := by
  have hfed : FrameDecoder.feedAll {} [greetingFrames.flatten] =
      .ok (⟨frameEncode greeting⟩, [greeting]) := by
    rw [FrameDecoder.feedAll_cons_ok feed_coalesced]
    rfl
  refine ⟨⟨_, hfed⟩, ?_⟩
  intro h
  obtain ⟨d, ms, heq, hlen⟩ := h.delivered (by simp)
  rw [hfed] at heq
  cases heq
  cases hlen

end FragmentationGovernor.Protocol

/-! ## The client -/

namespace FragmentationGovernor.TcpClient

open Codec Protocol

/-- A call that returns a message has read its frame. -/
theorem recvWith_eq_some {d : FrameDecoder} {chunks rest : List (List UInt8)} {m : Message}
    (h : recvWith d chunks = (.ok (some m), rest)) :
    ∃ used f, chunks = used ++ rest ∧ f <:+: d.buf ++ used.flatten ∧
      frameDecode f = .ok (some m) := by
  induction chunks generalizing d with
  | nil => cases h
  | cons chunk chunks ih =>
      by_cases hempty : chunk.isEmpty = true
      · rw [recvWith, if_pos hempty] at h
        cases h
      cases hfeed : d.feed chunk with
      | mk d' reply =>
          rw [recvWith, if_neg hempty, hfeed] at h
          cases reply with
          | error e => cases h
          | ok reply =>
              obtain ⟨hsuffix, hmessage⟩ := FrameDecoder.feed_eq_ok hfeed
              cases reply with
              | some m' =>
                  cases h
                  obtain ⟨f, hf, hdec⟩ := hmessage m rfl
                  exact ⟨[chunk], f, rfl, by simpa using hf.isInfix, hdec⟩
              | none =>
                  obtain ⟨used, f, rfl, hf, hdec⟩ := ih h
                  refine ⟨chunk :: used, f, rfl, ?_, hdec⟩
                  rw [List.flatten_cons, ← List.append_assoc]
                  obtain ⟨front, hfront⟩ := hsuffix
                  refine hf.trans ⟨front, [], ?_⟩
                  rw [← hfront, List.append_nil, List.append_assoc]

/-- Calls that return these messages have each read at least the bytes of a frame. -/
theorem recvFrames_eq_map {msgs : List Message} {chunks : List (List UInt8)}
    (h : recvFrames msgs.length chunks = msgs.map (fun m => .ok (some m))) :
    ∃ groups rest, chunks = groups.flatten ++ rest ∧
      List.Forall₂ (fun g m => ∃ f, f <:+: g.flatten ∧ frameDecode f = .ok (some m))
        groups msgs := by
  induction msgs generalizing chunks with
  | nil => exact ⟨[], chunks, rfl, List.Forall₂.nil⟩
  | cons m msgs ih =>
      rw [List.length_cons, recvFrames, List.map_cons] at h
      cases hcall : recvFrame chunks with
      | mk reply rest =>
          rw [hcall] at h
          dsimp only at h
          rw [List.cons.injEq] at h
          obtain ⟨rfl, hrest⟩ := h
          obtain ⟨used, f, rfl, hf, hdec⟩ := recvWith_eq_some hcall
          obtain ⟨groups, rest, rfl, hall⟩ := ih hrest
          refine ⟨used :: groups, rest, ?_, List.Forall₂.cons ⟨f, hf, hdec⟩ hall⟩
          rw [List.flatten_cons, List.append_assoc]

/-- The frames are no longer than what was read for them. -/
theorem length_frames_le {groups : List (List (List UInt8))} {msgs : List Message}
    (h : List.Forall₂ (fun g m => (frameEncode m).length ≤ g.flatten.length) groups msgs) :
    (msgs.map frameEncode).flatten.length ≤ groups.flatten.flatten.length := by
  induction h with
  | nil => exact le_refl 0
  | @cons g m groups msgs hle _ ih =>
      simp only [List.map_cons, List.flatten_cons, List.flatten_append, List.length_append]
      exact Nat.add_le_add hle ih

/-- So a stream of nothing but the frames is read frame by frame. -/
theorem groups_eq_frames {groups : List (List (List UInt8))} {msgs : List Message}
    {tail : List UInt8}
    (h : List.Forall₂ (fun g m => (frameEncode m).length ≤ g.flatten.length) groups msgs)
    (hstream : groups.flatten.flatten ++ tail = (msgs.map frameEncode).flatten) :
    groups.map List.flatten = msgs.map frameEncode ∧ tail = [] := by
  induction h with
  | nil => exact ⟨rfl, hstream⟩
  | @cons g m groups msgs hle hrest ih =>
      simp only [List.map_cons, List.flatten_cons, List.flatten_append,
        List.append_assoc] at hstream ⊢
      have hlen := congrArg List.length hstream
      simp only [List.length_append] at hlen
      have hrestLe := length_frames_le hrest
      obtain ⟨hfirst, hothers⟩ := List.append_inj hstream (by omega)
      obtain ⟨hmap, htail⟩ := ih hothers
      exact ⟨by rw [hfirst, hmap], htail⟩

/-- A call on the chunks of one frame returns its message and leaves the others. -/
theorem recvWith_group {d : FrameDecoder} {f : List UInt8} {m : Message} {g : List (List UInt8)}
    (hblock : Block f) (hdec : frameDecode f = .ok (some m)) (hne : ∀ c ∈ g, c ≠ [])
    (hg : d.buf ++ g.flatten = f) (hlt : d.buf.length < f.length) (rest : List (List UInt8)) :
    recvWith d (g ++ rest) = (.ok (some m), rest) := by
  induction g generalizing d with
  | nil =>
      rw [List.flatten_nil, List.append_nil] at hg
      rw [hg] at hlt
      exact (lt_irrefl _ hlt).elim
  | cons c g ih =>
      have hc : ¬ c.isEmpty = true := by simpa using hne c (by simp)
      rw [List.flatten_cons, ← List.append_assoc] at hg
      rw [List.cons_append, recvWith, if_neg hc]
      by_cases hpart : (d.buf ++ c).length < f.length
      · have hfeed : d.feed c = (⟨d.buf ++ c⟩, .ok none) :=
          FrameDecoder.feed_partial hblock (hg.trans (List.append_nil f).symm) hpart
        rw [hfeed]
        exact @ih ⟨d.buf ++ c⟩ (fun x hx => hne x (by simp [hx])) hg hpart
      · -- the chunk ends the frame, and the group ends with it
        have hlen := congrArg List.length hg
        rw [List.length_append] at hlen
        have hnil : g = [] := by
          cases g with
          | nil => rfl
          | cons x g =>
              have hx := List.length_pos_of_ne_nil (hne x (by simp))
              simp only [List.flatten_cons, List.length_append] at hlen
              rw [List.length_append] at hpart
              omega
        rw [hnil, List.flatten_nil, List.append_nil] at hg
        rw [(FrameDecoder.feed_block hblock (hg.trans (List.append_nil f).symm)).2 _ hdec, hnil]
        rfl

/-- What was read for a message is then its frame. -/
theorem carried_of_groups {groups : List (List (List UInt8))} {msgs : List Message}
    (h : List.Forall₂ (fun g m => ∃ f, f <:+: g.flatten ∧ frameDecode f = .ok (some m))
      groups msgs) (hmap : groups.map List.flatten = msgs.map frameEncode) :
    ∀ m ∈ msgs, frameDecode (frameEncode m) = .ok (some m) := by
  induction h with
  | nil => simp
  | @cons g m groups msgs hread _ ih =>
      rw [List.map_cons, List.map_cons, List.cons.injEq] at hmap
      rw [List.forall_mem_cons]
      refine ⟨?_, ih hmap.2⟩
      obtain ⟨f, hf, hdec⟩ := hread
      rw [hmap.1] at hf
      rw [← hf.eq_of_length (length_of_frameDecode hdec)]
      exact hdec

theorem recvFrames_groups {groups : List (List (List UInt8))} {msgs : List Message}
    (hdec : ∀ m ∈ msgs, frameDecode (frameEncode m) = .ok (some m))
    (hne : ∀ c ∈ groups.flatten, c ≠ []) (hmap : groups.map List.flatten = msgs.map frameEncode) :
    recvFrames msgs.length groups.flatten = msgs.map (fun m => .ok (some m)) := by
  induction msgs generalizing groups with
  | nil => rfl
  | cons m msgs ih =>
      cases groups with
      | nil => cases hmap
      | cons g groups =>
          rw [List.map_cons, List.map_cons, List.cons.injEq] at hmap
          rw [List.flatten_cons] at hne ⊢
          have hm := hdec m (by simp)
          have hblock := block_of_frameDecode hm
          have hpos : 0 < (frameEncode m).length := by
            rw [hblock.length_eq]
            omega
          have hcall : recvFrame (g ++ groups.flatten) = (.ok (some m), groups.flatten) :=
            @recvWith_group {} _ m g hblock hm (fun c hc => hne c (by simp [hc])) hmap.1 hpos _
          rw [List.length_cons, recvFrames, hcall, List.map_cons]
          dsimp only
          rw [ih (fun m' hm' => hdec m' (by simp [hm'])) (fun c hc => hne c (by
            rw [List.mem_append]
            exact Or.inr hc)) hmap.2]

/-- Successive calls return the messages that were sent exactly when each of them is carried
whole by its frame and every frame ends where a chunk does. -/
theorem recvFrames_iff (msgs : List Message) (chunks : List (List UInt8))
    (hchunks : ∀ c ∈ chunks, c ≠ [])
    (hdivision : chunks.flatten = (msgs.map frameEncode).flatten) :
    recvFrames msgs.length chunks = msgs.map (fun m => .ok (some m)) ↔
      (∀ m ∈ msgs, frameDecode (frameEncode m) = .ok (some m)) ∧
        ∃ groups : List (List (List UInt8)), groups.flatten = chunks ∧
          groups.map List.flatten = msgs.map frameEncode := by
  constructor
  · intro h
    obtain ⟨groups, rest, rfl, hall⟩ := recvFrames_eq_map h
    rw [List.flatten_append] at hdivision
    have hle : List.Forall₂ (fun g m => (frameEncode m).length ≤ g.flatten.length) groups msgs := by
      refine hall.imp ?_
      rintro g m ⟨f, hf, hdec⟩
      rw [← length_of_frameDecode hdec]
      exact hf.length_le
    obtain ⟨hmap, htail⟩ := groups_eq_frames hle hdivision
    have hrest : rest = [] := by
      cases rest with
      | nil => rfl
      | cons c rest =>
          rw [List.flatten_cons] at htail
          exact (hchunks c (by simp) (List.append_eq_nil_iff.mp htail).1).elim
    exact ⟨carried_of_groups hall hmap, groups, by rw [hrest, List.append_nil], hmap⟩
  · rintro ⟨hdec, groups, rfl, hmap⟩
    exact recvFrames_groups hdec hchunks hmap

/-- Two greetings in chunks of their own. -/
theorem recvFrames_iff_greetings :
    recvFrames 2 greetingFrames = [.ok (some greeting), .ok (some greeting)] := by
  refine (recvFrames_iff [greeting, greeting] greetingFrames ne_nil_of_mem_greetingFrames
    rfl).mpr ⟨carried_greetings, ?_⟩
  exact ⟨[[frameEncode greeting], [frameEncode greeting]], rfl, by simp⟩

/-- In one chunk the second is lost: the call that returns the first takes its bytes along. -/
theorem coalesced_greeting_lost :
    greetingFrames.flatten ≠ [] ∧ greetingFrames.flatten.length ≤ 4096 ∧
      recvFrames 2 [greetingFrames.flatten] = [.ok (some greeting), .ok none] ∧
      recvFrames 2 [greetingFrames.flatten] ≠ [greeting, greeting].map (fun m => .ok (some m)) := by
  have hlen : greetingFrames.flatten.length = 48 := by
    simp [greetingFrames, length_greeting]
  have hne : greetingFrames.flatten ≠ [] := by
    intro hnil
    rw [hnil] at hlen
    cases hlen
  have hempty : ¬ greetingFrames.flatten.isEmpty = true := by simpa using hne
  have hcall : recvFrame [greetingFrames.flatten] = (.ok (some greeting), []) := by
    rw [recvFrame, recvWith, if_neg hempty, feed_coalesced]
  have hcalls : recvFrames 2 [greetingFrames.flatten] = [.ok (some greeting), .ok none] := by
    rw [recvFrames, hcall]
    rfl
  refine ⟨hne, by omega, hcalls, ?_⟩
  rw [hcalls]
  intro heq
  simp at heq

end FragmentationGovernor.TcpClient
