import FragmentationGovernor.Model.Transport
import FragmentationGovernor.Verification.Protocol.Corruption

/-! # Frames in a stream

However a stream is cut into chunks, the decoder finds the frames in it. It hands on no more
than one message for a chunk, and what follows a frame in the chunk that completes it stays
with the decoder. -/

namespace FragmentationGovernor.Protocol

open Codec

/-! ## Blocks -/

/-- As many bytes as a header in front announces, within the limit on payloads. -/
structure Block (b : List UInt8) : Prop where
  length_eq : b.length = 16 + payloadLength b
  fits : payloadLength b ≤ protocolMaxPayload

theorem payloadLength_congr {b b' : List UInt8} (h : b.take 12 = b'.take 12) :
    payloadLength b = payloadLength b' := by
  have hdrop : ∀ bs : List UInt8, (bs.drop 8).take 4 = (bs.take 12).drop 8 := by
    intro bs
    rw [List.drop_take]
  rw [payloadLength, payloadLength, hdrop, hdrop, h]

namespace FrameDecoder

variable {d : FrameDecoder} {data : List UInt8} {b : List UInt8}

/-- A block that is complete is taken from the buffer, whatever it decodes to. -/
theorem feed_block {rest : List UInt8} (hb : Block b) (h : d.buf ++ data = b ++ rest) :
    (d.feed data).2 = frameDecode b ∧
      ∀ m, frameDecode b = .ok m → d.feed data = (⟨rest⟩, .ok m) := by
  have hlen := hb.length_eq
  have hfits := hb.fits
  have hplen : payloadLength (b ++ rest) = payloadLength b :=
    payloadLength_congr (List.take_append_of_le_length (by omega))
  have htake : (b ++ rest).take (12 + payloadLength b + 4) = b :=
    List.take_left' (by omega)
  have hdrop : (b ++ rest).drop (12 + payloadLength b + 4) = rest :=
    List.drop_left' (by omega)
  unfold FrameDecoder.feed
  simp only [h, hplen, htake, hdrop]
  rw [if_neg (by rw [List.length_append]; omega), if_neg (by omega),
    if_neg (by rw [List.length_append]; omega)]
  cases frameDecode b with
  | error e => exact ⟨rfl, by simp⟩
  | ok m =>
      refine ⟨rfl, ?_⟩
      rintro m' ⟨⟩
      rfl

/-- Until the block in front is complete, the bytes are kept. -/
theorem feed_partial {tail rest : List UInt8} (hb : Block b)
    (h : d.buf ++ data ++ tail = b ++ rest) (hlt : (d.buf ++ data).length < b.length) :
    d.feed data = (⟨d.buf ++ data⟩, .ok none) := by
  have hlen := hb.length_eq
  have hfits := hb.fits
  unfold FrameDecoder.feed
  dsimp only
  by_cases hshort : (d.buf ++ data).length < 16
  · rw [if_pos hshort]
  · have hplen : payloadLength (d.buf ++ data) = payloadLength b := by
      apply payloadLength_congr
      have hfront : (d.buf ++ data ++ tail).take 12 = (d.buf ++ data).take 12 :=
        List.take_append_of_le_length (by omega)
      rw [← hfront, h, List.take_append_of_le_length (by omega)]
    rw [if_neg hshort, hplen, if_neg (by omega), if_pos (by omega)]

/-- A feed keeps what it does not consume, and a message it returns was in front. -/
theorem feed_eq_ok {d' : FrameDecoder} {reply : Option Message}
    (h : d.feed data = (d', .ok reply)) :
    d'.buf <:+ d.buf ++ data ∧
      ∀ m, reply = some m → ∃ f, f <+: d.buf ++ data ∧ frameDecode f = .ok (some m) := by
  unfold FrameDecoder.feed at h
  dsimp only at h
  split_ifs at h
  · cases h
    exact ⟨List.suffix_refl _, by simp⟩
  · cases h
    exact ⟨List.nil_suffix, by simp⟩
  · cases h
    exact ⟨List.suffix_refl _, by simp⟩
  · cases hdec : frameDecode ((d.buf ++ data).take (12 + payloadLength (d.buf ++ data) + 4)) with
    | error e =>
        rw [hdec] at h
        cases h
    | ok m =>
        rw [hdec] at h
        cases h
        refine ⟨List.drop_suffix _ _, ?_⟩
        intro m hm
        rw [hm] at hdec
        exact ⟨_, List.take_prefix _ _, hdec⟩

theorem feedAll_cons_ok {d' : FrameDecoder} {m : Option Message}
    (h : d.feed data = (d', .ok m)) (rest : List (List UInt8)) :
    d.feedAll (data :: rest) =
      (do
        let (d, ms) ← d'.feedAll rest
        .ok (d, m.toList ++ ms)) := by
  rw [feedAll, h]

/-- A chunk that completes no block is kept. -/
theorem feed_incomplete {blocks : List (List UInt8)} {tail : List UInt8}
    (hblocks : ∀ b ∈ blocks, Block b) (h : d.buf ++ data ++ tail = blocks.flatten)
    (hhead : ∀ b ∈ blocks.head?, (d.buf ++ data).length < b.length) :
    d.feed data = (⟨d.buf ++ data⟩, .ok none) := by
  cases blocks with
  | nil =>
      have hnil : d.buf ++ data = [] := (List.append_eq_nil_iff.mp h).1
      unfold FrameDecoder.feed
      rw [hnil]
      rfl
  | cons b rest => exact feed_partial (hblocks b (by simp)) h (hhead b rfl)

/-- A chunk that completes a block leaves what follows it in the buffer. -/
theorem exists_of_complete {blocks : List (List UInt8)} {tail : List UInt8}
    (h : d.buf ++ data ++ tail = blocks.flatten)
    (hhead : ¬ ∀ b ∈ blocks.head?, (d.buf ++ data).length < b.length) :
    ∃ b rest buf, blocks = b :: rest ∧ d.buf ++ data = b ++ buf ∧ buf ++ tail = rest.flatten := by
  cases blocks with
  | nil => exact (hhead (by simp)).elim
  | cons b rest =>
      rw [List.flatten_cons] at h
      have hle : b.length ≤ (d.buf ++ data).length := by
        by_contra hlt
        apply hhead
        intro c hc
        cases hc
        omega
      obtain ⟨buf, hbuf⟩ : b <+: d.buf ++ data :=
        List.prefix_of_prefix_length_le ⟨rest.flatten, h.symm⟩ ⟨tail, rfl⟩ hle
      refine ⟨b, rest, buf, rfl, hbuf.symm, ?_⟩
      rw [← hbuf, List.append_assoc] at h
      exact List.append_cancel_left h

end FrameDecoder

/-! ## Whole streams -/

/-- The message a block decodes to, if any. -/
def decoded (b : List UInt8) : Option Message :=
  match frameDecode b with
  | .ok m => m
  | .error _ => none

theorem decoded_eq {b : List UInt8} {m : Option Message} (h : frameDecode b = .ok m) :
    decoded b = m := by
  rw [decoded, h]

/-- After any number of chunks the decoder has taken some of the blocks, handed on what they
decode to, and kept the rest of what it was fed. -/
theorem feedAll_stream {blocks chunks : List (List UInt8)} {d : FrameDecoder}
    (hblocks : ∀ b ∈ blocks, Block b) (hreturn : ∀ b ∈ blocks, ∃ m, frameDecode b = .ok m)
    (h : d.buf ++ chunks.flatten = blocks.flatten) :
    ∃ taken left d', blocks = taken ++ left ∧
      d.feedAll chunks = .ok (d', taken.filterMap decoded) ∧ d'.buf = left.flatten := by
  induction chunks generalizing d blocks with
  | nil =>
      rw [List.flatten_nil, List.append_nil] at h
      exact ⟨[], blocks, d, rfl, rfl, h⟩
  | cons chunk chunks ih =>
      rw [List.flatten_cons, ← List.append_assoc] at h
      by_cases hhead : ∀ b ∈ blocks.head?, (d.buf ++ chunk).length < b.length
      · obtain ⟨taken, left, d', hsplit, heq, hbuf⟩ := @ih blocks ⟨d.buf ++ chunk⟩ hblocks hreturn h
        refine ⟨taken, left, d', hsplit, ?_, hbuf⟩
        rw [FrameDecoder.feedAll_cons_ok (FrameDecoder.feed_incomplete hblocks h hhead), heq]
        rfl
      · obtain ⟨b, rest, buf, rfl, hchunk, hrest⟩ := FrameDecoder.exists_of_complete h hhead
        obtain ⟨m, hm⟩ := hreturn b (by simp)
        have hfeed := (FrameDecoder.feed_block (hblocks b (by simp)) hchunk).2 m hm
        obtain ⟨taken, left, d', rfl, heq, hbuf⟩ := @ih rest ⟨buf⟩
          (fun c hc => hblocks c (by simp [hc])) (fun c hc => hreturn c (by simp [hc])) hrest
        refine ⟨b :: taken, left, d', rfl, ?_, hbuf⟩
        rw [FrameDecoder.feedAll_cons_ok hfeed, heq, List.filterMap_cons, decoded_eq hm]
        cases m with
        | none => rfl
        | some m => rfl

theorem feedAll_append (d : FrameDecoder) (front back : List (List UInt8)) :
    d.feedAll (front ++ back) =
      (do
        let (d, ms) ← d.feedAll front
        let (d, ms') ← d.feedAll back
        .ok (d, ms ++ ms')) := by
  induction front generalizing d with
  | nil =>
      rw [List.nil_append, FrameDecoder.feedAll, ok_bind]
      dsimp only
      cases d.feedAll back with
      | error e => rfl
      | ok x => rfl
  | cons chunk front ih =>
      rw [List.cons_append, FrameDecoder.feedAll, FrameDecoder.feedAll]
      cases d.feed chunk with
      | mk d' reply =>
          cases reply with
          | error e => rfl
          | ok m =>
              dsimp only
              rw [ih d']
              cases d'.feedAll front with
              | error e => rfl
              | ok x =>
                  simp only [ok_bind]
                  cases x.1.feedAll back with
                  | error e => rfl
                  | ok y => simp only [ok_bind, List.append_assoc]

/-- Empty chunks take the complete blocks from the buffer one by one. -/
theorem feedAll_drain {blocks : List (List UInt8)} (hblocks : ∀ b ∈ blocks, Block b)
    (hreturn : ∀ b ∈ blocks, ∃ m, frameDecode b = .ok m) :
    FrameDecoder.feedAll ⟨blocks.flatten⟩ (List.replicate blocks.length []) =
      .ok ({}, blocks.filterMap decoded) := by
  induction blocks with
  | nil => rfl
  | cons b rest ih =>
      obtain ⟨m, hm⟩ := hreturn b (by simp)
      have hfeed : FrameDecoder.feed ⟨(b :: rest).flatten⟩ [] = (⟨rest.flatten⟩, .ok m) :=
        (FrameDecoder.feed_block (hblocks b (by simp)) (List.append_nil _)).2 m hm
      rw [List.length_cons, List.replicate_succ, FrameDecoder.feedAll_cons_ok hfeed,
        ih (fun c hc => hblocks c (by simp [hc])) (fun c hc => hreturn c (by simp [hc])),
        List.filterMap_cons, decoded_eq hm]
      cases m with
      | none => rfl
      | some m => rfl

theorem eq_nil_of_flatten {blocks : List (List UInt8)} (hblocks : ∀ b ∈ blocks, Block b)
    (h : blocks.flatten = []) : blocks = [] := by
  cases blocks with
  | nil => rfl
  | cons b rest =>
      have hlen := (hblocks b (by simp)).length_eq
      rw [List.flatten_cons] at h
      have hzero := congrArg List.length (List.append_eq_nil_iff.mp h).1
      rw [List.length_nil] at hzero
      omega

/-- A stream of blocks, cut into any chunks, is decoded block by block: once empty chunks have
emptied the buffer, the messages are those of the blocks that decode, in order. -/
theorem feedAll_blocks {blocks chunks : List (List UInt8)} (hblocks : ∀ b ∈ blocks, Block b)
    (hreturn : ∀ b ∈ blocks, ∃ m, frameDecode b = .ok m)
    (hdivision : chunks.flatten = blocks.flatten) :
    (∀ k, ∃ d ms, FrameDecoder.feedAll {} (chunks ++ List.replicate k []) = .ok (d, ms) ∧
        (d.buf = [] → ms = blocks.filterMap decoded)) ∧
      ∃ k d ms, FrameDecoder.feedAll {} (chunks ++ List.replicate k []) = .ok (d, ms) ∧
        d.buf = [] := by
  constructor
  · intro k
    have hstream : ({} : FrameDecoder).buf ++ (chunks ++ List.replicate k []).flatten =
        blocks.flatten := by
      simpa using hdivision
    obtain ⟨taken, left, d, rfl, heq, hbuf⟩ := feedAll_stream hblocks hreturn hstream
    refine ⟨d, _, heq, ?_⟩
    intro hempty
    rw [hbuf] at hempty
    rw [eq_nil_of_flatten (fun b hb => hblocks b (by simp [hb])) hempty, List.append_nil]
  · have hstream : ({} : FrameDecoder).buf ++ chunks.flatten = blocks.flatten := by
      simpa using hdivision
    obtain ⟨taken, left, ⟨buf⟩, rfl, heq, hbuf⟩ := feedAll_stream hblocks hreturn hstream
    dsimp only at hbuf
    rw [hbuf] at heq
    have hdrain := @feedAll_drain left (fun b hb => hblocks b (by simp [hb]))
      (fun b hb => hreturn b (by simp [hb]))
    refine ⟨left.length, {}, taken.filterMap decoded ++ left.filterMap decoded, ?_, rfl⟩
    rw [feedAll_append, heq, ok_bind]
    dsimp only
    rw [hdrain, ok_bind]

theorem block_frame {payload : List UInt8} (h : payload.length ≤ protocolMaxPayload) :
    Block (frame payload) := by
  have hlt : payload.length < 2 ^ 32 := h.trans_lt (by decide)
  have hplen : payloadLength (frame payload) = payload.length := by
    rw [frame, show framed payload = header payload.length ++ payload from rfl, List.append_assoc,
      payloadLength_header hlt]
  exact ⟨by rw [length_frame, hplen]; omega, by rwa [hplen]⟩

theorem block_of_frameDecode {f : List UInt8} {m : Message}
    (h : frameDecode f = .ok (some m)) : Block f := by
  rcases frameDecode_cases f with hnone | ⟨payload, hmax, rfl⟩
  · rw [hnone] at h
    cases h
  · exact block_frame hmax

/-- A frame that decodes is as long as the frame of its message. -/
theorem length_of_frameDecode {f : List UInt8} {m : Message}
    (h : frameDecode f = .ok (some m)) : f.length = (frameEncode m).length := by
  rcases frameDecode_cases f with hnone | ⟨payload, hmax, rfl⟩
  · rw [hnone] at h
    cases h
  · rw [frameDecode_frame hmax] at h
    have hlen := (decodePayload_extent h).1
    have hframe : frameEncode m = frame (encodePayload m) := rfl
    rw [hframe, length_frame, length_frame, hlen]

theorem fits_of_frameDecode {f : List UInt8} {m : Message}
    (h : frameDecode f = .ok (some m)) : (encodePayload m).length ≤ protocolMaxPayload := by
  have hblock := block_of_frameDecode h
  have hlen : f.length = (frame (encodePayload m)).length := length_of_frameDecode h
  have hfits := hblock.fits
  rw [hblock.length_eq, length_frame] at hlen
  omega

/-- Every message that is handed on was decoded from a frame. -/
theorem exists_frame_of_feedAll {d d' : FrameDecoder} {chunks : List (List UInt8)}
    {ms : List Message} (h : d.feedAll chunks = .ok (d', ms)) :
    ∀ m ∈ ms, ∃ f, frameDecode f = .ok (some m) := by
  induction chunks generalizing d ms with
  | nil =>
      cases h
      simp
  | cons chunk chunks ih =>
      cases hfeed : d.feed chunk with
      | mk d₁ reply =>
          cases reply with
          | error e =>
              rw [FrameDecoder.feedAll, hfeed] at h
              cases h
          | ok reply =>
              rw [FrameDecoder.feedAll_cons_ok hfeed, bind_eq_ok] at h
              obtain ⟨⟨d₂, ms₂⟩, hrest, heq⟩ := h
              cases heq
              intro m hm
              rcases List.mem_append.mp hm with hm | hm
              · obtain ⟨f, -, hdec⟩ :=
                  (FrameDecoder.feed_eq_ok hfeed).2 m (Option.mem_toList.mp hm)
                exact ⟨f, hdec⟩
              · exact ih hrest m hm

/-- Two greetings with zeros between them. -/
def interruptedGreetings : List (List UInt8) :=
  [frameEncode greeting, List.replicate 16 0, frameEncode greeting]

theorem feedAll_blocks_interruptedGreetings :
    ∃ k d, FrameDecoder.feedAll {} ([interruptedGreetings.flatten] ++ List.replicate k []) =
        .ok (d, [greeting, greeting]) ∧ d.buf = [] := by
  have hgreeting : Block (frameEncode greeting) := block_frame (by decide)
  have hzeros : frameDecode (List.replicate 16 0) = .ok none := rfl
  have hblocks : ∀ b ∈ interruptedGreetings, Block b := by
    intro b hb
    simp only [interruptedGreetings, List.mem_cons, List.not_mem_nil, or_false] at hb
    rcases hb with rfl | rfl | rfl
    · exact hgreeting
    · exact ⟨by decide, by decide⟩
    · exact hgreeting
  have hreturn : ∀ b ∈ interruptedGreetings, ∃ m, frameDecode b = .ok m := by
    intro b hb
    simp only [interruptedGreetings, List.mem_cons, List.not_mem_nil, or_false] at hb
    rcases hb with rfl | rfl | rfl
    · exact ⟨_, frameDecode_greeting⟩
    · exact ⟨_, hzeros⟩
    · exact ⟨_, frameDecode_greeting⟩
  have hmessages : interruptedGreetings.filterMap decoded = [greeting, greeting] := by
    simp only [interruptedGreetings, List.filterMap_cons, List.filterMap_nil,
      decoded_eq frameDecode_greeting, decoded_eq hzeros]
  obtain ⟨hall, k, d, ms, heq, hempty⟩ :=
    @feedAll_blocks interruptedGreetings [interruptedGreetings.flatten] hblocks hreturn (by simp)
  obtain ⟨d', ms', heq', hms⟩ := hall k
  rw [heq] at heq'
  cases heq'
  rw [hms hempty, hmessages] at heq
  exact ⟨k, d, heq, hempty⟩

end FragmentationGovernor.Protocol
