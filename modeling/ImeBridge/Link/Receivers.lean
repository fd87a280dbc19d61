import Mathlib.Data.List.DropRight
import Mathlib.Algebra.Ring.Parity
import ImeBridge.Client.ReadPacket
import ImeBridge.Host.ReadPacket
import ImeBridge.Resident.Slices

/-! # The receivers side by side

The resident framer, the foreground client and the host each look for the magic and
for the end of a packet in their own way.
-/

namespace ImeBridge

open Library

/-! ## Noise that ends in first magic bytes -/

/-- How many first magic bytes the bytes end in. -/
def trailingMagic (bytes : List Byte) : Nat := (bytes.rtakeWhile (· = imeMagic0)).length

theorem trailingMagic_concat_magic (bytes : List Byte) :
    trailingMagic (bytes ++ [imeMagic0]) = trailingMagic bytes + 1 := by
  rw [trailingMagic, List.rtakeWhile_concat_pos _ _ _ (by simp), List.length_append]
  rfl

theorem trailingMagic_concat {value : Byte} (other : value ≠ imeMagic0) (bytes : List Byte) :
    trailingMagic (bytes ++ [value]) = 0 := by
  rw [trailingMagic, List.rtakeWhile_concat_neg _ _ _ (by simpa using other), List.length_nil]

/-- A byte in front does not count unless only first magic bytes follow it. -/
theorem trailingMagic_cons {value : Byte} (other : value ≠ imeMagic0) (bytes : List Byte) :
    trailingMagic (value :: bytes) = trailingMagic bytes := by
  induction bytes using List.reverseRecOn with
  | nil => exact trailingMagic_concat other []
  | append_singleton bytes last inductionHypothesis =>
    rw [← List.cons_append]
    by_cases magic : last = imeMagic0
    · rw [magic, trailingMagic_concat_magic, trailingMagic_concat_magic, inductionHypothesis]
    · rw [trailingMagic_concat magic, trailingMagic_concat magic]

/-- A first magic byte and any byte behind it do not change the parity. -/
theorem even_trailingMagic_pair (second : Byte) (bytes : List Byte) :
    Even (trailingMagic (imeMagic0 :: second :: bytes)) ↔ Even (trailingMagic bytes) := by
  induction bytes using List.reverseRecOn with
  | nil =>
    have pair : [imeMagic0, second] = [imeMagic0] ++ [second] := rfl
    by_cases magic : second = imeMagic0
    · rw [pair, magic, trailingMagic_concat_magic]
      decide
    · rw [pair, trailingMagic_concat magic]
      rfl
  | append_singleton bytes last inductionHypothesis =>
    rw [← List.cons_append, ← List.cons_append]
    by_cases magic : last = imeMagic0
    · rw [magic, trailingMagic_concat_magic, trailingMagic_concat_magic, Nat.even_add_one,
        Nat.even_add_one, inductionHypothesis]
    · rw [trailingMagic_concat magic, trailingMagic_concat magic]

/-! ## The host -/

/-- Behind noise the host is aware of the magic only if it did not take the last byte of
the noise for the first one of a magic. -/
theorem findMagic_noise {noise : List Byte} (clean : ¬ [imeMagic0, imeMagic1] <:+: noise)
    (stream : List Byte) :
    findMagic (noise ++ imeMagic0 :: imeMagic1 :: stream) =
      if Even (trailingMagic noise) then .ok ((), stream) else findMagic stream := by
  induction noise using findMagic.induct with
  | case1 => rfl
  | case2 value =>
    by_cases magic : value = imeMagic0
    · -- The byte held back takes the first magic byte with it.
      have odd : ¬ Even (trailingMagic [value]) := by
        rw [magic]
        decide
      rw [if_neg odd, magic]
      cases stream with
      | nil => rfl
      | cons first stream => rfl
    · have even : Even (trailingMagic [value]) := by
        rw [trailingMagic_cons magic]
        exact Even.zero
      rw [if_pos even, List.singleton_append, findMagic, if_pos (show value ≠ 0x49#8 from magic)]
      rfl
  | case3 first second rest noise inductionHypothesis =>
    rw [List.cons_append, List.cons_append, findMagic, if_pos noise, ← List.cons_append,
      inductionHypothesis fun within => clean (within.trans (List.suffix_cons _ _).isInfix),
      trailingMagic_cons noise]
  | case4 first rest begins =>
    obtain rfl : first = imeMagic0 := not_not.mp begins
    exact absurd ⟨[], rest, rfl⟩ clean
  | case5 first second rest begins mismatch inductionHypothesis =>
    obtain rfl : first = imeMagic0 := not_not.mp begins
    have cleanRest : ¬ [imeMagic0, imeMagic1] <:+: rest :=
      fun within => clean (within.trans ((List.suffix_cons _ _).trans (List.suffix_cons _ _)).isInfix)
    rw [List.cons_append, List.cons_append, findMagic, if_neg begins, if_neg mismatch,
      inductionHypothesis cleanRest]
    simp only [even_trailingMagic_pair]

theorem readPacketAsync_noise {noise : List Byte} (clean : ¬ [imeMagic0, imeMagic1] <:+: noise)
    (packet : Packet) (fits : packet.payload.length ≤ imeMaxPayload) (rest : List Byte) :
    BridgeForm.readPacketAsync (noise ++ (packet.frame fits).bytes ++ rest) = .ok (packet, rest) ↔
      Even (trailingMagic noise) := by
  have stream : noise ++ (packet.frame fits).bytes ++ rest =
      noise ++ imeMagic0 :: imeMagic1 :: ((packet.frame fits).bytes.drop 2 ++ rest) := by
    simp [Frame.bytes, Frame.body]
  have found := findMagic_noise clean ((packet.frame fits).bytes.drop 2 ++ rest)
  rw [← stream] at found
  by_cases even : Even (trailingMagic noise)
  · rw [if_pos even] at found
    exact iff_of_true (BridgeForm.readPacketAsync_frame packet fits found) even
  · -- The host reads on from the third byte of the packet, which is then too short.
    rw [if_neg even] at found
    refine iff_of_false (fun read => ?_) even
    rw [BridgeForm.readPacketAsync_congr found] at read
    have short := BridgeForm.length_readPacketAsync read
    have payload : (packet.frame fits).payload = packet.payload := rfl
    simp only [List.length_append, List.length_drop, Frame.length_bytes, payload] at short
    omega

/-! ## The foreground client -/

theorem ends_in_magic {bytes : List Byte} (odd : ¬ Even (trailingMagic bytes)) :
    ∃ front, bytes = front ++ [imeMagic0] := by
  induction bytes using List.reverseRecOn with
  | nil => exact absurd Even.zero odd
  | append_singleton bytes last inductionHypothesis =>
    by_cases magic : last = imeMagic0
    · exact ⟨bytes, by rw [magic]⟩
    · rw [trailingMagic_concat magic] at odd
      exact absurd Even.zero odd

namespace ReadPacket

/-- Behind noise the client holds a first magic byte or nothing. -/
theorem after_noise {noise : List Byte} (clean : ¬ [imeMagic0, imeMagic1] <:+: noise)
    (budget : noise.length < 128) :
    after (noise.map some) {} = some {
      packet := if Even (trailingMagic noise) then [] else [imeMagic0]
      byteReads := noise.length } := by
  induction noise using List.reverseRecOn with
  | nil => rfl
  | append_singleton noise value inductionHypothesis =>
    rw [List.length_append, List.length_singleton] at budget
    have cleanRest : ¬ [imeMagic0, imeMagic1] <:+: noise :=
      fun within => clean (within.trans (List.prefix_append _ _).isInfix)
    have before := inductionHypothesis cleanRest (by omega)
    rw [List.map_append, List.map_singleton, after_append before, List.length_append,
      List.length_singleton]
    have running : (0 < 4 ∧ noise.length < 128) ∧ 0 < 4 ∧ noise.length + 1 < 128 := by omega
    have magics : imeMagic0 ≠ imeMagic1 := by decide
    by_cases even : Even (trailingMagic noise)
    · by_cases magic : value = imeMagic0
      · have odd : ¬ Even (trailingMagic noise + 1) := by rwa [Nat.even_add_one, not_not]
        simp [after, body, Running, even, magic, running, odd, trailingMagic_concat_magic]
      · simp [after, body, Running, even, magic, running, trailingMagic_concat magic]
    · have second : value ≠ imeMagic1 := by
        rintro rfl
        obtain ⟨front, rfl⟩ := ends_in_magic even
        exact clean ⟨front, [], by simp⟩
      by_cases magic : value = imeMagic0
      · have again : Even (trailingMagic noise + 1) := Nat.even_add_one.mpr even
        simp [after, body, Running, even, magic, magics, running, again, trailingMagic_concat_magic]
      · simp [after, body, Running, even, second, running, trailingMagic_concat magic]

end ReadPacket

theorem readPacket_noise {noise : List Byte} (clean : ¬ [imeMagic0, imeMagic1] <:+: noise)
    (frame : Frame) (budget : noise.length + frame.bytes.length ≤ 128) (reads : List (Option Byte)) :
    readPacket ((noise ++ frame.bytes).map some ++ reads) = (some frame.bytes, reads) ↔
      Even (trailingMagic noise) := by
  have length := frame.length_bytes
  have goes := ReadPacket.after_noise clean (by omega : noise.length < 128)
  rw [List.map_append, List.append_assoc, readPacket, ReadPacket.loop_append goes]
  by_cases even : Even (trailingMagic noise)
  · refine iff_of_true ?_ even
    rw [if_pos even]
    have unfinished : frame.bytes ≠ [] := by
      intro empty
      rw [empty, List.length_nil] at length
      omega
    have split : [] ++ frame.bytes = frame.bytes := List.nil_append _
    exact ReadPacket.loop_frame frame split unfinished rfl rfl (show 0 < 4 by decide) budget reads
  · -- The client holds nothing behind the magic of the frame, and what is left is too short.
    refine iff_of_false (fun returns => ?_) even
    rw [if_neg even] at returns
    obtain ⟨rest, bytes⟩ : ∃ rest, frame.bytes = imeMagic0 :: imeMagic1 :: rest := ⟨_, rfl⟩
    have lost : ReadPacket.after [some imeMagic0, some imeMagic1]
        { packet := [imeMagic0], byteReads := noise.length } =
        some { byteReads := noise.length + 2 } := by
      have running : noise.length < 128 ∧ noise.length + 1 < 128 ∧ noise.length + 2 < 128 := by omega
      simp [ReadPacket.after, ReadPacket.body, ReadPacket.Running, imeMagic0, imeMagic1, running]
    have cut : frame.bytes.map some ++ reads =
        [some imeMagic0, some imeMagic1] ++ (rest.map some ++ reads) := by
      rw [bytes]
      rfl
    rw [cut, ReadPacket.loop_append lost] at returns
    have short := ReadPacket.length_loop returns
    rw [bytes] at short
    simp at short

/-- Directly behind noise without the magic, the host and the foreground client find a
packet exactly if the noise ends in an even number of first magic bytes. -/
theorem packet_behind_noise (noise : List Byte) (clean : ¬ [imeMagic0, imeMagic1] <:+: noise)
    (packet : Packet) (fits : packet.payload.length ≤ imeMaxPayload) :
    let wire := imePacketBuild packet.type packet.sequence packet.payload
    (∀ rest, BridgeForm.readPacketAsync (noise ++ wire ++ rest) = .ok (packet, rest) ↔
      Even (trailingMagic noise)) ∧
    (∀ rest, Program.readPacketAsync (noise ++ wire ++ rest) = .ok (packet, rest) ↔
      Even (trailingMagic noise)) ∧
    (noise.length + wire.length ≤ 128 → ∀ reads,
      readPacket ((noise ++ wire).map some ++ reads) = (some wire, reads) ↔
        Even (trailingMagic noise)) := by
  dsimp only
  rw [imePacketBuild_eq packet.type packet.sequence packet.payload fits, readPacketAsync_eq]
  have host := readPacketAsync_noise clean packet fits
  exact ⟨host, host, readPacket_noise clean _⟩

/-- A second first magic byte in the noise, and a PONG after it. -/
theorem packet_behind_noise_pair :
    BridgeForm.readPacketAsync
        ([0x67#8, 0x49#8, 0x49#8] ++ imePacketBuild imePong 1#16 [] ++ [0x49#8]) =
          .ok (⟨imePong, 1#16, []⟩, [0x49#8]) ∧
      readPacket (([0x67#8, 0x49#8, 0x49#8] ++ imePacketBuild imePong 1#16 []).map some ++ [none]) =
        (some (imePacketBuild imePong 1#16 []), [none]) := by
  obtain ⟨form, _, client⟩ := packet_behind_noise [0x67#8, 0x49#8, 0x49#8] (by decide)
    ⟨imePong, 1#16, []⟩ (by decide)
  exact ⟨(form _).mpr (by decide), (client (by decide) _).mpr (by decide)⟩

/-- One first magic byte before a PONG, and all three lose the PONG. -/
theorem packet_lost_behind_magic :
    ¬ [imeMagic0, imeMagic1] <:+: [0x49#8] ∧
      BridgeForm.readPacketAsync ([0x49#8] ++ imePacketBuild imePong 1#16 []) = .error .endOfStream ∧
      Program.readPacketAsync ([0x49#8] ++ imePacketBuild imePong 1#16 []) = .error .endOfStream ∧
      readPacket (([0x49#8] ++ imePacketBuild imePong 1#16 []).map some) = (none, []) := by
  refine ⟨by decide, ?_, ?_, ?_⟩
  · decide +kernel
  · decide +kernel
  · decide +kernel

/-! ## Oversized headers -/

/-- Good frames one behind the other, from the cleared state. -/
theorem filterMap_parse_frames {frames : List Frame} (good : ∀ frame ∈ frames, frame.Good) :
    (frames.map Frame.bytes).filterMap imePacketParse = frames.map Frame.packet := by
  rw [List.filterMap_map, ← List.filterMap_eq_map]
  refine List.filterMap_congr fun frame member => ?_
  simp [Frame.imePacketParse_bytes, good frame member]

/-- The resident framer lets go of an oversized header on its eighth byte, and takes the
packets that follow, exactly if the sum for the expected length does not wrap or wraps to
eight. -/
theorem acceptByte_oversized {tsr : Tsr} (fresh : tsr.framer = {}) {header : List Byte}
    {version type s0 s1 l0 l1 : Byte}
    (bytes : header = [imeMagic0, imeMagic1, version, type, s0, s1, l0, l1])
    (oversized : 512 < (word l0 l1).toNat) {frames : List Frame} (good : ∀ frame ∈ frames, frame.Good) :
    ((Run.run acceptByte header tsr).rxPacket = [] ∧
      (Run.respond acceptByteNoting (header ++ frames.flatMap Frame.bytes) tsr).1.reduceOption =
        frames.map Frame.packet) ↔ word l0 l1 ≤ 0xFFF5#16 ∨ word l0 l1 = 0xFFFE#16 := by
  have swallowed := Framer.respond_oversized bytes oversized
  have held := run_acceptByte_framer header tsr
  rw [fresh] at held
  have taken := reduceOption_acceptByteNoting (header ++ frames.flatMap Frame.bytes) tsr
  rw [fresh, Run.respond_append Framer.accept, List.reduceOption_append, List.filterMap_append] at taken
  have buffer : (Run.run acceptByte header tsr).rxPacket =
      (Run.run acceptByte header tsr).framer.buffer := rfl
  have delivered := filterMap_parse_frames good
  rw [buffer, held, taken, swallowed]
  split_ifs with small eight
  · rw [(Framer.respond_frames frames).1, delivered]
    exact iff_of_true ⟨rfl, rfl⟩ (.inl small)
  · have short : imePacketParse header = none := by
      rw [bytes]
      rfl
    rw [(Framer.respond_frames frames).1, delivered]
    refine iff_of_true ⟨rfl, ?_⟩ (.inr eight)
    simp [List.reduceOption, short]
  · refine iff_of_false (fun hunting => ?_) (not_or.mpr ⟨small, eight⟩)
    simp [bytes] at hunting

/-- An oversized header is rejected at once by the resident framer, wherever it hunts, if
the 16-bit sum for the expected length stays above 522 or wraps to eight, and by the
foreground client if it stays above 522, or if the byte budget ends with the header and it
does not wrap to eight. -/
theorem oversized_header (version type s0 s1 l0 l1 : Byte) (oversized : 512 < (word l0 l1).toNat) :
    let header := [imeMagic0, imeMagic1, version, type, s0, s1, l0, l1]
    (∀ (tsr : Tsr) (earlier : List Feed) (frames : List Frame),
      tsr.rxPacket = [] → tsr.rxExpected = 0#16 →
      (Run.run Feed.apply earlier tsr).rxPacket = [] → (∀ frame ∈ frames, frame.Good) →
      let hunting := Run.run Feed.apply earlier tsr
      ((Run.run acceptByte header hunting).rxPacket = [] ∧
        (Run.respond acceptByteNoting (header ++ frames.flatMap Frame.bytes) hunting).1.reduceOption =
          frames.map Frame.packet) ↔ word l0 l1 ≤ 0xFFF5#16 ∨ word l0 l1 = 0xFFFE#16) ∧
    ∀ (noise reads : List (Option Byte)) (atHeader atLast : ReadPacket),
      ReadPacket.after noise {} = some atHeader → atHeader.packet = [] →
      reads.reduceOption = [imeMagic0, imeMagic1, version, type, s0, s1, l0] →
      ReadPacket.after (noise ++ reads) {} = some atLast →
      ((∀ rest, readPacket (noise ++ reads ++ some l1 :: rest) = (none, rest)) ↔
        word l0 l1 ≤ 0xFFF5#16 ∨
          (noise.reduceOption.length + 8 = 128 ∧ word l0 l1 ≠ 0xFFFE#16)) := by
  dsimp only
  constructor
  · intro tsr earlier frames empty nothing hunts good
    have sound := (acceptByte_followed empty nothing earlier).sound
    exact acceptByte_oversized (sound.eq_empty hunts) rfl oversized good
  · intro noise reads atHeader atLast found hunting opening comes
    exact ReadPacket.readPacket_oversized found hunting opening comes oversized

/-- The largest length field whose sum does not wrap, with a PONG behind it. -/
theorem oversized_header_largest :
    (Run.respond acceptByteNoting
      ([imeMagic0, imeMagic1, 1#8, 5#8, 0#8, 0#8, 0xF5#8, 0xFF#8] ++
        [(Packet.mk imePong 1#16 []).frame (by decide)].flatMap Frame.bytes) {}).1.reduceOption =
      [⟨imePong, 1#16, []⟩] ∧
    readPacket ([some 0x67#8, none] ++
      ([imeMagic0, imeMagic1, 1#8, 5#8, 0#8, 0#8, 0xF5#8].map some) ++ some 0xFF#8 :: [some 0x49#8]) =
        (none, [some 0x49#8]) := by
  obtain ⟨framer, client⟩ := oversized_header 1#8 5#8 0#8 0#8 0xF5#8 0xFF#8 (by decide)
  have accepted := framer {} [] [(Packet.mk imePong 1#16 []).frame (by decide)] rfl rfl rfl
    (by simpa using Packet.frame_good _ _)
  have returned := client [some 0x67#8, none] ([imeMagic0, imeMagic1, 1#8, 5#8, 0#8, 0#8, 0xF5#8].map some)
    { idleReads := 1, byteReads := 1 }
    { packet := [imeMagic0, imeMagic1, 1#8, 5#8, 0#8, 0#8, 0xF5#8], byteReads := 8 } rfl rfl rfl rfl
  exact ⟨(accepted.mpr (by decide)).2, returned.mpr (by decide) _⟩

/-- A length field of FFF6h: both receivers stay in the packet, and the framer takes the
PONG behind the header for a part of it. -/
theorem oversized_header_wraps :
    512 < (word 0xF6#8 0xFF#8).toNat ∧
      (Run.run acceptByte [imeMagic0, imeMagic1, 1#8, 5#8, 0#8, 0#8, 0xF6#8, 0xFF#8] {}).rxPacket ≠ [] ∧
      (Run.respond acceptByteNoting ([imeMagic0, imeMagic1, 1#8, 5#8, 0#8, 0#8, 0xF6#8, 0xFF#8] ++
        imePacketBuild imePong 1#16 []) {}).1.reduceOption = [] ∧
      readPacket (([imeMagic0, imeMagic1, 1#8, 5#8, 0#8, 0#8, 0xF6#8, 0xFF#8] ++
        imePacketBuild imePong 1#16 []).map some) = (none, []) := by
  refine ⟨by decide, ?_, ?_, ?_⟩
  · decide +kernel
  · decide +kernel
  · decide +kernel

end ImeBridge
