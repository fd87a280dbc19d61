import ImeBridge.Wire.Stream
import ImeBridge.Resident.Extent

/-! # A packet that lost bytes

Where a frame turns out bad, the resident framer lets go of all its bytes and the
reference decoder of one.  They differ where a damaged frame has taken the start of the
next packet into itself.
-/

namespace ImeBridge

open Library

/-- A valid packet that lost some of the bytes behind its header, valid packets behind
it, and enough further bytes for the reference decoder not to wait for more. -/
structure Damage where
  packet : Frame
  valid : packet.Good
  left : List Byte
  sublist : left.Sublist (packet.bytes.drop 8)
  lost : left.length < (packet.bytes.drop 8).length
  following : List Frame
  intact : ∀ frame ∈ following, frame.Good
  further : List Byte
  enough : 512 ≤ further.length

namespace Damage

variable (damage : Damage)

/-- What is left of the packet. -/
def damaged : List Byte := damage.packet.bytes.take 8 ++ damage.left

/-- How many bytes were lost: so far the damaged packet reaches into what follows it. -/
def reach : Nat := damage.packet.bytes.length - damage.damaged.length

/-- What follows it. -/
def behind : List Byte := damage.following.flatMap Frame.bytes ++ damage.further

def stream : List Byte := damage.damaged ++ damage.behind

/-- The reference decoder returns the packet of a following frame from its own bytes. -/
def Returned (frame : Frame) (after : List Frame) : Prop :=
  ((frame.bytes ++ after.flatMap Frame.bytes ++ damage.further).length, Python.ofPacket frame.packet) ∈
    (Python.StreamDecoder.loop damage.stream).1

/-- The resident framer hands over the packet of a following frame on its last byte. -/
def Handed (tsr : Tsr) (before : List Frame) (frame : Frame) : Prop :=
  (Run.respond acceptByteNoting (damage.damaged ++ before.flatMap Frame.bytes ++ frame.bytes) tsr).1.getLast? =
    some (some frame.packet)

/-- A following frame begins behind the reach of the damaged one, and outside all that the
length fields of the magics found from there on make of the bytes. -/
def Clear (before : List Frame) : Prop :=
  damage.reach ≤ (before.flatMap Frame.bytes).length ∧
    Framer.pace.Stands (damage.behind.drop damage.reach)
      ((before.flatMap Frame.bytes).length - damage.reach)

/-- No packet lies across the beginning of a following frame. -/
def Uncrossed (before : List Frame) : Prop :=
  Python.StreamDecoder.packetPace.Stands damage.stream
    (damage.damaged ++ before.flatMap Frame.bytes).length

instance (before : List Frame) : Decidable (damage.Clear before) := by unfold Clear; infer_instance

instance (before : List Frame) : Decidable (damage.Uncrossed before) := by
  unfold Uncrossed; infer_instance

end Damage

namespace Framer

/-- Some bytes on, a frame that had begun before them is still there, or all that is held
began within them. -/
def Astride (count : Nat) (framer : Framer) : Prop :=
  count + 2 ≤ framer.buffer.length ∨ framer.buffer.length < count

theorem Astride.next {count : Nat} {framer : Framer} (astride : framer.Astride count) {value : Byte}
    {outcome : Option (List Byte) × Framer} (accepts : framer.Accepts value outcome) :
    outcome.2.Astride (count + 1) := by
  simp only [Astride] at astride
  cases accepts with
  | dropped => exact .inr (Nat.succ_pos _)
  | restarted begins held =>
    refine .inr ?_
    simp only [List.length_singleton]
    omega
  | stored expected sound =>
    simp only [Astride, List.length_append, List.length_singleton]
    omega
  | completed room => exact .inr (Nat.succ_pos _)

/-- No buffer that is handed over then consists of just these bytes. -/
theorem Astride.length_ne {count : Nat} {framer : Framer} (astride : framer.Astride count)
    (sound : framer.Sound) {bytes handed : List Byte}
    (hands : (Run.respond accept bytes framer).1.getLast? = some (some handed)) :
    handed.length ≠ count + bytes.length := by
  induction bytes generalizing count framer with
  | nil => simp at hands
  | cons value bytes inductionHypothesis =>
    have accepts := sound.accepts value
    rw [Run.respond_cons] at hands
    cases bytes with
    | nil =>
      simp only [Run.respond_nil, List.getLast?_singleton, Option.some.injEq] at hands
      generalize framer.accept value = outcome at accepts hands
      cases accepts with
      | dropped => contradiction
      | restarted begins held => contradiction
      | stored expected sound => contradiction
      | completed room =>
        cases hands
        simp only [Astride] at astride
        simp only [List.length_append, List.length_singleton]
        omega
    | cons second bytes =>
      rw [Run.respond_cons, List.getLast?_cons_cons] at hands
      have differs := inductionHypothesis (astride.next accepts) accepts.sound hands
      rw [List.length_cons]
      omega

end Framer

namespace Damage

variable (damage : Damage)

/-! ## The framer at the start of a following frame -/

/-- A following frame is handed over exactly if no other had begun before it. -/
theorem handed_iff_hunts {tsr : Tsr} (fresh : tsr.framer = {}) (before : List Frame) {frame : Frame}
    (good : frame.Good) : damage.Handed tsr before frame ↔
      (Run.respond Framer.accept (damage.damaged ++ before.flatMap Frame.bytes) {}).2.buffer.length ≤ 1 := by
  let front := damage.damaged ++ before.flatMap Frame.bytes
  let framer := (Run.respond Framer.accept front {}).2
  have sound : framer.Sound := Framer.sound_respond front Framer.sound_empty
  have handed : damage.Handed tsr before frame ↔
      ((Run.respond Framer.accept frame.bytes framer).1.map
        (fun handed => handed.bind imePacketParse)).getLast? = some (some frame.packet) := by
    obtain ⟨rest, bytes⟩ : ∃ rest, frame.bytes = imeMagic0 :: rest := ⟨_, rfl⟩
    rw [Handed, (respond_acceptByteNoting _ tsr).1, fresh, Run.respond_append Framer.accept, bytes,
      Run.respond_cons Framer.accept, List.map_append, List.map_cons, List.getLast?_append_cons]
  rw [handed]
  by_cases between : framer.buffer.length ≤ 1
  · refine iff_of_true ?_ between
    have clean : framer.Between := by
      rcases Nat.le_one_iff_eq_zero_or_eq_one.mp between with none | one
      · exact .inl (sound.eq_empty (List.length_eq_zero_iff.mp none))
      · exact .inr (sound.eq_magic one)
    rw [Framer.respond_whole frame clean]
    simp [Frame.imePacketParse_bytes, good]
  · refine iff_of_false (fun hands => ?_) between
    have astride : framer.Astride 0 := .inl (by omega)
    rw [List.getLast?_map] at hands
    obtain ⟨answer, last, parsed⟩ := Option.map_eq_some_iff.mp hands
    obtain ⟨buffer, rfl, accepted⟩ := Option.bind_eq_some_iff.mp parsed
    -- The packet fixes the length of what was parsed.
    obtain ⟨other, rfl, _, same⟩ := exists_frame_of_parse accepted
    have differs := astride.length_ne sound last
    have payload : other.payload = frame.payload := congrArg Packet.payload same
    rw [Frame.length_bytes, Frame.length_bytes, payload] at differs
    omega

/-- The damaged packet has lost bytes, but none of its header. -/
theorem length_damaged : 8 ≤ damage.damaged.length ∧
    damage.damaged.length + damage.reach = damage.packet.bytes.length ∧ 0 < damage.reach := by
  have lost := damage.lost
  have length := damage.packet.length_bytes
  simp only [List.length_drop] at lost
  have left : damage.damaged.length = 8 + damage.left.length := by
    simp only [damaged, List.length_append, List.length_take, length]
    omega
  simp only [reach, left]
  omega

theorem damaged_eq : damage.damaged =
    [imeMagic0, imeMagic1, damage.packet.version, damage.packet.type, damage.packet.sequence.low,
      damage.packet.sequence.high, damage.packet.length.low, damage.packet.length.high] ++ damage.left := by
  simp [damaged, Frame.bytes, Frame.body]

/-- From the damaged header the framer goes as far as the whole packet would have gone. -/
theorem pace_stream : Framer.pace.step damage.stream = damage.damaged.length + damage.reach := by
  have begins : [imeMagic0, imeMagic1] <+: damage.stream := by
    rw [stream, damaged_eq]
    exact ⟨_, rfl⟩
  have field : word (damage.stream.getD 6 0) (damage.stream.getD 7 0) = damage.packet.length := by
    rw [stream, damaged_eq]
    exact word_low_high _
  have fits := damage.packet.fits
  rw [Framer.pace_magic begins, field, Framer.extent, damage.packet.toNat_length, if_pos fits,
    damage.length_damaged.2.1, damage.packet.length_bytes]

/-- Noise with a first magic byte behind it has no magic at any of its own bytes. -/
theorem not_begins {noise rest : List Byte} (clean : ¬ [imeMagic0, imeMagic1] <:+: noise) {earlier : Nat}
    (inside : earlier < noise.length) :
    ¬ [imeMagic0, imeMagic1] <+: (noise ++ imeMagic0 :: rest).drop earlier := by
  rw [List.drop_append_of_le_length (Nat.le_of_lt inside)]
  rcases ahead : noise.drop earlier with _ | ⟨first, _ | ⟨second, more⟩⟩
  · rw [List.drop_eq_nil_iff] at ahead
    omega
  · simp [imeMagic0, imeMagic1]
  · intro begins
    have magic : imeMagic0 = first ∧ imeMagic1 = second := by simpa using begins
    have within := (List.drop_suffix earlier noise).isInfix
    rw [ahead, ← magic.1, ← magic.2] at within
    exact clean (List.IsInfix.trans ⟨[], more, rfl⟩ within)

variable {damage} {before after : List Frame} {frame : Frame}
  (split : damage.following = before ++ frame :: after)
include split

theorem stream_split : damage.stream = damage.damaged ++ before.flatMap Frame.bytes ++ frame.bytes ++
    (after.flatMap Frame.bytes ++ damage.further) := by
  simp [stream, behind, split]

/-- A following frame is handed over exactly if its place is clear. -/
theorem handed_iff_clear {tsr : Tsr} (fresh : tsr.framer = {}) :
    damage.Handed tsr before frame ↔ damage.Clear before := by
  have good := damage.intact frame (by simp [split])
  have bytes := stream_split split
  have length := frame.length_bytes
  have kept := damage.length_damaged
  let position := (damage.damaged ++ before.flatMap Frame.bytes).length
  have front : damage.damaged ++ before.flatMap Frame.bytes = damage.stream.take position := by
    rw [bytes, List.append_assoc _ frame.bytes, List.take_left]
  have here : damage.stream[position]? = some imeMagic0 := by
    rw [bytes, List.append_assoc _ frame.bytes, List.getElem?_append_right (Nat.le_refl _), Nat.sub_self]
    rfl
  have long : position + 8 ≤ damage.stream.length := by
    rw [bytes]
    simp only [position, List.length_append]
    omega
  have ahead : 0 < position := by
    simp only [position, List.length_append]
    omega
  have offset : position = damage.damaged.length + (before.flatMap Frame.bytes).length :=
    List.length_append
  rw [damage.handed_iff_hunts fresh before good, front,
    Framer.hunts_iff_stands here long (.inl rfl) fun holds => absurd rfl holds,
    Pace.stands_iff ahead, damage.pace_stream, offset, Nat.add_le_add_iff_left, Nat.add_sub_add_left,
    stream, ← List.drop_drop, List.drop_left, Clear]

/-- With no magic between the reach of the damaged packet and a following frame, its place
is clear. -/
theorem clear_of_noise (behind : damage.reach ≤ (before.flatMap Frame.bytes).length)
    (noise : ¬ [imeMagic0, imeMagic1] <:+: (before.flatMap Frame.bytes).drop damage.reach) :
    damage.Clear before := by
  obtain ⟨rest, bytes⟩ : ∃ rest, frame.bytes = imeMagic0 :: rest := ⟨_, rfl⟩
  have ahead : damage.behind.drop damage.reach = (before.flatMap Frame.bytes).drop damage.reach ++
      imeMagic0 :: (rest ++ after.flatMap Frame.bytes ++ damage.further) := by
    rw [Damage.behind, split, List.flatMap_append, List.flatMap_cons, bytes, List.append_assoc,
      List.drop_append_of_le_length behind]
    simp
  have length : ((before.flatMap Frame.bytes).drop damage.reach).length =
      (before.flatMap Frame.bytes).length - damage.reach := List.length_drop
  rw [Clear, ahead, ← length]
  exact ⟨behind, Pace.stands_of_ones fun earlier below => Framer.pace_other (not_begins noise below)⟩

/-- The reference decoder returns a following frame exactly if no packet lies across its
beginning. -/
theorem returned_iff_uncrossed : damage.Returned frame after ↔ damage.Uncrossed before := by
  have enough : 512 ≤ (after.flatMap Frame.bytes ++ damage.further).length := by
    have further := damage.enough
    rw [List.length_append]
    omega
  rw [Returned, Uncrossed, stream_split split, List.append_assoc frame.bytes]
  exact Python.StreamDecoder.returned_frame_iff (damage.intact frame (by simp [split])) _ _ enough

end Damage

/-- After a packet that lost bytes the framer hands over every following packet that the
reference decoder returns exactly if the place of each that no packet lies across is
clear.  Those that begin within as many bytes as were lost never are; so with any
following packet at all it fails, unless the parser accepts some slice that begins in the
damaged one. -/
theorem damage_costs (damage : Damage) (tsr : Tsr) (empty : tsr.rxPacket = [])
    (nothing : tsr.rxExpected = 0#16) :
    ((∀ before frame after, damage.following = before ++ frame :: after →
        damage.Returned frame after → damage.Handed tsr before frame) ↔
      ∀ before frame after, damage.following = before ++ frame :: after →
        damage.Uncrossed before → damage.Clear before) ∧
    (∀ before frame after, damage.following = before ++ frame :: after →
      (damage.Handed tsr before frame ↔ damage.Clear before) ∧
      ((before.flatMap Frame.bytes).length < damage.reach → ¬ damage.Handed tsr before frame) ∧
      (damage.reach ≤ (before.flatMap Frame.bytes).length →
        ¬ [imeMagic0, imeMagic1] <:+: (before.flatMap Frame.bytes).drop damage.reach →
        damage.Handed tsr before frame)) ∧
    ((∀ position count, position < damage.damaged.length →
        imePacketParse ((damage.stream.drop position).take count) = none) →
      damage.following ≠ [] →
      ¬ ∀ before frame after, damage.following = before ++ frame :: after →
        damage.Returned frame after → damage.Handed tsr before frame) := by
  have fresh : tsr.framer = {} := by rw [Tsr.framer, empty, nothing]
  have lost : ∀ {before frame after}, damage.following = before ++ frame :: after →
      (before.flatMap Frame.bytes).length < damage.reach → ¬ damage.Handed tsr before frame := by
    intro before frame after split within handed
    have clear := (Damage.handed_iff_clear split fresh).mp handed
    exact absurd clear.1 (Nat.not_le_of_lt within)
  refine ⟨?_, fun before frame after split => ⟨Damage.handed_iff_clear split fresh, lost split, ?_⟩,
    fun rejects some handsOver => ?_⟩
  · constructor
    · intro handed before frame after split uncrossed
      have returned := (Damage.returned_iff_uncrossed split).mpr uncrossed
      exact (Damage.handed_iff_clear split fresh).mp (handed before frame after split returned)
    · intro clear before frame after split returned
      have uncrossed := (Damage.returned_iff_uncrossed split).mp returned
      exact (Damage.handed_iff_clear split fresh).mpr (clear before frame after split uncrossed)
  · intro behind noise
    exact (Damage.handed_iff_clear split fresh).mpr (Damage.clear_of_noise split behind noise)
  · obtain ⟨frame, after, isFirst⟩ := List.exists_cons_of_ne_nil some
    have first : damage.following = [] ++ frame :: after := isFirst
    have uncrossed : damage.Uncrossed [] := by
      rw [Damage.Uncrossed, List.flatMap_nil, List.append_nil]
      refine Pace.stands_of_ones fun earlier below => ?_
      exact Python.StreamDecoder.packetPace_none fun count => rejects earlier count below
    have returned := (Damage.returned_iff_uncrossed first).mpr uncrossed
    exact lost first damage.length_damaged.2.2 (handsOver [] frame after first returned)

/-- A TEXT_ACK without its checksum, and a PONG behind it. -/
def lostChecksum : Damage where
  packet := (Packet.mk imeTextAck 1#16 []).frame (by decide)
  valid := Packet.frame_good _ _
  left := []
  sublist := List.nil_sublist _
  lost := by decide +kernel
  following := [(Packet.mk imePong 2#16 []).frame (by decide)]
  intact := by simpa using Packet.frame_good _ _
  further := List.replicate 512 0#8
  enough := List.length_replicate.ge

/-- A TEXT that holds the header of a PONG, without its own checksum: with the two bytes
that follow, the header is a packet. -/
def lostBehindHeader : Damage where
  packet := (Packet.mk imeText 1#16 [0x49#8, 0x44#8, 1#8, 3#8, 0x90#8, 2#8, 0#8, 0#8]).frame (by decide)
  valid := Packet.frame_good _ _
  left := [0x49#8, 0x44#8, 1#8, 3#8, 0x90#8, 2#8, 0#8, 0#8]
  sublist := List.sublist_append_left _ _
  lost := by decide +kernel
  following := [(Packet.mk imePong 2#16 []).frame (by decide), (Packet.mk imePong 3#16 []).frame (by decide)]
  intact := by simpa using ⟨Packet.frame_good _ _, Packet.frame_good _ _⟩
  further := List.replicate 512 0#8
  enough := List.length_replicate.ge

/-- The PONG right behind the lost checksum is not handed over.  Where a packet lies across
the first PONG, only the second is returned, and it is handed over. -/
theorem damage_costs_following :
    ¬ lostChecksum.Handed {} [] ((Packet.mk imePong 2#16 []).frame (by decide)) ∧
      lostBehindHeader.Returned ((Packet.mk imePong 3#16 []).frame (by decide)) [] ∧
      ∀ before frame after, lostBehindHeader.following = before ++ frame :: after →
        lostBehindHeader.Returned frame after → lostBehindHeader.Handed {} before frame := by
  have second : lostBehindHeader.following = [(Packet.mk imePong 2#16 []).frame (by decide)] ++
      (Packet.mk imePong 3#16 []).frame (by decide) :: [] := rfl
  refine ⟨((damage_costs lostChecksum {} rfl rfl).2.1 [] _ [] rfl).2.1 (by decide +kernel),
    (Damage.returned_iff_uncrossed second).mpr (by decide +kernel), ?_⟩
  refine (damage_costs lostBehindHeader {} rfl rfl).1.mpr fun before frame after split uncrossed => ?_
  rcases before with _ | ⟨first, _ | ⟨third, before⟩⟩
  · exact absurd uncrossed (by decide +kernel)
  · change [_, _] = _ at split
    cases split
    decide +kernel
  · have count := congrArg List.length split
    change 2 = _ at count
    simp at count

/-- The reference decoder returns the PONG, and the resident framer has taken its magic
for the missing checksum. -/
theorem damage_costs_the_next :
    lostChecksum.Returned ((Packet.mk imePong 2#16 []).frame (by decide)) [] ∧
      (Run.respond acceptByteNoting (lostChecksum.damaged ++ imePacketBuild imePong 2#16 []) {}).1 =
        List.replicate 18 none := by
  constructor
  · have first : lostChecksum.following = [] ++ (Packet.mk imePong 2#16 []).frame (by decide) :: [] := rfl
    exact (Damage.returned_iff_uncrossed first).mpr (by decide +kernel)
  · decide +kernel

end ImeBridge
