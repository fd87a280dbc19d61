import ImeBridge.Resident.Framer

/-! # The framer on arbitrary bytes

No assumption is made on the stream: length fields may lie, and `reset_link` may cut
in anywhere.  The buffer stays in its bounds and is the end of the stream, and what
`handle_packet` acts on are slices of the stream, apart from each other and in order.
-/

namespace ImeBridge

open Library

/-! ## The buffer -/

namespace Framer

/-- What holds of the framer after any bytes. -/
structure Sound (framer : Framer) : Prop where
  room : framer.buffer.length ≤ 522
  magic : framer.buffer.take 2 <+: [imeMagic0, imeMagic1]
  early : framer.buffer.length < 8 → framer.expected = 0#16

theorem sound_empty : Sound {} := ⟨by decide, by decide, fun _ => rfl⟩

theorem sound_magic : Sound { buffer := [imeMagic0] } := ⟨by decide, by decide, fun _ => rfl⟩

theorem Sound.eq_empty {framer : Framer} (sound : framer.Sound) (empty : framer.buffer = []) :
    framer = {} := by
  obtain ⟨buffer, expected⟩ := framer
  subst empty
  have nothing : expected = 0#16 := sound.early (by simp)
  rw [nothing]

theorem Sound.eq_magic {framer : Framer} (sound : framer.Sound) (begun : framer.buffer.length = 1) :
    framer = { buffer := [imeMagic0] } := by
  obtain ⟨buffer, expected⟩ := framer
  obtain ⟨value, rfl⟩ := List.length_eq_one_iff.mp begun
  have nothing : expected = 0#16 := sound.early (by simp)
  have first : value = imeMagic0 := by simpa using sound.magic
  rw [nothing, first]

/-- The buffer with one more byte still begins with the magic, if that byte passes the
tests for its place. -/
theorem Sound.take_magic {framer : Framer} (sound : framer.Sound) {value : Byte}
    (first : ¬ (framer.buffer.length = 0 ∧ value ≠ imeMagic0))
    (second : ¬ (framer.buffer.length = 1 ∧ value ≠ imeMagic1)) :
    (framer.buffer ++ [value]).take 2 <+: [imeMagic0, imeMagic1] := by
  have magic := sound.magic
  rcases buffer : framer.buffer with _ | ⟨byte0, _ | ⟨byte1, rest⟩⟩
  · simp only [buffer, List.length_nil, true_and, not_not] at first
    simp [first]
  · simp only [buffer, List.length_cons, List.length_nil, Nat.zero_add, true_and, not_not] at second
    simp only [buffer, List.take_succ_cons, List.take_nil, List.cons_prefix_cons] at magic
    simp [second, magic.1]
  · rw [buffer] at magic
    simpa using magic

/-- All that a byte can do: it is passed over, begins a frame anew, lengthens the
buffer, or completes it. -/
inductive Accepts (framer : Framer) (value : Byte) : Option (List Byte) × Framer → Prop where
  | dropped : framer.Accepts value (none, {})
  | restarted (begins : value = imeMagic0) (held : framer.buffer.length = 1) :
      framer.Accepts value (none, { buffer := [imeMagic0] })
  | stored (expected : Word) (sound : Sound { buffer := framer.buffer ++ [value], expected := expected }) :
      framer.Accepts value (none, { buffer := framer.buffer ++ [value], expected := expected })
  | completed (room : framer.buffer.length < 522) :
      framer.Accepts value (some (framer.buffer ++ [value]), {})

theorem Sound.accepts {framer : Framer} (sound : framer.Sound) (value : Byte) :
    framer.Accepts value (framer.accept value) := by
  dsimp only [accept]
  split
  · rename_i noise
    rw [sound.eq_empty (List.length_eq_zero_iff.mp noise.1)]
    exact .dropped
  split
  · rename_i _ mismatch
    rw [sound.eq_magic mismatch.1]
    by_cases begins : value = imeMagic0
    · rw [if_pos begins]
      exact .restarted begins rfl
    · rw [if_neg begins]
      exact .dropped
  split
  · exact .dropped
  rename_i first second full
  have magic := sound.take_magic first second
  have room : (framer.buffer ++ [value]).length ≤ 522 := by
    simp
    omega
  split
  · -- The length field has come; a sum beyond the buffer drops the header.
    rename_i header
    split
    · split
      · exact absurd rfl ‹_ ∧ _›.1
      · exact .dropped
    · split
      · exact .completed (by omega)
      · exact .stored _ ⟨room, magic, fun short => absurd header (Nat.ne_of_lt short)⟩
  · rename_i header
    split
    · exact .completed (by omega)
    · refine .stored _ ⟨room, magic, fun short => sound.early ?_⟩
      simp only [List.length_append, List.length_singleton] at short
      omega

theorem Accepts.sound {framer : Framer} {value : Byte} {outcome : Option (List Byte) × Framer}
    (accepts : framer.Accepts value outcome) : outcome.2.Sound := by
  cases accepts with
  | dropped => exact sound_empty
  | restarted begins held => exact sound_magic
  | stored expected sound => exact sound
  | completed room => exact sound_empty

theorem sound_respond (bytes : List Byte) {framer : Framer} (sound : framer.Sound) :
    (Run.respond Framer.accept bytes framer).2.Sound := by
  induction bytes generalizing framer with
  | nil => exact sound
  | cons value bytes inductionHypothesis => exact inductionHypothesis (sound.accepts value).sound

/-! ## Oversized headers -/

/-- A byte that passes the tests for its place, before the length field is complete. -/
theorem accept_early {buffer : List Byte} {value : Byte}
    (magic : (buffer ++ [value]).take 2 <+: [imeMagic0, imeMagic1]) (short : buffer.length < 7) :
    accept value { buffer := buffer } = (none, { buffer := buffer ++ [value] }) := by
  obtain ⟨first, second⟩ := magic_passes magic
  have next : (buffer ++ [value]).length = buffer.length + 1 := by simp
  have room : ¬ buffer.length ≥ 522 := by omega
  have header : ¬ buffer.length + 1 = 8 := by omega
  simp only [accept, first, second, next, room, header, if_false, ne_eq, not_true_eq_false, false_and]

theorem respond_early {buffer bytes : List Byte}
    (magic : (buffer ++ bytes).take 2 <+: [imeMagic0, imeMagic1]) (short : (buffer ++ bytes).length < 8) :
    Run.respond accept bytes { buffer := buffer } =
      (List.replicate bytes.length none, { buffer := buffer ++ bytes }) := by
  induction bytes generalizing buffer with
  | nil => simp
  | cons value bytes inductionHypothesis =>
    rw [List.append_cons] at magic short ⊢
    have opens : (buffer ++ [value]).take 2 <+: [imeMagic0, imeMagic1] :=
      ((List.prefix_append _ _).take 2).trans magic
    simp only [List.length_append, List.length_singleton] at short
    rw [Run.respond_cons, accept_early opens (by omega), inductionHypothesis magic (by simp; omega)]
    rfl

/-- A header whose length field is too large is let go at once unless the sum for the
expected length wraps; a sum of eight completes it. -/
theorem respond_oversized {header : List Byte} {version type s0 s1 l0 l1 : Byte}
    (bytes : header = [imeMagic0, imeMagic1, version, type, s0, s1, l0, l1])
    (oversized : 512 < (word l0 l1).toNat) :
    Run.respond accept header {} =
      if word l0 l1 ≤ 0xFFF5#16 then (List.replicate 8 none, {})
      else if word l0 l1 = 0xFFFE#16 then (List.replicate 7 none ++ [some header], {})
      else (List.replicate 8 none, { buffer := header, expected := 10#16 + word l0 l1 }) := by
  have beyond := oversized_sum oversized
  have seven : Run.respond accept [imeMagic0, imeMagic1, version, type, s0, s1, l0] {} =
      (List.replicate 7 none, { buffer := [imeMagic0, imeMagic1, version, type, s0, s1, l0] }) :=
    respond_early (List.prefix_refl _) (by simp)
  have last : accept l1 { buffer := [imeMagic0, imeMagic1, version, type, s0, s1, l0] } =
      if word l0 l1 ≤ 0xFFF5#16 then (none, {})
      else if word l0 l1 = 0xFFFE#16 then
        (some [imeMagic0, imeMagic1, version, type, s0, s1, l0, l1], {})
      else (none, {
        buffer := [imeMagic0, imeMagic1, version, type, s0, s1, l0, l1]
        expected := 10#16 + word l0 l1 }) := by
    simp only [accept, List.length_cons, List.length_nil, List.cons_append, List.nil_append,
      List.getD_eq_getElem?_getD, List.getElem?_cons_succ, List.getElem?_cons_zero, Option.getD_some]
    norm_num only
    simp only [false_and, if_false, if_true, beyond, ← header_sum]
    by_cases fits : word l0 l1 ≤ 0xFFF5#16
    · simp [fits]
    · simp only [fits, if_false]
      by_cases wraps : 8 = (10#16 + word l0 l1).toNat
      · rw [if_pos ⟨header_sum_ne_zero wraps, wraps⟩, if_pos wraps]
      · rw [if_neg fun both => wraps both.2, if_neg wraps]
  have split : [imeMagic0, imeMagic1, version, type, s0, s1, l0, l1] =
      [imeMagic0, imeMagic1, version, type, s0, s1, l0] ++ [l1] := rfl
  rw [bytes, split, Run.respond_append, seven, Run.respond_cons, last]
  split_ifs
  · rfl
  · rfl
  · rfl

end Framer

/-! ## Slices of the stream -/

/-- A byte for `accept_byte`, or a `reset_link` from elsewhere in the program. -/
inductive Feed where
  | byte (value : Byte)
  | reset

def Feed.apply (feed : Feed) (tsr : Tsr) : Tsr :=
  match feed with
  | .byte value => acceptByte value tsr
  | .reset => resetLink tsr

/-- A feed, with the packet that `handle_packet` acts on during it. -/
def Feed.note (feed : Feed) (tsr : Tsr) : Option Packet × Tsr :=
  match feed with
  | .byte value => acceptByteNoting value tsr
  | .reset => (none, resetLink tsr)

theorem Feed.note_state (feed : Feed) (tsr : Tsr) : (feed.note tsr).2 = feed.apply tsr := by
  cases feed with
  | byte value => exact acceptByteNoting_state value tsr
  | reset => rfl

/-- Contiguous slices of a stream, apart from each other and in its order. -/
inductive Slices : List Feed → List (List Byte) → Prop where
  | nil : Slices [] []
  | pass {feeds : List Feed} {slices : List (List Byte)} (feed : Feed) (sliced : Slices feeds slices) :
      Slices (feeds ++ [feed]) slices
  | slice {feeds : List Feed} {slices : List (List Byte)} (bytes : List Byte)
      (sliced : Slices feeds slices) : Slices (feeds ++ bytes.map Feed.byte) (slices ++ [bytes])

theorem Slices.pass_all {feeds : List Feed} {slices : List (List Byte)} (sliced : Slices feeds slices)
    (more : List Feed) : Slices (feeds ++ more) slices := by
  induction more generalizing feeds with
  | nil => simpa using sliced
  | cons feed more inductionHypothesis =>
    rw [List.append_cons]
    exact inductionHypothesis (sliced.pass feed)

/-- The stream so far, the packets acted on, and the framer behind them. -/
structure Followed (feeds : List Feed) (packets : List Packet) (framer : Framer) : Prop where
  sound : framer.Sound
  held : ∃ before slices, feeds = before ++ framer.buffer.map Feed.byte ∧ Slices before slices ∧
    slices.map imePacketParse = packets.map some

namespace Followed

theorem start : Followed [] [] {} := ⟨Framer.sound_empty, [], [], rfl, .nil, rfl⟩

variable {feeds : List Feed} {packets : List Packet} {framer : Framer}

/-- Whatever the framer holds may be let go. -/
theorem drop (followed : Followed feeds packets framer) (feed : Feed) :
    Followed (feeds ++ [feed]) packets {} := by
  obtain ⟨before, slices, rfl, sliced, parsed⟩ := followed.held
  exact ⟨Framer.sound_empty, _, slices, (List.append_nil _).symm, (sliced.pass_all _).pass feed, parsed⟩

theorem byte (followed : Followed feeds packets framer) (value : Byte) :
    Followed (feeds ++ [.byte value])
      (packets ++ ((framer.accept value).1.bind imePacketParse).toList) (framer.accept value).2 := by
  have accepts := followed.sound.accepts value
  generalize framer.accept value = outcome at accepts
  obtain ⟨before, slices, stream, sliced, parsed⟩ := followed.held
  cases accepts with
  | dropped => simpa using followed.drop (.byte value)
  | restarted begins held =>
    refine ⟨Framer.sound_magic, feeds, slices, by simp [begins], ?_, by simpa using parsed⟩
    rw [stream]
    exact sliced.pass_all _
  | stored expected sound => exact ⟨sound, before, slices, by simp [stream], sliced, by simpa using parsed⟩
  | completed room =>
    have whole : feeds ++ [.byte value] = before ++ (framer.buffer ++ [value]).map Feed.byte := by
      simp [stream]
    cases accepted : imePacketParse (framer.buffer ++ [value]) with
    | none => simpa [accepted] using followed.drop (.byte value)
    | some packet =>
      refine ⟨Framer.sound_empty, _, slices ++ [framer.buffer ++ [value]],
        by rw [whole]; exact (List.append_nil _).symm, sliced.slice _, ?_⟩
      simp [parsed, accepted]

end Followed

/-- One feed on the whole program follows the framer. -/
theorem Followed.feed {feeds : List Feed} {packets : List Packet} {tsr : Tsr}
    (followed : Followed feeds packets tsr.framer) (feed : Feed) :
    Followed (feeds ++ [feed]) (packets ++ (feed.note tsr).1.toList) (feed.note tsr).2.framer := by
  cases feed with
  | byte value =>
    obtain ⟨noted, next⟩ := acceptByteNoting_framer value tsr
    simp only [Feed.note, noted, next]
    exact followed.byte value
  | reset =>
    have cleared : (resetLink tsr).framer = {} := rfl
    simpa [Feed.note, cleared] using followed.drop .reset

theorem Followed.run {before : List Feed} {packets : List Packet} {tsr : Tsr}
    (followed : Followed before packets tsr.framer) (feeds : List Feed) :
    Followed (before ++ feeds) (packets ++ (Run.respond Feed.note feeds tsr).1.reduceOption)
      (Run.respond Feed.note feeds tsr).2.framer := by
  induction feeds generalizing before packets tsr with
  | nil => simpa using followed
  | cons feed feeds inductionHypothesis =>
    have rest := inductionHypothesis (followed.feed feed)
    rw [Run.respond_cons]
    rcases noted : (feed.note tsr).1 with _ | packet
    · simpa [noted, List.reduceOption_cons_of_none] using rest
    · simpa [noted, List.reduceOption_cons_of_some] using rest

/-- From the cleared state the framer follows whatever is fed to it. -/
theorem acceptByte_followed {tsr : Tsr} (empty : tsr.rxPacket = []) (nothing : tsr.rxExpected = 0#16)
    (feeds : List Feed) :
    Followed feeds (Run.respond Feed.note feeds tsr).1.reduceOption (Run.run Feed.apply feeds tsr).framer := by
  have started : Followed [] [] tsr.framer := by
    rw [Tsr.framer, empty, nothing]
    exact .start
  have followed := started.run feeds
  rwa [List.nil_append, List.nil_append, Run.respond_state Feed.note_state] at followed

/-- The index of `rx_packet` at which `accept_byte` stores the byte, if it stores it. -/
def acceptByteStores (value : Byte) (tsr : Tsr) : Option Nat :=
  if tsr.rxPacket.length = 0 ∧ value ≠ imeMagic0 then none
  else if tsr.rxPacket.length = 1 ∧ value ≠ imeMagic1 then none
  else if tsr.rxPacket.length ≥ 522 then none
  else some tsr.rxPacket.length

/-- Where nothing is stored, no packet is acted on and the buffer grows by nothing. -/
theorem acceptByte_unstored {value : Byte} {tsr : Tsr} (unstored : acceptByteStores value tsr = none) :
    (acceptByteNoting value tsr).1 = none ∧ (acceptByte value tsr).rxPacket <+: tsr.rxPacket := by
  rw [← acceptByteNoting_state]
  simp only [acceptByteStores] at unstored
  simp only [acceptByteNoting]
  split_ifs at unstored ⊢ with noise mismatch begins full
  · exact ⟨rfl, List.prefix_rfl⟩
  · exact ⟨rfl, List.prefix_rfl⟩
  · exact ⟨rfl, List.nil_prefix⟩
  · exact ⟨rfl, List.nil_prefix⟩

/-- A byte is stored right behind the buffer; it stays there, or the buffer is emptied. -/
theorem acceptByte_stored {value : Byte} {tsr : Tsr} {index : Nat}
    (stored : acceptByteStores value tsr = some index) : index = tsr.rxPacket.length ∧ index < 522 ∧
      ((acceptByte value tsr).rxPacket = tsr.rxPacket ++ [value] ∨ (acceptByte value tsr).rxPacket = []) := by
  simp only [acceptByteStores] at stored
  split_ifs at stored with noise mismatch full
  cases stored
  refine ⟨rfl, Nat.lt_of_not_le full, ?_⟩
  simp only [acceptByte, noise, mismatch, full, if_false]
  split_ifs
  · exact .inr rfl
  · exact .inr rfl
  · exact .inr rfl
  · exact .inl rfl
  · exact .inr rfl
  · exact .inl rfl

/-- Whatever bytes come from the cleared state on, with link resets anywhere: the buffer
is in its bounds, is the end of the stream and begins with the magic as far as it goes.
The next byte is stored right behind it and in its bounds, or not at all, and the packets
acted on are parsed slices of the stream, disjoint and in order. -/
theorem acceptByte_slices (feeds : List Feed) (tsr : Tsr) (empty : tsr.rxPacket = [])
    (nothing : tsr.rxExpected = 0#16) :
    let after := Run.run Feed.apply feeds tsr
    let acted := (Run.respond Feed.note feeds tsr).1.reduceOption
    after.rxPacket.length ≤ 522 ∧
      (∀ value index, acceptByteStores value after = some index →
        index < 522 ∧ index = after.rxPacket.length ∧
          ((acceptByte value after).rxPacket = after.rxPacket ++ [value] ∨
            (acceptByte value after).rxPacket = [])) ∧
      (∀ value, acceptByteStores value after = none →
        (acceptByteNoting value after).1 = none ∧ (acceptByte value after).rxPacket <+: after.rxPacket) ∧
      after.rxPacket.map Feed.byte <:+ feeds ∧
      after.rxPacket.take 2 <+: [imeMagic0, imeMagic1] ∧
      ∃ slices, Slices feeds slices ∧ slices.map imePacketParse = acted.map some := by
  have followed := acceptByte_followed empty nothing feeds
  obtain ⟨before, slices, stream, sliced, parsed⟩ := followed.held
  refine ⟨followed.sound.room, ?_, fun value unstored => acceptByte_unstored unstored,
    ⟨before, stream.symm⟩, followed.sound.magic, slices, ?_, parsed⟩
  · intro value index stores
    obtain ⟨behind, inside, grows⟩ := acceptByte_stored stores
    exact ⟨inside, behind, grows⟩
  · rw [stream]
    exact sliced.pass_all _

/-- A header whose length field wraps, one more byte, a link reset and a PING. -/
def wrappedThenGood : List Feed :=
  [0x49#8, 0x44#8, 1#8, 5#8, 0#8, 0#8, 0xF6#8, 0xFF#8, 0x49#8].map Feed.byte ++
    .reset :: (imePacketBuild imePing 1#16 []).map Feed.byte

theorem acceptByte_slices_wrappedThenGood :
    (Run.run Feed.apply wrappedThenGood {}).rxPacket.length ≤ 522 ∧
      ∃ slices, Slices wrappedThenGood slices ∧
        slices.map imePacketParse = [some ⟨imePing, 1#16, []⟩] := by
  have acted : (Run.respond Feed.note wrappedThenGood {}).1.reduceOption = [⟨imePing, 1#16, []⟩] := by
    decide +kernel
  obtain ⟨room, _, _, _, _, slices, sliced, parsed⟩ := acceptByte_slices wrappedThenGood {} rfl rfl
  rw [acted] at parsed
  exact ⟨room, slices, sliced, parsed⟩

end ImeBridge
