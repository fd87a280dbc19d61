import Mathlib.Data.List.ReduceOption
import ImeBridge.Wire.Frame

/-! # The receiver of the foreground client

`read_packet` of `dos/pc98/main.c`.  It reads from the port with two budgets, one of
reads that time out in a row and one of bytes, and does not look at the checksum.
-/

namespace ImeBridge

/-- The local variables of `read_packet`, and `serial_rx_packet[0..count)`. -/
structure ReadPacket where
  packet : List Byte := []
  expected : Word := 0#16
  idleReads : Nat := 0
  byteReads : Nat := 0

namespace ReadPacket

/-- The test of the loop. -/
def Running (locals : ReadPacket) : Prop := locals.idleReads < 4 ∧ locals.byteReads < 128

instance decidableRunning (locals : ReadPacket) : Decidable locals.Running := by
  unfold Running
  infer_instance

/-- The body of the loop after a read, `none` being one that timed out.  A `return` is an
`.error`, with the packet if the result is 1. -/
def body (received : Option Byte) (locals : ReadPacket) : Except (Option (List Byte)) ReadPacket :=
  match received with
  | none => .ok { locals with idleReads := locals.idleReads + 1 }
  | some value =>
    let locals := { locals with byteReads := locals.byteReads + 1, idleReads := 0 }
    if locals.packet.length = 0 ∧ value ≠ imeMagic0 then .ok locals
    -- Unlike in `accept_byte`, the mismatching byte never begins a packet.
    else if locals.packet.length = 1 ∧ value ≠ imeMagic1 then .ok { locals with packet := [] }
    else
      let locals := { locals with packet := locals.packet ++ [value] }
      let expected :=
        if locals.packet.length = 8 then
          10#16 + word (locals.packet.getD 6 0) (locals.packet.getD 7 0)
        else locals.expected
      if locals.packet.length = 8 ∧ expected > 522#16 then .error none
      else if expected ≠ 0#16 ∧ locals.packet.length = expected.toNat then .error (some locals.packet)
      else if locals.packet.length ≥ 522 then .error none
      else .ok { locals with expected := expected }

/-- The loop on the coming reads: the packet if the result is 1, and the reads left. -/
def loop : List (Option Byte) → ReadPacket → Option (List Byte) × List (Option Byte)
  -- No byte comes any more, so the idle budget ends the loop.
  | [], _ => (none, [])
  | received :: reads, locals =>
    if locals.Running then
      match body received locals with
      | .error result => (result, reads)
      | .ok locals => loop reads locals
    else (none, received :: reads)

/-- The loop after some reads, if it has not returned and goes on. -/
def after : List (Option Byte) → ReadPacket → Option ReadPacket
  | [], locals => if locals.Running then some locals else none
  | received :: reads, locals =>
    if locals.Running then
      match body received locals with
      | .error _ => none
      | .ok locals => after reads locals
    else none

end ReadPacket

/-- The packet in `serial_rx_packet` if the result is 1, and the reads left. -/
def readPacket (reads : List (Option Byte)) : Option (List Byte) × List (Option Byte) :=
  ReadPacket.loop reads {}

namespace ReadPacket

/-! ## The loop read by read -/

theorem after_nil {locals last : ReadPacket} (goes : after [] locals = some last) :
    locals.Running ∧ last = locals := by
  simp only [after] at goes
  split at goes
  · cases goes
    exact ⟨by assumption, rfl⟩
  · contradiction

/-- One more read: the loop is running and its body goes on to the next. -/
theorem after_cons {received : Option Byte} {reads : List (Option Byte)} {locals last : ReadPacket}
    (goes : after (received :: reads) locals = some last) :
    locals.Running ∧ ∃ next, body received locals = .ok next ∧ after reads next = some last := by
  simp only [after] at goes
  split at goes
  · rename_i running
    split at goes
    · contradiction
    · rename_i next turned
      exact ⟨running, next, turned, goes⟩
  · contradiction

theorem after_running {reads : List (Option Byte)} {locals last : ReadPacket}
    (goes : after reads locals = some last) : last.Running := by
  induction reads generalizing locals with
  | nil =>
    obtain ⟨running, rfl⟩ := after_nil goes
    exact running
  | cons received reads inductionHypothesis =>
    obtain ⟨-, next, -, rest⟩ := after_cons goes
    exact inductionHypothesis rest

/-- The loop can be cut behind any reads after which it goes on. -/
theorem loop_append {front : List (Option Byte)} {locals last : ReadPacket}
    (goes : after front locals = some last) (rest : List (Option Byte)) :
    loop (front ++ rest) locals = loop rest last := by
  induction front generalizing locals with
  | nil =>
    obtain ⟨-, rfl⟩ := after_nil goes
    rfl
  | cons received front inductionHypothesis =>
    obtain ⟨running, next, turned, later⟩ := after_cons goes
    rw [List.cons_append, loop, if_pos running, turned]
    exact inductionHypothesis later

theorem after_append {front : List (Option Byte)} {locals last : ReadPacket}
    (goes : after front locals = some last) (rest : List (Option Byte)) :
    after (front ++ rest) locals = after rest last := by
  induction front generalizing locals with
  | nil =>
    obtain ⟨-, rfl⟩ := after_nil goes
    rfl
  | cons received front inductionHypothesis =>
    obtain ⟨running, next, turned, later⟩ := after_cons goes
    rw [List.cons_append, after, if_pos running, turned]
    exact inductionHypothesis later

/-- What a packet that is not complete leaves in the local variables: those of a loop
that goes on. -/
structure Filling (packet : List Byte) (byteReads : Nat) (locals : ReadPacket) : Prop where
  packet : locals.packet = packet
  bytes : locals.byteReads = byteReads
  early : locals.packet.length < 8 → locals.expected = 0#16

/-- A byte that passes the tests for its place, with no length field known before or
behind it. -/
theorem Filling.body {packet : List Byte} {byteReads : Nat} {locals : ReadPacket}
    (filling : Filling packet byteReads locals) {value : Byte}
    (magic : (packet ++ [value]).take 2 <+: [imeMagic0, imeMagic1]) (short : packet.length < 7) :
    ∃ next, ReadPacket.body (some value) locals = .ok next ∧
      Filling (packet ++ [value]) (byteReads + 1) next := by
  obtain ⟨held, expected, idleReads, bytes⟩ := locals
  obtain ⟨rfl, rfl, early⟩ := filling
  have below : held.length < 7 := short
  have nothing : expected = 0#16 := early (Nat.lt_succ_of_lt below)
  subst nothing
  obtain ⟨first, second⟩ := magic_passes magic
  have next : (held ++ [value]).length = held.length + 1 := by simp
  refine ⟨{ packet := held ++ [value], byteReads := bytes + 1 }, ?_, rfl, rfl, fun _ => rfl⟩
  have header : ¬ held.length + 1 = 8 := by omega
  have room : ¬ held.length + 1 ≥ 522 := by omega
  simp only [ReadPacket.body, first, second, next, header, room, false_and, if_false, ne_eq,
    not_true_eq_false]

/-- Reads, some of which may time out, that bring the first bytes of a packet. -/
theorem Filling.after {packet : List Byte} {byteReads : Nat} {locals last : ReadPacket}
    (filling : Filling packet byteReads locals) {reads : List (Option Byte)}
    (magic : (packet ++ reads.reduceOption).take 2 <+: [imeMagic0, imeMagic1])
    (short : (packet ++ reads.reduceOption).length < 8)
    (goes : ReadPacket.after reads locals = some last) :
    Filling (packet ++ reads.reduceOption) (byteReads + reads.reduceOption.length) last := by
  induction reads generalizing packet byteReads locals with
  | nil =>
    obtain ⟨-, rfl⟩ := after_nil goes
    simpa using filling
  | cons received reads inductionHypothesis =>
    obtain ⟨-, next, turned, later⟩ := after_cons goes
    cases received with
    | none =>
      have stays : Filling packet byteReads { locals with idleReads := locals.idleReads + 1 } :=
        ⟨filling.packet, filling.bytes, filling.early⟩
      cases turned
      exact inductionHypothesis stays magic short later
    | some value =>
      rw [List.reduceOption_cons_of_some] at magic short ⊢
      rw [List.append_cons] at magic short ⊢
      have opens : (packet ++ [value]).take 2 <+: [imeMagic0, imeMagic1] :=
        ((List.prefix_append _ _).take 2).trans magic
      obtain ⟨filled, passed, filling⟩ := filling.body opens
        (by simp only [List.length_append, List.length_singleton] at short; omega)
      cases turned.symm.trans passed
      have rest := inductionHypothesis filling magic short later
      rwa [List.length_cons, Nat.add_comm reads.reduceOption.length, ← Nat.add_assoc]

/-- Reads of any kind keep count of their bytes, and a length field is known only with
the eight bytes of a header. -/
theorem body_keeps {received : Option Byte} {locals next : ReadPacket}
    (turned : body received locals = .ok next)
    (early : locals.packet.length < 8 → locals.expected = 0#16) :
    next.byteReads = locals.byteReads + received.toList.length ∧
      (next.packet.length < 8 → next.expected = 0#16) := by
  cases received with
  | none =>
    cases turned
    exact ⟨rfl, early⟩
  | some value =>
    dsimp only [body] at turned
    split_ifs at turned with noise mismatch header oversized complete full complete full
    · cases turned
      exact ⟨rfl, early⟩
    · cases turned
      exact ⟨rfl, fun _ => early (by omega)⟩
    · cases turned
      exact ⟨rfl, fun short => absurd header (Nat.ne_of_lt short)⟩
    · cases turned
      refine ⟨rfl, fun short => early ?_⟩
      simp only [List.length_append, List.length_singleton] at short
      omega

theorem after_keeps {reads : List (Option Byte)} {locals last : ReadPacket}
    (goes : after reads locals = some last) (early : locals.packet.length < 8 → locals.expected = 0#16) :
    last.byteReads = locals.byteReads + reads.reduceOption.length ∧
      (last.packet.length < 8 → last.expected = 0#16) := by
  induction reads generalizing locals with
  | nil =>
    obtain ⟨-, rfl⟩ := after_nil goes
    exact ⟨rfl, early⟩
  | cons received reads inductionHypothesis =>
    obtain ⟨-, next, turned, rest⟩ := after_cons goes
    obtain ⟨count, early⟩ := body_keeps turned early
    obtain ⟨counts, later⟩ := inductionHypothesis rest early
    refine ⟨?_, later⟩
    rw [counts, count]
    cases received with
    | none => simp [List.reduceOption_cons_of_none]
    | some value =>
      simp [List.reduceOption_cons_of_some]
      omega

/-! ## Whole frames -/

/-- One more byte of a frame, the last one or not. -/
theorem body_frame (frame : Frame) {filled rest : List Byte} {value : Byte} {locals : ReadPacket}
    (split : filled ++ value :: rest = frame.bytes) (packet : locals.packet = filled)
    (expected : locals.expected = if filled.length < 8 then 0#16 else 10#16 + frame.length) :
    body (some value) locals =
      if rest = [] then .error (some frame.bytes)
      else .ok {
        packet := filled ++ [value]
        expected := if (filled ++ [value]).length < 8 then 0#16 else 10#16 + frame.length
        byteReads := locals.byteReads + 1 } := by
  have ends := frame.last_iff split
  have small := frame.total_le
  have lengths := congrArg List.length split
  simp only [List.length_append, List.length_cons, Frame.length_bytes] at lengths
  have fits := frame.fits
  simp only [imeMaxPayload] at fits
  have next : (filled ++ [value]).length = filled.length + 1 := by simp
  have here : (filled ++ [value]) ++ rest = frame.bytes := by rw [← split, ← List.append_cons]
  obtain ⟨first, second⟩ := magic_passes (frame.magic_front here)
  simp only [body, packet, expected, first, second, next, if_false]
  rcases Nat.lt_trichotomy (filled.length + 1) 8 with header | complete | payload
  · have more := frame.more_behind split (by omega)
    have room : ¬ filled.length + 1 ≥ 522 := by omega
    simp [header, header.ne, more, room, show filled.length < 8 by omega]
  · -- The header is complete: its length field fixes what is expected.
    have more := frame.more_behind split (by omega)
    have field := frame.length_front here (by omega)
    have unfinished : ¬ 8 = (10#16 + frame.length).toNat := by
      rw [← complete, ← ends]
      exact more
    have room : ¬ 8 ≥ 522 := by omega
    simp only [complete, field, small, unfinished, more, room, and_false, if_true, if_false, lt_irrefl]
  · have counted : ¬ filled.length < 8 := by omega
    have counting : ¬ filled.length + 1 < 8 := by omega
    simp only [payload.ne', counted, counting, false_and, if_false, ← ends]
    by_cases last : rest = []
    · have complete : filled ++ [value] = frame.bytes := by rw [← split, last]
      rw [if_pos ⟨frame.total_ne_zero, last⟩, if_pos last, complete]
    · have more := List.length_pos_iff.mpr last
      have room : ¬ filled.length + 1 ≥ 522 := by omega
      simp only [last, room, and_false, if_false]

/-- The bytes of a frame that are still to come, within the byte budget and without a
read that times out. -/
theorem loop_frame (frame : Frame) {filled rest : List Byte} {locals : ReadPacket}
    (split : filled ++ rest = frame.bytes) (unfinished : rest ≠ []) (packet : locals.packet = filled)
    (expected : locals.expected = if filled.length < 8 then 0#16 else 10#16 + frame.length)
    (running : locals.idleReads < 4) (budget : locals.byteReads + rest.length ≤ 128)
    (reads : List (Option Byte)) :
    loop (rest.map some ++ reads) locals = (some frame.bytes, reads) := by
  induction rest generalizing filled locals with
  | nil => exact absurd rfl unfinished
  | cons value rest inductionHypothesis =>
    rw [List.length_cons] at budget
    rw [List.map_cons, List.cons_append, loop, if_pos ⟨running, by omega⟩,
      body_frame frame split packet expected]
    by_cases last : rest = []
    · simp [last]
    · simp only [last, if_false]
      refine inductionHypothesis ?_ last rfl rfl (by dsimp only; decide) (by dsimp only; omega)
      rw [← split, ← List.append_cons]

/-- A packet that is returned has been read. -/
theorem length_loop {reads left : List (Option Byte)} {locals : ReadPacket} {packet : List Byte}
    (returns : loop reads locals = (some packet, left)) :
    packet.length + left.length ≤ locals.packet.length + reads.length := by
  induction reads generalizing locals with
  | nil => simp [loop] at returns
  | cons received reads inductionHypothesis =>
    simp only [loop] at returns
    split at returns
    · split at returns
      · rename_i result turned
        cases returns
        cases received with
        | none => contradiction
        | some value =>
          dsimp only [body] at turned
          split_ifs at turned <;> cases turned
          all_goals
            simp
            omega
      · rename_i next turned
        have rest := inductionHypothesis returns
        have grows : next.packet.length ≤ locals.packet.length + 1 := by
          cases received with
          | none =>
            cases turned
            simp
          | some value =>
            dsimp only [body] at turned
            split_ifs at turned <;> cases turned <;> simp
        rw [List.length_cons]
        omega
    · simp at returns

/-! ## Oversized headers -/

/-- The byte that completes a header whose length field is too large. -/
theorem body_oversized {locals : ReadPacket} {byteReads : Nat} {version type s0 s1 l0 l1 : Byte}
    (filling : Filling [imeMagic0, imeMagic1, version, type, s0, s1, l0] byteReads locals)
    (oversized : 512 < (word l0 l1).toNat) :
    body (some l1) locals =
      if word l0 l1 ≤ 0xFFF5#16 then .error none
      else if word l0 l1 = 0xFFFE#16 then
        .error (some [imeMagic0, imeMagic1, version, type, s0, s1, l0, l1])
      else .ok {
        packet := [imeMagic0, imeMagic1, version, type, s0, s1, l0, l1]
        expected := 10#16 + word l0 l1
        byteReads := byteReads + 1 } := by
  obtain ⟨held, expected, idleReads, bytes⟩ := locals
  obtain ⟨rfl, rfl, early⟩ := filling
  have beyond := oversized_sum oversized
  simp only [body, List.length_cons, List.length_nil, List.cons_append, List.nil_append,
    List.getD_eq_getElem?_getD, List.getElem?_cons_succ, List.getElem?_cons_zero, Option.getD_some]
  norm_num only
  simp only [false_and, true_and, if_false, if_true, beyond, ← header_sum]
  split
  · rfl
  · by_cases wraps : 8 = (10#16 + word l0 l1).toNat
    · rw [if_pos ⟨header_sum_ne_zero wraps, wraps⟩, if_pos wraps]
    · rw [if_neg fun both => wraps both.2, if_neg wraps]

/-- Having reached an oversized header, `read_packet` returns 0 on its eighth byte
exactly if the sum for the expected length does not wrap, or the byte budget ends there
and the sum is not the number of bytes held. -/
theorem readPacket_oversized {noise reads : List (Option Byte)} {atHeader last : ReadPacket}
    {version type s0 s1 l0 l1 : Byte} (found : after noise {} = some atHeader)
    (hunting : atHeader.packet = [])
    (header : reads.reduceOption = [imeMagic0, imeMagic1, version, type, s0, s1, l0])
    (comes : after (noise ++ reads) {} = some last) (oversized : 512 < (word l0 l1).toNat) :
    (∀ rest, readPacket (noise ++ reads ++ some l1 :: rest) = (none, rest)) ↔
      word l0 l1 ≤ 0xFFF5#16 ∨
        (noise.reduceOption.length + 8 = 128 ∧ word l0 l1 ≠ 0xFFFE#16) := by
  obtain ⟨counted, early⟩ := after_keeps found (fun _ => rfl)
  have goes : after reads atHeader = some last := by rwa [after_append found] at comes
  have filling : Filling [imeMagic0, imeMagic1, version, type, s0, s1, l0]
      (noise.reduceOption.length + 7) last := by
    have start : Filling [] noise.reduceOption.length atHeader := ⟨hunting, by simpa using counted, early⟩
    have filled := start.after (by simp [header]) (by simp [header]) goes
    rwa [List.nil_append, header] at filled
  have running := after_running comes
  have budget : noise.reduceOption.length + 7 < 128 := filling.bytes ▸ running.2
  -- All that is read after the header is read by the loop behind the eighth byte.
  have cut : ∀ rest, readPacket (noise ++ reads ++ some l1 :: rest) = loop (some l1 :: rest) last :=
    fun rest => loop_append comes _
  simp only [cut, loop, if_pos running, body_oversized filling oversized]
  by_cases beyond : word l0 l1 ≤ 0xFFF5#16
  · simp [beyond]
  by_cases eight : word l0 l1 = 0xFFFE#16
  · simp [eight]
  simp only [beyond, eight, if_false, false_or]
  by_cases spent : noise.reduceOption.length + 8 = 128
  · -- The byte budget ends the loop before anything else is read.
    refine iff_of_true (fun rest => ?_) ⟨spent, eight⟩
    cases rest with
    | nil => rfl
    | cons received rest => rw [loop, if_neg fun running => absurd running.2 (by dsimp only; omega)]
  · -- One more byte is taken.
    refine iff_of_false (fun returns => ?_) fun both => spent both.1
    have more := returns [some 0#8]
    rw [loop, if_pos ⟨by dsimp only; omega, by dsimp only; omega⟩] at more
    split at more
    · simp at more
    · simp [loop] at more

end ReadPacket

/-! ## Reads in time -/

namespace ReadPacket

/-- Never four reads in a row time out, some having timed out before. -/
def Prompt : Nat → List (Option Byte) → Prop
  | _, [] => True
  | idle, none :: reads => idle + 1 < 4 ∧ Prompt (idle + 1) reads
  | _, some _ :: reads => Prompt 0 reads

instance decidablePrompt : (idle : Nat) → (reads : List (Option Byte)) → Decidable (Prompt idle reads)
  | _, [] => .isTrue trivial
  | idle, none :: reads => @instDecidableAnd _ _ inferInstance (decidablePrompt (idle + 1) reads)
  | _, some _ :: reads => decidablePrompt 0 reads

theorem Prompt.fewer {idle fewer : Nat} {reads : List (Option Byte)} (prompt : Prompt idle reads)
    (less : fewer ≤ idle) : Prompt fewer reads := by
  induction reads generalizing idle fewer with
  | nil => trivial
  | cons received reads inductionHypothesis =>
    cases received with
    | none => exact ⟨by have bound := prompt.1; omega, inductionHypothesis prompt.2 (by omega)⟩
    | some value => exact prompt

theorem Prompt.suffix {idle : Nat} {left reads : List (Option Byte)} (prompt : Prompt idle reads)
    (suffix : left <:+ reads) : Prompt 0 left := by
  obtain ⟨front, rfl⟩ := suffix
  induction front generalizing idle with
  | nil => exact prompt.fewer (Nat.zero_le _)
  | cons received front inductionHypothesis =>
    cases received with
    | none => exact inductionHypothesis prompt.2
    | some value => exact inductionHypothesis prompt

theorem Prompt.front {idle : Nat} {front rest : List (Option Byte)} (prompt : Prompt idle (front ++ rest)) :
    Prompt idle front := by
  induction front generalizing idle with
  | nil => trivial
  | cons received front inductionHypothesis =>
    cases received with
    | none => exact ⟨prompt.1, inductionHypothesis prompt.2⟩
    | some value => exact inductionHypothesis prompt

theorem loop_stopped {locals : ReadPacket} (stops : ¬ locals.Running) (reads : List (Option Byte)) :
    loop reads locals = (none, reads) := by
  cases reads with
  | nil => rfl
  | cons received reads => rw [loop, if_neg stops]

theorem body_rested {value : Byte} {locals next : ReadPacket}
    (turned : body (some value) locals = .ok next) : next.idleReads = 0 := by
  dsimp only [body] at turned
  split_ifs at turned <;> cases turned <;> rfl

/-- Then only the bytes matter. -/
theorem loop_prompt {reads : List (Option Byte)} {locals : ReadPacket}
    (prompt : Prompt locals.idleReads reads) (patient : locals.idleReads < 4) :
    loop (reads.reduceOption.map some) { locals with idleReads := 0 } =
        ((loop reads locals).1, (loop reads locals).2.reduceOption.map some) ∧
      Prompt 0 (loop reads locals).2 := by
  -- On the reads; a byte resets the idle count, so that it never ends the loop.
  induction reads generalizing locals with
  | nil => exact ⟨rfl, trivial⟩
  | cons received reads inductionHypothesis =>
    by_cases budget : locals.byteReads < 128
    · have running : locals.Running := ⟨patient, budget⟩
      have running' : ReadPacket.Running { locals with idleReads := 0 } := ⟨Nat.zero_lt_succ 3, budget⟩
      cases received with
      | none =>
        rw [List.reduceOption_cons_of_none, loop, if_pos running]
        exact @inductionHypothesis { locals with idleReads := locals.idleReads + 1 } prompt.2 prompt.1
      | some value =>
        rw [List.reduceOption_cons_of_some, List.map_cons, loop, if_pos running', loop, if_pos running]
        have same : body (some value) { locals with idleReads := 0 } = body (some value) locals := rfl
        rw [same]
        cases turned : body (some value) locals with
        | error result => exact ⟨rfl, prompt⟩
        | ok next =>
          have rested : next.idleReads = 0 := body_rested turned
          have prompt' : Prompt next.idleReads reads := rested ▸ prompt
          have rest := inductionHypothesis prompt' (rested ▸ Nat.zero_lt_succ 3)
          have started : { next with idleReads := 0 } = next := by rw [← rested]
          rw [started] at rest
          exact rest
    · have stops : ¬ locals.Running := fun running => budget running.2
      have stops' : ¬ ReadPacket.Running { locals with idleReads := 0 } := fun running => budget running.2
      rw [loop_stopped stops, loop_stopped stops']
      exact ⟨rfl, prompt.fewer (Nat.zero_le _)⟩

/-! ## What a packet was read from -/

theorem loop_suffix (reads : List (Option Byte)) (locals : ReadPacket) : (loop reads locals).2 <:+ reads := by
  induction reads generalizing locals with
  | nil => exact List.suffix_refl _
  | cons received reads inductionHypothesis =>
    rw [loop]
    split
    · split
      · exact List.suffix_cons _ _
      · exact (inductionHypothesis _).trans (List.suffix_cons _ _)
    · exact List.suffix_refl _

/-- A byte is put behind those held, or they are given up; a packet that is returned ends
with it. -/
theorem body_segment (value : Byte) (locals : ReadPacket) :
    match body (some value) locals with
    | .error none => True
    | .error (some packet) => packet = locals.packet ++ [value]
    | .ok next => (next.packet = [] ∨ next.packet = locals.packet ++ [value]) ∧
      next.byteReads = locals.byteReads + 1 := by
  dsimp only [body]
  split_ifs with noise
  · have held : locals.packet = [] := List.length_eq_zero_iff.mp noise.1
    simp [held]
  all_goals simp

/-- The bytes of a packet stand together, and there are at most 128. -/
theorem loop_segment {reads left : List (Option Byte)} {locals : ReadPacket} {packet : List Byte}
    (counted : locals.packet.length ≤ locals.byteReads) (returns : loop reads locals = (some packet, left)) :
    (∃ front, locals.packet ++ reads.reduceOption = front ++ packet ++ left.reduceOption) ∧
      packet.length ≤ 128 := by
  induction reads generalizing locals with
  | nil => simp [loop] at returns
  | cons received reads inductionHypothesis =>
    rw [loop] at returns
    split at returns
    · rename_i running
      cases received with
      | none => exact @inductionHypothesis { locals with idleReads := locals.idleReads + 1 } counted returns
      | some value =>
        have segment := body_segment value locals
        rw [List.reduceOption_cons_of_some, List.append_cons]
        have budget := running.2
        cases turned : body (some value) locals with
        | error result =>
          rw [turned] at returns segment
          obtain ⟨rfl, rfl⟩ := Prod.mk.inj returns
          obtain rfl : packet = locals.packet ++ [value] := segment
          refine ⟨⟨[], by simp⟩, ?_⟩
          rw [List.length_append, List.length_singleton]
          omega
        | ok next =>
          rw [turned] at returns segment
          obtain ⟨held, count⟩ := segment
          have lengths : (locals.packet ++ [value]).length ≤ next.byteReads := by
            rw [List.length_append, List.length_singleton, count]
            omega
          rcases held with given | kept
          · -- The bytes given up stand before the packet.
            obtain ⟨⟨front, split⟩, few⟩ := inductionHypothesis (by simp [given]) returns
            refine ⟨⟨locals.packet ++ [value] ++ front, ?_⟩, few⟩
            rw [given, List.nil_append] at split
            simp [split]
          · obtain ⟨⟨front, split⟩, few⟩ := inductionHypothesis (kept ▸ lengths) returns
            exact ⟨⟨front, kept ▸ split⟩, few⟩
    · simp at returns

end ReadPacket

end ImeBridge
