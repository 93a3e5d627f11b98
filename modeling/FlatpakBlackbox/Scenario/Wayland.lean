import FlatpakBlackbox.Basic.Framing

set_option autoImplicit false

/-! # The Wayland fixture

The server of `_dummy_socket` in `sandbox_scenarios.py`. It reads one connection in the chunks that
`recv` returns, answers every `wl_display.sync` with `done` and `delete_id`, and stops for good at a
header with an impossible size. Sends succeed here, and the connection is read until the client
closes it.
-/

namespace FlatpakBlackbox.Wayland

open PyLib

/-! ## Words -/

inductive ByteOrder where
  | little
  | big
  deriving DecidableEq

/-- `struct.unpack("=I", bytes)`. -/
def word (order : ByteOrder) (bytes : List UInt8) : Nat :=
  let ordered := match order with
    | .little => bytes.reverse
    | .big => bytes
  ordered.foldl (fun n byte => 256 * n + byte.toNat) 0

/-- `struct.pack("=I", n)`. -/
def packed (order : ByteOrder) (n : Nat) : List UInt8 :=
  let bytes := [n / 256 ^ 3, n / 256 ^ 2, n / 256, n].map UInt8.ofNat
  match order with
  | .little => bytes.reverse
  | .big => bytes

/-! ## The server -/

section Server

variable (order : ByteOrder)

/-- The first word of a message. -/
def objectId (buffer : List UInt8) : Nat := word order (buffer.take 4)

/-- `header`, the second word. -/
def header (buffer : List UInt8) : Nat := word order ((buffer.drop 4).take 4)

/-- `header >> 16`. -/
def size (buffer : List UInt8) : Nat := header order buffer >>> 16

/-- `header & 0xffff`. -/
def opcode (buffer : List UInt8) : Nat := header order buffer &&& 0xffff

/-- `wl_callback.done`, followed by `wl_display.delete_id`. -/
def reply (message : List UInt8) : List UInt8 :=
  let callback := word order (message.drop 8)
  [callback, 12 <<< 16, 0, 1, 12 <<< 16 ||| 1, callback].flatMap (packed order)

/-- The inner loop of `serve` on a buffer: the replies and the bytes it keeps, or `none` for these
where it gives up. Without fuel there is no result. -/
def innerLoop : Nat → List UInt8 → Option (List (List UInt8) × Option (List UInt8))
  | 0, _ => none
  | fuel + 1, buffer =>
      if buffer.length < 8 then some ([], some buffer)
      else if size order buffer < 8 ∨ size order buffer > 4096 then some ([], none)
      else if buffer.length < size order buffer then some ([], some buffer)
      else
        let message := buffer.take (size order buffer)
        let replies :=
          if objectId order buffer = 1 ∧ opcode order buffer = 0 ∧ size order buffer = 12 then
            [reply order message]
          else []
        (innerLoop fuel (buffer.drop (size order buffer))).map fun (later, left) =>
          (replies ++ later, left)

/-- `serve` on one connection, behind the bytes it kept: the replies it sends, and whether it stops
at a header. `recv` returns nothing when the client has closed. -/
def serve : List (List UInt8) → List UInt8 → Option (List (List UInt8) × Bool)
  | [], _ => some ([], false)
  | received :: chunks, buffer =>
      if received = [] then some ([], false)
      else
        match innerLoop order ((buffer ++ received).length + 1) (buffer ++ received) with
        | none => none
        | some (replies, none) => some (replies, true)
        | some (replies, some rest) =>
            (serve chunks rest).map fun (later, stopped) => (replies ++ later, stopped)

end Server

/-! ## Messages -/

section Messages

variable (order : ByteOrder)

/-- A message is as long as its header says. -/
def IsMessage (message : List UInt8) : Prop :=
  8 ≤ message.length ∧ message.length ≤ 4096 ∧ size order message = message.length

/-- A `wl_display.sync` request. -/
def isSync (message : List UInt8) : Bool :=
  objectId order message = 1 && opcode order message = 0 && message.length = 12

/-- The messages of a stream, and whether a malformed header follows them. -/
inductive Carries : List UInt8 → List (List UInt8) → Bool → Prop
  /-- The rest is shorter than a header, or than its header says. -/
  | incomplete {tail : List UInt8} (h : tail.length < 8 ∨
      8 ≤ size order tail ∧ size order tail ≤ 4096 ∧ tail.length < size order tail) :
      Carries tail [] false
  | malformed {tail : List UInt8} (hheader : 8 ≤ tail.length)
      (hsize : size order tail < 8 ∨ 4096 < size order tail) : Carries tail [] true
  | message {m rest : List UInt8} {ms : List (List UInt8)} {stopped : Bool} (h : IsMessage order m)
      (hrest : Carries rest ms stopped) : Carries (m ++ rest) (m :: ms) stopped

/-- What one turn of the inner loop finds. -/
def nextMessage (buffer : List UInt8) : Framed UInt8 (List UInt8) :=
  if buffer.length < 8 then .wait
  else if size order buffer < 8 ∨ size order buffer > 4096 then .malformed
  else if buffer.length < size order buffer then .wait
  else .item (buffer.take (size order buffer)) (buffer.drop (size order buffer))

/-- The fields lie in the first eight bytes. -/
theorem size_append {buffer : List UInt8} (h : 8 ≤ buffer.length) (more : List UInt8) :
    size order (buffer ++ more) = size order buffer := by
  have hheader : ((buffer ++ more).drop 4).take 4 = (buffer.drop 4).take 4 := by
    rw [List.drop_append_of_le_length (by omega), List.take_append_of_le_length (by simp; omega)]
  rw [size, size, header, header, hheader]

theorem fields_append {buffer : List UInt8} (h : 8 ≤ buffer.length) (more : List UInt8) :
    objectId order (buffer ++ more) = objectId order buffer ∧
      opcode order (buffer ++ more) = opcode order buffer := by
  have hheader : ((buffer ++ more).drop 4).take 4 = (buffer.drop 4).take 4 := by
    rw [List.drop_append_of_le_length (by omega), List.take_append_of_le_length (by simp; omega)]
  constructor
  · rw [objectId, objectId, List.take_append_of_le_length (by omega)]
  · rw [opcode, opcode, header, header, hheader]

/-- A turn takes off the message that stands at the front. -/
theorem nextMessage_eq_item {buffer m rest : List UInt8} :
    nextMessage order buffer = .item m rest ↔ IsMessage order m ∧ buffer = m ++ rest := by
  unfold nextMessage
  constructor
  · intro h
    split_ifs at h with hshort hsize hlength
    · obtain ⟨rfl, rfl⟩ := Framed.item.inj h
      have htake : (buffer.take (size order buffer)).length = size order buffer := by
        rw [List.length_take]
        omega
      have hsize' : size order (buffer.take (size order buffer) ++
        buffer.drop (size order buffer)) =
          size order (buffer.take (size order buffer)) := size_append order (by omega) _
      rw [List.take_append_drop] at hsize'
      exact ⟨⟨by omega, by omega, by omega⟩, (List.take_append_drop _ _).symm⟩
  · rintro ⟨⟨hlow, hhigh, hsize⟩, rfl⟩
    rw [size_append order hlow, hsize, if_neg (by rw [List.length_append]; omega),
      if_neg (by omega),
      if_neg (by rw [List.length_append]; omega), List.take_left' rfl, List.drop_left' rfl]

theorem nextMessage_eq_wait {buffer : List UInt8} : nextMessage order buffer = .wait ↔
    buffer.length < 8 ∨
      8 ≤ size order buffer ∧ size order buffer ≤ 4096 ∧ buffer.length < size order buffer := by
  unfold nextMessage
  constructor
  · intro h
    split_ifs at h with hshort hsize hlength
    · exact .inl hshort
    · exact .inr ⟨by omega, by omega, hlength⟩
  · rintro (hshort | ⟨hlow, hhigh, hlength⟩)
    · rw [if_pos hshort]
    · split_ifs with hshort hsize
      · rfl
      · omega
      · rfl

theorem nextMessage_eq_malformed {buffer : List UInt8} : nextMessage order buffer = .malformed ↔
    8 ≤ buffer.length ∧ (size order buffer < 8 ∨ 4096 < size order buffer) := by
  unfold nextMessage
  constructor
  · intro h
    split_ifs at h with hshort hsize hlength
    · exact ⟨by omega, hsize⟩
  · rintro ⟨hheader, hsize⟩
    rw [if_neg (by omega), if_pos hsize]

/-- The framer of the protocol. -/
def framer : Framer UInt8 (List UInt8) where
  next := nextMessage order
  shorter := by
    intro buffer m rest h
    obtain ⟨hm, rfl⟩ := (nextMessage_eq_item order).mp h
    have hlow := hm.1
    rw [List.length_append]
    omega
  item_append := by
    intro buffer m rest h more
    obtain ⟨hm, rfl⟩ := (nextMessage_eq_item order).mp h
    exact (nextMessage_eq_item order).mpr ⟨hm, List.append_assoc m rest more⟩
  malformed_append := by
    intro buffer h more
    obtain ⟨hheader, hsize⟩ := (nextMessage_eq_malformed order).mp h
    refine (nextMessage_eq_malformed order).mpr ⟨?_, ?_⟩
    · rw [List.length_append]
      omega
    · rwa [size_append order hheader]

/-- What a stream carries is what the framer reads in it. -/
theorem carries_iff {stream : List UInt8} {ms : List (List UInt8)} {stopped : Bool} :
    Carries order stream ms stopped ↔
      ∃ left, (framer order).Reads stream ms left ∧ left.isNone = stopped := by
  constructor
  · intro h
    induction h with
    | @incomplete tail htail =>
        exact ⟨some tail, .wait ((nextMessage_eq_wait order).mpr htail), rfl⟩
    | malformed hheader hsize =>
        exact ⟨none, .malformed ((nextMessage_eq_malformed order).mpr ⟨hheader, hsize⟩), rfl⟩
    | message hm _ ih =>
        obtain ⟨left, hrest, hstopped⟩ := ih
        exact ⟨left, .item ((nextMessage_eq_item order).mpr ⟨hm, rfl⟩) hrest, hstopped⟩
  · rintro ⟨left, h, rfl⟩
    induction h with
    | wait hnext => exact .incomplete ((nextMessage_eq_wait order).mp hnext)
    | malformed hnext =>
        obtain ⟨hheader, hsize⟩ := (nextMessage_eq_malformed order).mp hnext
        exact .malformed hheader hsize
    | item hnext _ ih =>
        obtain ⟨hm, rfl⟩ := (nextMessage_eq_item order).mp hnext
        exact .message hm ih

end Messages

/-! ## What the server does -/

section Run

variable {order : ByteOrder}

/-- The replies to messages. -/
def replies (order : ByteOrder) (ms : List (List UInt8)) : List (List UInt8) :=
  (ms.filter (isSync order)).map (reply order)

theorem replies_append (ms later : List (List UInt8)) :
    replies order (ms ++ later) = replies order ms ++ replies order later := by
  unfold replies
  rw [List.filter_append, List.map_append]

/-- A sync request is seen as one in the buffer. -/
theorem isSync_iff {m : List UInt8} (hm : IsMessage order m) (rest : List UInt8) :
    objectId order (m ++ rest) = 1 ∧ opcode order (m ++ rest) = 0 ∧ size order (m ++ rest) = 12 ↔
      isSync order m = true := by
  obtain ⟨hobject, hopcode⟩ := fields_append order hm.1 rest
  rw [size_append order hm.1, hm.2.2, hobject, hopcode, isSync]
  simp [and_assoc]

/-- **The inner loop ends**, with the messages of the buffer answered. -/
theorem innerLoop_eq {buffer : List UInt8} {ms : List (List UInt8)} {left : Option (List UInt8)}
    (h : (framer order).Reads buffer ms left) {fuel : Nat} (hfuel : buffer.length < fuel) :
    innerLoop order fuel buffer = some (replies order ms, left) := by
  induction h generalizing fuel with
  | wait hnext =>
      obtain ⟨fuel, rfl⟩ := Nat.exists_eq_succ_of_ne_zero (n := fuel) (by omega)
      rw [innerLoop]
      rcases (nextMessage_eq_wait order).mp hnext with hshort | ⟨hlow, hhigh, hlength⟩
      · rw [if_pos hshort]
        rfl
      · split_ifs with hshort hsize
        · rfl
        · omega
        · rfl
  | malformed hnext =>
      obtain ⟨fuel, rfl⟩ := Nat.exists_eq_succ_of_ne_zero (n := fuel) (by omega)
      obtain ⟨hheader, hsize⟩ := (nextMessage_eq_malformed order).mp hnext
      rw [innerLoop, if_neg (by omega), if_pos hsize]
      rfl
  | @item buffer rest m ms left hnext _ ih =>
      obtain ⟨fuel, rfl⟩ := Nat.exists_eq_succ_of_ne_zero (n := fuel) (by omega)
      obtain ⟨hm, rfl⟩ := (nextMessage_eq_item order).mp hnext
      have hsize : size order (m ++ rest) = m.length := by rw [size_append order hm.1, hm.2.2]
      have hlow := hm.1
      have hhigh := hm.2.1
      rw [List.length_append] at hfuel
      rw [innerLoop, if_neg (by rw [List.length_append]; omega), if_neg (by omega),
        if_neg (by rw [List.length_append]; omega)]
      dsimp only
      rw [hsize, List.take_left' rfl, List.drop_left' rfl, ih (by omega), Option.map_some, ← hsize]
      congr 2
      by_cases hsync : isSync order m = true
      · rw [if_pos ((isSync_iff hm rest).mpr hsync), replies, replies,
          List.filter_cons_of_pos hsync]
        rfl
      · rw [if_neg fun h => hsync ((isSync_iff hm rest).mp h), replies, replies,
          List.filter_cons_of_neg hsync, List.nil_append]

/-- The server reads what is fed to it. -/
theorem exists_fed {chunks : List (List UInt8)} (hchunks : ∀ chunk ∈ chunks, chunk ≠ [])
    (buffer : List UInt8) : ∃ ms left, (framer order).Fed buffer chunks ms left ∧
      serve order chunks buffer = some (replies order ms, left.isNone) := by
  induction chunks generalizing buffer with
  | nil => exact ⟨[], some buffer, .ended buffer, rfl⟩
  | cons chunk chunks ih =>
      obtain ⟨hchunk, hrest⟩ := List.forall_mem_cons.mp hchunks
      obtain ⟨ms, left, hreads⟩ := (framer order).exists_reads (buffer ++ chunk)
      have hloop := innerLoop_eq hreads (Nat.lt_succ_self _)
      cases left with
      | none =>
          refine ⟨ms, none, .malformed hreads, ?_⟩
          rw [serve, if_neg hchunk, hloop]
          rfl
      | some rest =>
          obtain ⟨later, left, hfed, hserve⟩ := ih hrest rest
          refine ⟨ms ++ later, left, .chunk hreads hfed, ?_⟩
          rw [serve, if_neg hchunk, hloop]
          dsimp only
          rw [hserve, Option.map_some, replies_append]

end Run

/-- **The framing does not depend on chunking.** The inner loop ends on every buffer. A stream
carries its messages in one way, and however it is cut into chunks, the server answers its sync
requests, in order and once each, and stops if a malformed header follows the messages. -/
theorem serve_framing (order : ByteOrder) (stream : List UInt8) :
    (∀ buffer, ∃ result, innerLoop order (buffer.length + 1) buffer = some result) ∧
    ∃ messages stopped, Carries order stream messages stopped ∧
      (∀ messages' stopped', Carries order stream messages' stopped' →
        messages' = messages ∧ stopped' = stopped) ∧
      ∀ chunks : List (List UInt8), (∀ chunk ∈ chunks, chunk ≠ []) → chunks.flatten = stream →
        serve order chunks [] =
          some ((messages.filter (isSync order)).map (reply order), stopped) := by
  constructor
  · intro buffer
    obtain ⟨ms, left, hreads⟩ := (framer order).exists_reads buffer
    exact ⟨_, innerLoop_eq hreads (Nat.lt_succ_self _)⟩
  · obtain ⟨ms, left, hreads⟩ := (framer order).exists_reads stream
    refine ⟨ms, left.isNone, (carries_iff order).mpr ⟨left, hreads, rfl⟩, ?_, ?_⟩
    · intro messages' stopped' hcarries
      obtain ⟨left', hreads', rfl⟩ := (carries_iff order).mp hcarries
      obtain ⟨rfl, rfl⟩ := hreads.unique hreads'
      exact ⟨rfl, rfl⟩
    · rintro chunks hchunks rfl
      obtain ⟨ms', left', hfed, hserve⟩ := @exists_fed order chunks hchunks []
      have hempty : ([] : List UInt8).length < 8 := by decide
      have hwait : (framer order).next [] = .wait := (nextMessage_eq_wait order).mpr (.inl hempty)
      obtain ⟨rfl, rfl⟩ := hreads.unique (hfed.reads hwait)
      exact hserve

end FlatpakBlackbox.Wayland
