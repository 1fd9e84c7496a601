import Bsdos.Wlstream.Parser

namespace Bsdos.Wlstream
open Octets Framing

section Numbers
variable {data rest back : Bytes} {i j : Nat}

@[simp] theorem le16_length (n : UInt16) : (le16 n).length = 2 := toLe_length 2 _

@[simp] theorem le32_length (n : UInt32) : (le32 n).length = 4 := toLe_length 4 _

@[simp] theorem lei32_length (n : Int32) : (lei32 n).length = 4 := toLe_length 4 _

theorem part_here {front : Bytes} {size : Nat} (length : front.length = size) : part (front ++ rest) 0 size = front := by
  rw [part, List.drop_zero, ← length, List.take_left]

theorem part_past {front : Bytes} {size : Nat} (past : front.length ≤ i) :
    part (front ++ back) i size = part back (i - front.length) size := by
  obtain ⟨k, rfl⟩ := Nat.exists_eq_add_of_le past
  rw [part, part, ← List.drop_drop, List.drop_left, Nat.add_sub_cancel_left]

theorem u16At_here (n : UInt16) (rest : Bytes) : u16At (le16 n ++ rest) 0 = n := by
  rw [u16At, part_here (le16_length n), le16, ofLe_toLe n.toNat_lt, UInt16.ofNat_toNat]

theorem u32At_here (n : UInt32) (rest : Bytes) : u32At (le32 n ++ rest) 0 = n := by
  rw [u32At, part_here (le32_length n), le32, ofLe_toLe n.toNat_lt, UInt32.ofNat_toNat]

theorem i32At_here (n : Int32) (rest : Bytes) : i32At (lei32 n ++ rest) 0 = n := by
  rw [i32At, lei32, u32At_here]
  exact Int32.toInt32_toUInt32 n

theorem part_past16 {size : Nat} (n : UInt16) (past : 2 ≤ i) : part (le16 n ++ back) i size = part back (i - 2) size := by
  rw [part_past (by rwa [le16_length]), le16_length]

theorem part_past32 {size : Nat} (n : UInt32) (past : 4 ≤ i) : part (le32 n ++ back) i size = part back (i - 4) size := by
  rw [part_past (by rwa [le32_length]), le32_length]

theorem u16At_past16 (n : UInt16) (past : 2 ≤ i) : u16At (le16 n ++ back) i = u16At back (i - 2) := by
  rw [u16At, part_past16 n past, u16At]

theorem u16At_past32 (n : UInt32) (past : 4 ≤ i) : u16At (le32 n ++ back) i = u16At back (i - 4) := by
  rw [u16At, part_past32 n past, u16At]

theorem u32At_past16 (n : UInt16) (past : 2 ≤ i) : u32At (le16 n ++ back) i = u32At back (i - 2) := by
  rw [u32At, part_past16 n past, u32At]

theorem u32At_past32 (n : UInt32) (past : 4 ≤ i) : u32At (le32 n ++ back) i = u32At back (i - 4) := by
  rw [u32At, part_past32 n past, u32At]

theorem i32At_past (n : Int32) (past : 4 ≤ i) : i32At (lei32 n ++ back) i = i32At back (i - 4) := by
  rw [i32At, lei32, u32At_past32 _ past, i32At]

theorem le16_u16At (data : Bytes) (i : Nat) (next : j = i + 2) (inside : j ≤ data.length) :
    le16 (u16At data i) ++ data.drop j = data.drop i := by
  subst next
  have length := part_length inside
  have bound := ofLe_lt (part data i 2)
  rw [length] at bound
  have back : toLe 2 (ofLe (part data i 2)) = part data i 2 := by
    have same := toLe_ofLe (part data i 2)
    rwa [length] at same
  rw [le16, u16At, UInt16.toNat_ofNat_of_lt' bound, back, part, ← List.drop_drop, List.take_append_drop]

theorem le32_u32At (data : Bytes) (i : Nat) (next : j = i + 4) (inside : j ≤ data.length) :
    le32 (u32At data i) ++ data.drop j = data.drop i := by
  subst next
  have length := part_length inside
  have bound := ofLe_lt (part data i 4)
  rw [length] at bound
  have back : toLe 4 (ofLe (part data i 4)) = part data i 4 := by
    have same := toLe_ofLe (part data i 4)
    rwa [length] at same
  rw [le32, u32At, UInt32.toNat_ofNat_of_lt' bound, back, part, ← List.drop_drop, List.take_append_drop]

theorem lei32_i32At (data : Bytes) (i : Nat) (next : j = i + 4) (inside : j ≤ data.length) :
    lei32 (i32At data i) ++ data.drop j = data.drop i := by
  have same : (i32At data i).toUInt32 = u32At data i := UInt32.toUInt32_toInt32 _
  rw [lei32, same, le32_u32At data i next inside]

end Numbers

/-- What the method for an event appends. -/
def StreamEvent.bytes (e : StreamEvent) : Bytes := (Encoder.push {} e).events

theorem push_events (enc : Encoder) (e : StreamEvent) : (enc.push e).events = enc.events ++ e.bytes := by
  cases e <;> rfl

theorem foldl_push (events : List StreamEvent) (enc : Encoder) :
    (events.foldl Encoder.push enc).events = enc.events ++ events.flatMap StreamEvent.bytes := by
  induction events generalizing enc with
  | nil => exact (List.append_nil _).symm
  | cons e es ih => rw [List.foldl_cons, ih, push_events, List.append_assoc, List.flatMap_cons]

theorem encode_eq (events : List StreamEvent) : encode events =
    le32 (UInt32.ofNat (events.flatMap StreamEvent.bytes).length) ++ events.flatMap StreamEvent.bytes := by
  rw [encode, Encoder.finish, foldl_push]
  rfl

/-- The length of the pixel data can be written in its four bytes. -/
def StreamEvent.Fits : StreamEvent → Prop
  | .poolData _ _ _ _ _ _ lz4Data => lz4Data.length < 2 ^ 32
  | _ => True

/-- The event that a text begins with, and what is left behind it. -/
def nextEvent : Bytes → Except String (StreamEvent × Bytes)
  | [] => .error ""
  | eventType :: data => (parseEvent eventType data).map fun read => (read.1, data.drop read.2)

theorem nextEvent_ok {eventType : UInt8} {data rest : Bytes} {e : StreamEvent} {consumed : Nat}
    (parsed : parseEvent eventType data = .ok (e, consumed)) (left : data.drop consumed = rest) :
    nextEvent (eventType :: data) = .ok (e, rest) := by
  rw [nextEvent, parsed]
  exact congrArg (fun rest => Except.ok (e, rest)) left

theorem parsePoolData_bytes (poolId : UInt32) (width height : UInt16) (stride format rawLen : UInt32) (lz4Data rest : Bytes)
    (fits : lz4Data.length < 2 ^ 32) :
    parsePoolData (le32 poolId ++ (le16 width ++ (le16 height ++ (le32 stride ++ (le32 format ++ (le32 rawLen ++
      (le32 (UInt32.ofNat lz4Data.length) ++ (lz4Data ++ rest)))))))) =
      .ok (.poolData poolId width height stride format rawLen lz4Data, 24 + lz4Data.length) := by
  have size : (UInt32.ofNat lz4Data.length).toNat = lz4Data.length := UInt32.toNat_ofNat_of_lt' fits
  rw [parsePoolData, if_neg (by simp only [List.length_append, le32_length, le16_length]; omega)]
  simp (disch := decide) only [u32At_here, u16At_here, u32At_past32, u32At_past16, u16At_past32, u16At_past16,
    part_past32, part_past16, Nat.reduceSub]
  rw [size, if_neg (by simp only [List.length_append, le32_length, le16_length]; omega), part_here rfl]

theorem parseSurfaceCommit_bytes (surfaceId poolId offset : UInt32) (bufWidth bufHeight : UInt16) (bufStride format : UInt32)
    (damageX damageY damageW damageH : UInt16) (rest : Bytes) :
    parseSurfaceCommit (le32 surfaceId ++ (le32 poolId ++ (le32 offset ++ (le16 bufWidth ++ (le16 bufHeight ++
      (le32 bufStride ++ (le32 format ++ (le16 damageX ++ (le16 damageY ++ (le16 damageW ++ (le16 damageH ++ rest))))))))))) =
      .ok (.surfaceCommit surfaceId poolId offset bufWidth bufHeight bufStride format damageX damageY damageW damageH, 32) := by
  rw [parseSurfaceCommit, if_neg (by simp only [List.length_append, le32_length, le16_length]; omega)]
  simp (disch := decide) only [u32At_here, u16At_here, u32At_past32, u32At_past16, u16At_past32, u16At_past16, Nat.reduceSub]

/-- An event that is written is read back, with what was behind it left. -/
theorem nextEvent_bytes (e : StreamEvent) (rest : Bytes) (fits : e.Fits) : nextEvent (e.bytes ++ rest) = .ok (e, rest) := by
  cases e with
  | surfaceCreate surfaceId =>
    have parsed : parseSurfaceCreate (le32 surfaceId ++ rest) = .ok (.surfaceCreate surfaceId, 4) := by
      rw [parseSurfaceCreate, if_neg (by simp only [List.length_append, le32_length]; omega), u32At_here]
    exact nextEvent_ok parsed (List.drop_left' (le32_length surfaceId))
  | surfaceDestroy surfaceId =>
    have parsed : parseSurfaceDestroy (le32 surfaceId ++ rest) = .ok (.surfaceDestroy surfaceId, 4) := by
      rw [parseSurfaceDestroy, if_neg (by simp only [List.length_append, le32_length]; omega), u32At_here]
    exact nextEvent_ok parsed (List.drop_left' (le32_length surfaceId))
  | poolData poolId width height stride format rawLen lz4Data =>
    have parsed := parsePoolData_bytes poolId width height stride format rawLen lz4Data rest fits
    simp only [← List.append_assoc _ _ rest] at parsed
    refine nextEvent_ok parsed (List.drop_left' ?_)
    simp only [List.length_append, le32_length, le16_length]
    omega
  | surfaceCommit surfaceId poolId offset bufWidth bufHeight bufStride format damageX damageY damageW damageH =>
    have parsed := parseSurfaceCommit_bytes surfaceId poolId offset bufWidth bufHeight bufStride format damageX damageY
      damageW damageH rest
    simp only [← List.append_assoc _ _ rest] at parsed
    refine nextEvent_ok parsed (List.drop_left' ?_)
    simp only [List.length_append, le32_length, le16_length]
  | cursorMove x y =>
    have parsed : parseCursorMove (lei32 x ++ lei32 y ++ rest) = .ok (.cursorMove x y, 8) := by
      rw [parseCursorMove, if_neg (by simp only [List.length_append, lei32_length]; omega), List.append_assoc]
      simp (disch := decide) only [i32At_here, i32At_past, Nat.reduceSub]
    refine nextEvent_ok parsed (List.drop_left' ?_)
    simp only [List.length_append, lei32_length]

section Parsed
variable {data : Bytes} {e : StreamEvent} {consumed : Nat}

theorem parseSurfaceCreate_ok (parsed : parseSurfaceCreate data = .ok (e, consumed)) :
    e.Fits ∧ evSurfaceCreate :: data = e.bytes ++ data.drop consumed := by
  rw [parseSurfaceCreate] at parsed
  split at parsed
  · cases parsed
  · cases parsed
    refine ⟨trivial, ?_⟩
    change _ = evSurfaceCreate :: (le32 (u32At data 0) ++ data.drop 4)
    rw [le32_u32At data 0 rfl (by omega), List.drop_zero]

theorem parseSurfaceDestroy_ok (parsed : parseSurfaceDestroy data = .ok (e, consumed)) :
    e.Fits ∧ evSurfaceDestroy :: data = e.bytes ++ data.drop consumed := by
  rw [parseSurfaceDestroy] at parsed
  split at parsed
  · cases parsed
  · cases parsed
    refine ⟨trivial, ?_⟩
    change _ = evSurfaceDestroy :: (le32 (u32At data 0) ++ data.drop 4)
    rw [le32_u32At data 0 rfl (by omega), List.drop_zero]

theorem parsePoolData_ok (parsed : parsePoolData data = .ok (e, consumed)) :
    e.Fits ∧ evPoolData :: data = e.bytes ++ data.drop consumed := by
  rw [parsePoolData] at parsed
  split at parsed
  · cases parsed
  · dsimp only at parsed
    split at parsed
    · cases parsed
    · cases parsed
      have small : (u32At data 20).toNat < 2 ^ 32 := (u32At data 20).toNat_lt
      have length : (part data 24 (u32At data 20).toNat).length = (u32At data 20).toNat := part_length (by omega)
      refine ⟨by rw [StreamEvent.Fits, length]; exact small, ?_⟩
      change _ = evPoolData :: ((le32 (u32At data 0) ++ (le16 (u16At data 4) ++ (le16 (u16At data 6) ++ (le32 (u32At data 8) ++
        (le32 (u32At data 12) ++ (le32 (u32At data 16) ++ (le32 (UInt32.ofNat (part data 24 (u32At data 20).toNat).length) ++
          part data 24 (u32At data 20).toNat))))))) ++ data.drop (24 + (u32At data 20).toNat))
      have pixels : part data 24 (u32At data 20).toNat ++ data.drop (24 + (u32At data 20).toNat) = data.drop 24 := by
        rw [part, ← List.drop_drop, List.take_append_drop]
      rw [length, UInt32.ofNat_toNat]
      simp only [List.append_assoc]
      rw [pixels, le32_u32At data 20 rfl (by omega), le32_u32At data 16 rfl (by omega), le32_u32At data 12 rfl (by omega),
        le32_u32At data 8 rfl (by omega), le16_u16At data 6 rfl (by omega), le16_u16At data 4 rfl (by omega),
        le32_u32At data 0 rfl (by omega), List.drop_zero]

theorem parseSurfaceCommit_ok (parsed : parseSurfaceCommit data = .ok (e, consumed)) :
    e.Fits ∧ evSurfaceCommit :: data = e.bytes ++ data.drop consumed := by
  rw [parseSurfaceCommit] at parsed
  split at parsed
  · cases parsed
  · cases parsed
    refine ⟨trivial, ?_⟩
    change _ = evSurfaceCommit :: ((le32 (u32At data 0) ++ (le32 (u32At data 4) ++ (le32 (u32At data 8) ++
      (le16 (u16At data 12) ++ (le16 (u16At data 14) ++ (le32 (u32At data 16) ++ (le32 (u32At data 20) ++
        (le16 (u16At data 24) ++ (le16 (u16At data 26) ++ (le16 (u16At data 28) ++ le16 (u16At data 30))))))))))) ++
          data.drop 32)
    simp only [List.append_assoc]
    rw [le16_u16At data 30 rfl (by omega), le16_u16At data 28 rfl (by omega), le16_u16At data 26 rfl (by omega),
      le16_u16At data 24 rfl (by omega), le32_u32At data 20 rfl (by omega), le32_u32At data 16 rfl (by omega),
      le16_u16At data 14 rfl (by omega), le16_u16At data 12 rfl (by omega), le32_u32At data 8 rfl (by omega),
      le32_u32At data 4 rfl (by omega), le32_u32At data 0 rfl (by omega), List.drop_zero]

theorem parseCursorMove_ok (parsed : parseCursorMove data = .ok (e, consumed)) :
    e.Fits ∧ evCursorMove :: data = e.bytes ++ data.drop consumed := by
  rw [parseCursorMove] at parsed
  split at parsed
  · cases parsed
  · cases parsed
    refine ⟨trivial, ?_⟩
    change _ = evCursorMove :: ((lei32 (i32At data 0) ++ lei32 (i32At data 4)) ++ data.drop 8)
    rw [List.append_assoc, lei32_i32At data 4 rfl (by omega), lei32_i32At data 0 rfl (by omega), List.drop_zero]

theorem parseEvent_ok {eventType : UInt8} (parsed : parseEvent eventType data = .ok (e, consumed)) :
    e.Fits ∧ eventType :: data = e.bytes ++ data.drop consumed := by
  rw [parseEvent] at parsed
  split at parsed
  · subst eventType
    exact parseSurfaceCreate_ok parsed
  split at parsed
  · subst eventType
    exact parseSurfaceDestroy_ok parsed
  split at parsed
  · subst eventType
    exact parsePoolData_ok parsed
  split at parsed
  · subst eventType
    exact parseSurfaceCommit_ok parsed
  split at parsed
  · subst eventType
    exact parseCursorMove_ok parsed
  · cases parsed

end Parsed

/-- What is read is what has been written, with the rest behind it. -/
theorem bytes_nextEvent (text : Bytes) (e : StreamEvent) (rest : Bytes) (read : nextEvent text = .ok (e, rest)) :
    e.Fits ∧ text = e.bytes ++ rest := by
  cases text with
  | nil => cases read
  | cons eventType data =>
    rw [nextEvent] at read
    cases parsed : parseEvent eventType data with
    | error err =>
      rw [parsed] at read
      cases read
    | ok found =>
      rw [parsed] at read
      cases read
      exact parseEvent_ok parsed

/-- The wire format as a code. -/
def wireFormat : Code UInt8 StreamEvent String where
  write := StreamEvent.bytes
  next := nextEvent
  Fits := StreamEvent.Fits
  next_write := nextEvent_bytes
  write_next := bytes_nextEvent
  filled e := by cases e <;> exact List.cons_ne_nil _ _

theorem parseLoop_eq (n : Nat) (data : Bytes) : parseLoop n data = readAll wireFormat n data := by
  induction n generalizing data with
  | zero => rfl
  | succ n ih =>
    cases data with
    | nil => rfl
    | cons eventType data =>
      have next : wireFormat.next (eventType :: data) =
          (parseEvent eventType data).map fun read => (read.1, data.drop read.2) := rfl
      rw [parseLoop, readAll, next]
      cases parsed : parseEvent eventType data with
      | error err => rfl
      | ok found => exact congrArg (List.cons _) (ih _)

/-- What a payload says: the events that its region begins with, and an error where bytes are left that begin none. -/
theorem parseEvents_reads (data : Bytes) (sized : 4 ≤ data.length) : ∃ events tail,
    Reads wireFormat (region data) events tail ∧ parseEvents data = events.map .ok ++ ending wireFormat tail := by
  rw [parseEvents, if_neg (Nat.not_lt.mpr sized), parseLoop_eq]
  exact readAll_reads wireFormat (Nat.le_refl _)

theorem region_framed {text rest : Bytes} (small : text.length < 2 ^ 32) :
    region (le32 (UInt32.ofNat text.length) ++ (text ++ rest)) = text := by
  have size : (UInt32.ofNat text.length).toNat = text.length := UInt32.toNat_ofNat_of_lt' small
  rw [region, u32At_here, size]
  have stop : min (4 + text.length) (le32 (UInt32.ofNat text.length) ++ (text ++ rest)).length = 4 + text.length := by
    rw [List.length_append, List.length_append, le32_length]
    omega
  rw [stop, List.drop_take, Nat.add_sub_cancel_left, List.drop_left' (le32_length _), List.take_left]

theorem region_length (data : Bytes) : (region data).length < 2 ^ 32 := by
  have small := (u32At data 0).toNat_lt
  rw [region, List.length_drop, List.length_take]
  omega

theorem bytes_length_le {events : List StreamEvent} {e : StreamEvent} (member : e ∈ events) :
    e.bytes.length ≤ (events.flatMap StreamEvent.bytes).length := by
  obtain ⟨front, back, rfl⟩ := List.append_of_mem member
  simp only [List.flatMap_append, List.flatMap_cons, List.length_append]
  omega

theorem fits_of_small {events : List StreamEvent} (small : (events.flatMap StreamEvent.bytes).length < 2 ^ 32) :
    ∀ e ∈ events, e.Fits := by
  intro e member
  have bound := Nat.lt_of_le_of_lt (bytes_length_le member) small
  cases e with
  | poolData poolId width height stride format rawLen lz4Data =>
    refine Nat.lt_of_le_of_lt ?_ bound
    change _ ≤ (evPoolData :: (le32 poolId ++ (le16 width ++ (le16 height ++ (le32 stride ++ (le32 format ++ (le32 rawLen ++
      (le32 (UInt32.ofNat lz4Data.length) ++ lz4Data)))))))).length
    simp only [List.length_cons, List.length_append]
    omega
  | _ => trivial

theorem ending_errors (tail : Bytes) : ∀ x ∈ ending wireFormat tail, ∃ err, x = .error err := by
  intro x member
  unfold ending at member
  split at member
  · cases member
  · split at member
    · cases member
    · exact ⟨_, List.mem_singleton.mp member⟩

theorem encode_length (events : List StreamEvent) : 4 ≤ (encode events).length := by
  rw [encode_eq, List.length_append, le32_length]
  exact Nat.le_add_right 4 _

theorem parseEvents_encode {events : List StreamEvent} (small : (events.flatMap StreamEvent.bytes).length < 2 ^ 32)
    (rest : Bytes) : parseEvents (encode events ++ rest) = events.map .ok := by
  have sized : 4 ≤ (encode events ++ rest).length := by
    have length := encode_length events
    rw [List.length_append]
    omega
  obtain ⟨events', tail, reads, parsed⟩ := parseEvents_reads _ sized
  have whole : Reads wireFormat (events.flatMap StreamEvent.bytes ++ []) events [] :=
    .written (fits_of_small small) (.inl rfl)
  rw [encode_eq, List.append_assoc, region_framed small] at reads
  rw [List.append_nil] at whole
  obtain ⟨rfl, rfl⟩ := reads.unique whole
  rw [parsed]
  exact List.append_nil _

/-- What is encoded is decoded, whatever follows it in the buffer, if and only if its size can be
written in the four bytes there are for it. -/
theorem parseEvents_encode_iff (events : List StreamEvent) (rest : Bytes) :
    parseEvents (encode events ++ rest) = events.map .ok ↔ (events.flatMap StreamEvent.bytes).length < 2 ^ 32 := by
  refine ⟨fun same => ?_, fun small => parseEvents_encode small rest⟩
  have sized : 4 ≤ (encode events ++ rest).length := by
    have length := encode_length events
    rw [List.length_append]
    omega
  obtain ⟨events', tail, reads, parsed⟩ := parseEvents_reads _ sized
  rw [parsed] at same
  have none : ∀ x ∈ ([] : List (Except String StreamEvent)), ∃ err, x = .error err := fun x member => nomatch member
  obtain ⟨rfl, -⟩ := oks_inj (ending_errors tail) none (same.trans (List.append_nil _).symm)
  have bound := region_length (encode events' ++ rest)
  have split : region (encode events' ++ rest) = events'.flatMap StreamEvent.bytes ++ tail := reads.split.1
  rw [split, List.length_append] at bound
  omega

theorem bytes_type (e : StreamEvent) : ∃ eventType rest, e.bytes = eventType :: rest ∧ 0x01 ≤ eventType ∧ eventType ≤ 0x05 := by
  cases e with
  | _ => exact ⟨_, _, rfl, by decide, by decide⟩

/-- What is encoded is taken for a payload, whatever follows it in the buffer, if and only if the size
that is written of it is not zero. -/
theorem isV1Protocol_encode_iff (events : List StreamEvent) (rest : Bytes) :
    isV1Protocol (encode events ++ rest) = true ↔ (events.flatMap StreamEvent.bytes).length % 2 ^ 32 ≠ 0 := by
  have length := le32_length (UInt32.ofNat (events.flatMap StreamEvent.bytes).length)
  have size : (UInt32.ofNat (events.flatMap StreamEvent.bytes).length).toNat =
      (events.flatMap StreamEvent.bytes).length % 2 ^ 32 := UInt32.toNat_ofNat'
  have whole := Nat.mod_le (events.flatMap StreamEvent.bytes).length (2 ^ 32)
  rw [isV1Protocol, encode_eq, List.append_assoc, u32At_here, size, List.length_append, length, List.length_append]
  cases events with
  | nil => simp
  | cons e es =>
    obtain ⟨eventType, after, first, low, high⟩ := bytes_type e
    have lead : (le32 (UInt32.ofNat ((e :: es).flatMap StreamEvent.bytes).length) ++
        ((e :: es).flatMap StreamEvent.bytes ++ rest)).getD 4 0 = eventType := by
      rw [List.getD_eq_getElem?_getD, List.getElem?_append_right (by omega), length, List.flatMap_cons, first]
      rfl
    have filled : 1 ≤ ((e :: es).flatMap StreamEvent.bytes).length := by
      rw [List.flatMap_cons, first, List.cons_append, List.length_cons]
      omega
    rw [lead, if_neg (by omega)]
    simp only [Bool.and_eq_true, decide_eq_true_eq, low, high, and_true]
    omega

theorem region_short {data : Bytes} (short : data.length < 4) : region data = [] := by
  apply List.drop_eq_nil_of_le
  rw [List.length_take]
  omega

/-- A payload is taken apart into as many whole events as it begins with, and there is one error,
at the end, if and only if bytes are left. -/
theorem parseEvents_longest (data : Bytes) : ∃ events tail,
    (∀ events', events' <+: events ↔ ∃ back, region data = events'.flatMap StreamEvent.bytes ++ back) ∧
    region data = events.flatMap StreamEvent.bytes ++ tail ∧
    (tail = [] ∧ parseEvents data = events.map .ok ∨
      tail ≠ [] ∧ ∃ err, parseEvents data = events.map .ok ++ [.error err]) := by
  have found : ∃ events tail, Reads wireFormat (region data) events tail ∧
      parseEvents data = events.map .ok ++ ending wireFormat tail := by
    by_cases short : data.length < 4
    · refine ⟨[], [], ?_, if_pos short⟩
      rw [region_short short]
      exact .stop (.inl rfl)
    · exact parseEvents_reads data (Nat.le_of_not_lt short)
  obtain ⟨events, tail, reads, parsed⟩ := found
  have split : region data = events.flatMap StreamEvent.bytes ++ tail := reads.split.1
  refine ⟨events, tail, ?_, split, ?_⟩
  · intro events'
    constructor
    · rintro ⟨later, rfl⟩
      rw [List.flatMap_append, List.append_assoc] at split
      exact ⟨_, split⟩
    · rintro ⟨back, whole⟩
      have small := region_length data
      rw [whole, List.length_append] at small
      exact reads.longest (fits_of_small (by omega)) whole
  · rcases ending_stopped reads.stopped with ⟨none, empty⟩ | ⟨left, err, -, one⟩
    · rw [none, List.append_nil] at parsed
      exact .inl ⟨empty, parsed⟩
    · rw [one] at parsed
      exact .inr ⟨left, err, parsed⟩

theorem region_take {text : Bytes} {k : Nat} (small : text.length < 2 ^ 32) (sized : 4 ≤ k) :
    region ((le32 (UInt32.ofNat text.length) ++ text).take k) = text.take (k - 4) := by
  have size : (UInt32.ofNat text.length).toNat = text.length := UInt32.toNat_ofNat_of_lt' small
  rw [List.take_append, le32_length, List.take_of_length_le (by rwa [le32_length]), region, u32At_here, size,
    List.take_of_length_le (by simp only [List.length_append, le32_length, List.length_take]; omega),
    List.drop_left' (le32_length _)]

end Bsdos.Wlstream
