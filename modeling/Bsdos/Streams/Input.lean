import Bsdos.Effects.Replay
import Bsdos.Framing
import Bsdos.Streams.Forwarder

namespace Bsdos.Streams
open Effects Framing

def formatKeyboardPayload (zh : Payload) : Option Payload :=
  if zh.length < 5 then none
  else some (0x00 :: (zh.take 4 ++ [zh.getD 4 0, if 5 < zh.length then zh.getD 5 0 else 0]))

def formatPointerPayload (zh : Payload) : Option Payload :=
  if zh.length < 17 then none else some (0x01 :: zh.take 17)

/-- What the `select!` of a connection takes up; a subscriber may fail. -/
inductive Ready
  | keyboard (sample : Option Payload)
  | pointer (sample : Option Payload)
  | readable
  deriving DecidableEq

inductive TryRead
  | eof
  | wouldBlock
  | error
  | bytes (count : Nat)
  deriving DecidableEq

/-- What the handler asks of the session and of the socket of the tunnel. -/
inductive InputOp
  | declareSubscriber (topic : String)
  | pathExists (path : String)
  | connect (path : String)
  | sleep (ms : Nat)
  | select
  | writeAll (buf : Payload)
  | tryRead
  deriving DecidableEq

/-- A write that fails has written some bytes before. -/
def InputOp.Ret : InputOp → Type
  | .declareSubscriber _ | .connect _ => Except String Unit
  | .pathExists _ => Bool
  | .sleep _ => Unit
  | .select => Ready
  | .writeAll _ => Except Nat Unit
  | .tryRead => TryRead

abbrev Inputs : Signature := ⟨InputOp, InputOp.Ret⟩

def input (op : InputOp) : Prog Inputs op.Ret := Prog.perform (E := Inputs) op

/-- One sample; the answer is whether the connection is broken. -/
def forwardSample (format : Payload → Option Payload) (sample : Option Payload) : Prog Inputs Bool :=
  match sample.bind format with
  | some buf => do
    let written : Except Nat Unit ← input (.writeAll buf)
    match written with
    | .ok _ => return false
    | .error _ => return true
  | none => return false

/-- Detects the end of the connection. -/
def checkEof : Prog Inputs Bool := do
  let read : TryRead ← input .tryRead
  match read with
  | .eof | .error => return true
  | .wouldBlock | .bytes _ => return false

/-- What is done with what is ready. -/
def handleReady : Ready → Prog Inputs Bool
  | .keyboard sample => forwardSample formatKeyboardPayload sample
  | .pointer sample => forwardSample formatPointerPayload sample
  | .readable => checkEof

/-- The loop of one connection, until it breaks; it is given how often it selects. -/
def inputEvents : Nat → Prog Inputs Bool
  | 0 => return false
  | events + 1 => do
    let ready : Ready ← input .select
    if ← handleReady ready then return true else inputEvents events

/-- The reconnect loop; each round is given how often its connection selects. -/
def inputConnections (inputSock : String) : List Nat → Prog Inputs Unit
  | [] => return
  | events :: rounds => do
    let there : Bool ← input (.pathExists inputSock)
    if there then
      let connected : Except String Unit ← input (.connect inputSock)
      match connected with
      | .ok _ =>
        if ← inputEvents events then inputConnections inputSock rounds
      | .error _ =>
        let _ : Unit ← input (.sleep 1000)
        inputConnections inputSock rounds
    else
      let _ : Unit ← input (.sleep 1000)
      inputConnections inputSock rounds

def streamInputHandler (appId rundir : String) (rounds : List Nat) : Prog Inputs Unit := do
  let kbSub : Except String Unit ← input (.declareSubscriber ("bsdos/app/" ++ appId ++ "/input/keyboard"))
  match kbSub with
  | .error _ => return
  | .ok _ =>
    let ptrSub : Except String Unit ← input (.declareSubscriber ("bsdos/app/" ++ appId ++ "/input/pointer"))
    match ptrSub with
    | .error _ => return
    | .ok _ => inputConnections (rundir ++ "/input.sock") rounds

/-! The frames of the tunnel. -/

inductive InputFrame
  | keyboard (keyCode : Payload) (action modifiers : UInt8)
  | pointer (sample : Payload)
  deriving DecidableEq

def InputFrame.bytes : InputFrame → Payload
  | .keyboard keyCode action modifiers => 0x00 :: (keyCode ++ [action, modifiers])
  | .pointer sample => 0x01 :: sample

def InputFrame.Fits : InputFrame → Prop
  | .keyboard keyCode _ _ => keyCode.length = 4
  | .pointer sample => sample.length = 17

/-- The frame that a stream of bytes begins with: its first byte says how long it is. -/
def nextFrame : Payload → Except Unit (InputFrame × Payload)
  | [] => .error ()
  | kind :: rest =>
    if kind = 0x00 then
      if rest.length < 6 then .error ()
      else .ok (.keyboard (rest.take 4) (rest.getD 4 0) (rest.getD 5 0), rest.drop 6)
    else if kind = 0x01 then
      if rest.length < 17 then .error () else .ok (.pointer (rest.take 17), rest.drop 17)
    else .error ()

theorem nextFrame_bytes (frame : InputFrame) (rest : Payload) (fits : frame.Fits) :
    nextFrame (frame.bytes ++ rest) = .ok (frame, rest) := by
  cases frame with
  | keyboard keyCode action modifiers =>
    have four : keyCode.length = 4 := fits
    have whole : (InputFrame.keyboard keyCode action modifiers).bytes ++ rest =
        0x00 :: (keyCode ++ action :: modifiers :: rest) := by
      rw [InputFrame.bytes, List.cons_append, List.append_assoc]
      rfl
    rw [whole, nextFrame, if_pos rfl, if_neg (by simp only [List.length_append, List.length_cons]; omega)]
    match keyCode, four with
    | [a, b, c, d], _ => rfl
  | pointer sample =>
    have long : sample.length = 17 := fits
    have whole : (InputFrame.pointer sample).bytes ++ rest = 0x01 :: (sample ++ rest) := rfl
    rw [whole, nextFrame, if_neg (by decide), if_pos rfl, if_neg (by rw [List.length_append]; omega),
      List.take_left' long, List.drop_left' long]

theorem six_le {bytes : Payload} (enough : 6 ≤ bytes.length) : ∃ a b c d e f rest, bytes = a :: b :: c :: d :: e :: f :: rest := by
  obtain ⟨front, middle, rest, three, three', rfl⟩ :
      ∃ front middle rest, front.length = 3 ∧ middle.length = 3 ∧ bytes = front ++ (middle ++ rest) := by
    refine ⟨bytes.take 3, (bytes.drop 3).take 3, (bytes.drop 3).drop 3, ?_, ?_, ?_⟩
    · rw [List.length_take]
      omega
    · rw [List.length_take, List.length_drop]
      omega
    · rw [List.take_append_drop, List.take_append_drop]
  obtain ⟨a, b, c, rfl⟩ := List.length_eq_three.mp three
  obtain ⟨d, e, f, rfl⟩ := List.length_eq_three.mp three'
  exact ⟨a, b, c, d, e, f, rest, rfl⟩

theorem bytes_nextFrame (text : Payload) (frame : InputFrame) (rest : Payload) (read : nextFrame text = .ok (frame, rest)) :
    frame.Fits ∧ text = frame.bytes ++ rest := by
  cases text with
  | nil => cases read
  | cons kind body =>
    rw [nextFrame] at read
    split at read
    · rename_i key
      subst key
      split at read
      · cases read
      · rename_i enough
        cases read
        obtain ⟨a, b, c, d, e, f, after, rfl⟩ := six_le (Nat.le_of_not_lt enough)
        exact ⟨rfl, rfl⟩
    · split at read
      · rename_i pointer
        subst pointer
        split at read
        · cases read
        · rename_i enough
          cases read
          refine ⟨?_, ?_⟩
          · rw [InputFrame.Fits, List.length_take]
            omega
          · rw [InputFrame.bytes, List.cons_append, List.take_append_drop]
      · cases read

/-- The frames as a code. -/
def inputFormat : Code UInt8 InputFrame Unit where
  write := InputFrame.bytes
  next := nextFrame
  Fits := InputFrame.Fits
  next_write := nextFrame_bytes
  write_next := bytes_nextFrame
  filled frame := by cases frame <;> exact List.cons_ne_nil _ _

/-- The frame of a sample, if it is long enough to be one. -/
def Ready.frame : Ready → Option InputFrame
  | .keyboard (some zh) => if zh.length < 5 then none else some (.keyboard (zh.take 4) (zh.getD 4 0) (zh.getD 5 0))
  | .pointer (some zh) => if zh.length < 17 then none else some (.pointer (zh.take 17))
  | _ => none

theorem Ready.frame_fits {ready : Ready} {frame : InputFrame} (made : ready.frame = some frame) : frame.Fits := by
  unfold Ready.frame at made
  split at made
  · split at made
    · cases made
    · cases made
      rw [InputFrame.Fits, List.length_take]
      omega
  · split at made
    · cases made
    · cases made
      rw [InputFrame.Fits, List.length_take]
      omega
  · cases made

/-- What is done with what is ready: its frame is written, if it has one. -/
theorem handleReady_cases (ready : Ready) :
    (∃ frame, ready.frame = some frame ∧ handleReady ready = .call (.writeAll frame.bytes) fun written : Except Nat Unit =>
      .ret (match written with | .ok _ => false | .error _ => true)) ∨
    ready.frame = none ∧ (handleReady ready = .ret false ∨ handleReady ready = checkEof) := by
  cases ready with
  | keyboard sample =>
    cases sample with
    | none => exact .inr ⟨rfl, .inl rfl⟩
    | some zh =>
      rw [Ready.frame, handleReady, forwardSample, Option.bind_some, formatKeyboardPayload]
      by_cases short : zh.length < 5
      · rw [if_pos short, if_pos short]
        exact .inr ⟨rfl, .inl rfl⟩
      · rw [if_neg short, if_neg short]
        refine .inl ⟨_, rfl, ?_⟩
        have last : (if 5 < zh.length then zh.getD 5 0 else 0) = zh.getD 5 0 := by
          by_cases longer : 5 < zh.length
          · exact if_pos longer
          · rw [if_neg longer, List.getD_eq_getElem?_getD, List.getElem?_eq_none (Nat.le_of_not_lt longer), Option.getD_none]
        dsimp only
        rw [last]
        refine congrArg (Prog.call (E := Inputs) _) (funext fun written : Except Nat Unit => ?_)
        cases written <;> rfl
  | pointer sample =>
    cases sample with
    | none => exact .inr ⟨rfl, .inl rfl⟩
    | some zh =>
      rw [Ready.frame, handleReady, forwardSample, Option.bind_some, formatPointerPayload]
      by_cases short : zh.length < 17
      · rw [if_pos short, if_pos short]
        exact .inr ⟨rfl, .inl rfl⟩
      · rw [if_neg short, if_neg short]
        refine .inl ⟨_, rfl, ?_⟩
        refine congrArg (Prog.call (E := Inputs) _) (funext fun written : Except Nat Unit => ?_)
        cases written <;> rfl
  | readable => exact .inr ⟨rfl, .inr rfl⟩

/-! The connections. -/

/-- The bytes that the tunnel has got on each connection there has been, the newest first. -/
def tunnel : System Inputs Unit (List Payload) where
  Request := Empty
  Env := Empty
  may _ links op r :=
    match op, r with
    | .writeAll buf, .error count => !links.isEmpty && decide ((count : Nat) < buf.length)
    | .writeAll _, .ok _ | .select, _ => !links.isEmpty
    | _, _ => true
  effect _ links op r :=
    match op, r, links with
    | .connect _, .ok _, links => [] :: links
    | .writeAll buf, .ok _, link :: links => (link ++ buf) :: links
    | .writeAll buf, .error count, link :: links => (link ++ buf.take count) :: links
    | _, _, links => links
  serve _ request := nomatch request
  droppable _ _ := false
  surroundings _ change := nomatch change

/-- The frame of the sample that is taken up, where one is. -/
def sampled (m : Moment Inputs (List Payload)) : Option InputFrame :=
  match m.op, m.result with
  | .select, ready => Ready.frame ready
  | _, _ => none

/-- What goes through a connection: whole frames, and of the last one maybe not all, where it breaks. -/
inductive Carried : List InputFrame → Payload → Prop
  | whole (frames : List InputFrame) : Carried frames (frames.flatMap InputFrame.bytes)
  | broken (frames : List InputFrame) (lost : InputFrame) {count : Nat} (short : count < lost.bytes.length) :
      Carried (frames ++ [lost]) (frames.flatMap InputFrame.bytes ++ lost.bytes.take count)

theorem Carried.after {frames : List InputFrame} {bytes : Payload} (sent : Carried frames bytes) (frame : InputFrame) :
    Carried (frame :: frames) (frame.bytes ++ bytes) := by
  cases sent with
  | whole => exact .whole (frame :: frames)
  | broken frames lost short =>
    rw [← List.append_assoc]
    exact .broken (frame :: frames) lost short

/-- No frame begins in the bytes of a part of one. -/
theorem nextFrame_short {frame : InputFrame} (fits : frame.Fits) {count : Nat} (short : count < frame.bytes.length) :
    nextFrame (frame.bytes.take count) = .error () := by
  cases read : nextFrame (frame.bytes.take count) with
  | error => rfl
  | ok out =>
    obtain ⟨first, rest⟩ := out
    obtain ⟨fits', whole⟩ := bytes_nextFrame _ _ _ read
    have again := nextFrame_bytes first (rest ++ List.drop count frame.bytes) fits'
    rw [← List.append_assoc, ← whole, List.take_append_drop] at again
    have same := nextFrame_bytes frame [] fits
    rw [List.append_nil, again] at same
    obtain ⟨-, ended⟩ := Prod.mk.inj (Except.ok.inj same)
    have left : (List.drop count frame.bytes).length = 0 := by
      rw [(List.append_eq_nil_iff.mp ended).2, List.length_nil]
    rw [List.length_drop] at left
    omega

/-- The tunnel reads the frames back, but maybe the one that the connection broke at. -/
theorem Carried.reads {frames : List InputFrame} {bytes : Payload} (sent : Carried frames bytes)
    (fits : ∀ frame ∈ frames, frame.Fits) : ∃ read tail, Reads inputFormat bytes read tail ∧
      (read = frames ∧ tail = [] ∨ ∃ lost, frames = read ++ [lost]) := by
  cases sent with
  | whole =>
    refine ⟨frames, [], ?_, .inl ⟨rfl, rfl⟩⟩
    have read : Reads inputFormat (frames.flatMap InputFrame.bytes ++ []) frames [] := Reads.written fits (.inl rfl)
    rwa [List.append_nil] at read
  | broken frames lost short =>
    have last : lost.Fits := fits lost (List.mem_append_right _ (List.mem_singleton_self lost))
    exact ⟨frames, _, Reads.written (fun frame member => fits frame (List.mem_append_left _ member))
      (.inr ⟨(), nextFrame_short last short⟩), .inr ⟨lost, rfl⟩⟩

theorem all_read {batches : List (List InputFrame)} {sent : List Payload} (all : List.Forall₂ Carried batches sent)
    (fits : ∀ batch ∈ batches, ∀ frame ∈ batch, frame.Fits) :
    List.Forall₂ (fun frames bytes => ∃ read tail, Reads inputFormat bytes read tail ∧
      (read = frames ∧ tail = [] ∨ ∃ lost, frames = read ++ [lost])) batches sent := by
  induction all with
  | nil => exact .nil
  | cons one _ ih =>
    exact .cons (one.reads (fits _ List.mem_cons_self)) (ih fun batch member => fits batch (List.mem_cons_of_mem _ member))

section Runs
variable {link : Payload} {links links' : List Payload} {moments : List (Moment Inputs (List Payload))}

theorem checkEof_exec {broken : Bool} (exec : Exec tunnel () checkEof links moments broken links') :
    links' = links ∧ moments.filterMap sampled = [] := by
  obtain ⟨r, rest, -, rfl, exec⟩ := exec
  cases (r : TryRead) <;> obtain ⟨rfl, -, rfl⟩ := exec <;> exact ⟨rfl, rfl⟩

/-- What is done with what is ready sends its frame, whole where the connection does not break. -/
theorem handleReady_exec {ready : Ready} {broken : Bool}
    (exec : Exec tunnel () (handleReady ready) (link :: links) moments broken links') :
    moments.filterMap sampled = [] ∧ ∃ bytes, links' = (link ++ bytes) :: links ∧ Carried ready.frame.toList bytes ∧
      (broken = false → bytes = ready.frame.toList.flatMap InputFrame.bytes) := by
  rcases handleReady_cases ready with ⟨frame, made, program⟩ | ⟨unmade, program | program⟩
  · rw [program] at exec
    obtain ⟨r, rest, may, rfl, rfl, rfl, rfl⟩ := exec
    rw [made, Option.toList_some]
    refine ⟨rfl, ?_⟩
    rcases (r : Except Nat Unit) with count | done
    · have short : count < frame.bytes.length := by
        simpa only [tunnel, List.isEmpty_cons, Bool.not_false, Bool.true_and, decide_eq_true_eq] using may
      exact ⟨frame.bytes.take count, rfl, .broken [] frame short, fun sound => nomatch sound⟩
    · have one : frame.bytes = [frame].flatMap InputFrame.bytes := (List.flatMap_singleton _ _).symm
      refine ⟨frame.bytes, rfl, ?_, fun _ => one⟩
      rw [one]
      exact .whole [frame]
  · rw [program] at exec
    obtain ⟨rfl, -, rfl⟩ := exec
    rw [unmade]
    exact ⟨rfl, [], by rw [List.append_nil], .whole [], fun _ => rfl⟩
  · rw [program] at exec
    obtain ⟨rfl, none⟩ := checkEof_exec exec
    rw [unmade]
    exact ⟨none, [], by rw [List.append_nil], .whole [], fun _ => rfl⟩

theorem inputEvents_succ (events : Nat) : inputEvents (events + 1) = .call .select fun ready : Ready =>
    handleReady ready >>= fun broken => if broken then pure true else inputEvents events := rfl

/-- One connection, while it lasts. -/
theorem inputEvents_exec {events : Nat} {broken : Bool}
    (exec : Exec tunnel () (inputEvents events) (link :: links) moments broken links') :
    ∃ bytes, links' = (link ++ bytes) :: links ∧ Carried (moments.filterMap sampled) bytes := by
  induction events generalizing link moments with
  | zero =>
    obtain ⟨rfl, -, rfl⟩ := exec
    exact ⟨[], by rw [List.append_nil], .whole []⟩
  | succ events ih =>
    rw [inputEvents_succ] at exec
    obtain ⟨ready, later, -, rfl, exec⟩ := exec
    obtain ⟨first, gone, u, rest, front, back, rfl⟩ := exec_bind.mp exec
    obtain ⟨none, bytes, rfl, sent, whole⟩ := handleReady_exec front
    have frames : (⟨link :: links, .select, ready⟩ :: (first ++ rest) : List (Moment Inputs (List Payload))).filterMap sampled =
        (Ready.frame ready).toList ++ rest.filterMap sampled := by
      rw [List.filterMap_cons, List.filterMap_append, none, List.nil_append]
      cases made : Ready.frame ready <;> simp only [sampled, made] <;> rfl
    rw [frames]
    cases gone with
    | true =>
      obtain ⟨rfl, -, rfl⟩ := back
      exact ⟨bytes, rfl, by rwa [List.filterMap_nil, List.append_nil]⟩
    | false =>
      obtain ⟨more, rfl, later⟩ := ih back
      rw [whole rfl]
      refine ⟨_, by rw [List.append_assoc], ?_⟩
      cases Ready.frame ready with
      | none => exact later
      | some frame =>
        rw [Option.toList_some, List.flatMap_singleton]
        exact later.after frame

theorem inputConnections_cons (inputSock : String) (events : Nat) (rounds : List Nat) :
    inputConnections inputSock (events :: rounds) = .call (.pathExists inputSock) fun there : Bool =>
      if there then
        .call (.connect inputSock) fun connected : Except String Unit =>
          match connected with
          | .ok _ => inputEvents events >>= fun broken => if broken then inputConnections inputSock rounds else pure ()
          | .error _ => .call (.sleep 1000) fun _ => inputConnections inputSock rounds
      else .call (.sleep 1000) fun _ => inputConnections inputSock rounds := by
  rw [inputConnections]
  refine congrArg (Prog.call (E := Inputs) _) (funext fun there : Bool => ?_)
  cases there with
  | false => rfl
  | true =>
    refine congrArg (Prog.call (E := Inputs) _) (funext fun connected : Except String Unit => ?_)
    cases connected <;> rfl

/-- All connections: the frames taken up go to one after another. -/
theorem inputConnections_exec {inputSock : String} {rounds : List Nat}
    (exec : Exec tunnel () (inputConnections inputSock rounds) links moments () links') :
    ∃ batches sent, links' = sent.reverse ++ links ∧ batches.flatten = moments.filterMap sampled ∧ List.Forall₂ Carried batches sent := by
  induction rounds generalizing links moments with
  | nil =>
    obtain ⟨rfl, -, rfl⟩ := exec
    exact ⟨[], [], rfl, rfl, .nil⟩
  | cons events rounds ih =>
    rw [inputConnections_cons] at exec
    obtain ⟨there, later, -, rfl, exec⟩ := exec
    cases (there : Bool) with
    | false =>
      obtain ⟨_, later, -, rfl, exec⟩ := exec
      have onward := ih exec
      exact onward
    | true =>
      obtain ⟨connected, later, -, rfl, exec⟩ := exec
      rcases (connected : Except String Unit) with failed | done
      · obtain ⟨_, later, -, rfl, exec⟩ := exec
        have onward := ih exec
        exact onward
      · obtain ⟨first, broken, u, rest, front, back, rfl⟩ := exec_bind.mp exec
        obtain ⟨bytes, rfl, one⟩ := inputEvents_exec front
        cases broken with
        | false =>
          obtain ⟨rfl, -, rfl⟩ := back
          refine ⟨[first.filterMap sampled], [bytes], rfl, ?_, .cons one .nil⟩
          rw [List.flatten_singleton, List.append_nil]
          rfl
        | true =>
          obtain ⟨batches, sent, rfl, frames, all⟩ := ih back
          refine ⟨first.filterMap sampled :: batches, bytes :: sent, ?_, ?_, .cons one all⟩
          · rw [List.reverse_cons, List.append_assoc]
            rfl
          · rw [List.flatten_cons, frames, ← List.filterMap_append]
            rfl

theorem sampled_fits {m : Moment Inputs (List Payload)} {frame : InputFrame} (made : sampled m = some frame) : frame.Fits := by
  unfold sampled at made
  split at made
  · exact Ready.frame_fits made
  · cases made

theorem streamInputHandler_exec {appId rundir : String} {rounds : List Nat}
    (exec : Exec tunnel () (streamInputHandler appId rundir rounds) [] moments () links) :
    ∃ batches sent, links = sent.reverse ∧ batches.flatten = moments.filterMap sampled ∧ List.Forall₂ Carried batches sent := by
  obtain ⟨kbSub, later, -, rfl, exec⟩ := exec
  rcases (kbSub : Except String Unit) with failed | done
  · obtain ⟨rfl, -, rfl⟩ := exec
    exact ⟨[], [], rfl, rfl, .nil⟩
  · obtain ⟨ptrSub, later, -, rfl, exec⟩ := exec
    rcases (ptrSub : Except String Unit) with failed | done
    · obtain ⟨rfl, -, rfl⟩ := exec
      exact ⟨[], [], rfl, rfl, .nil⟩
    · obtain ⟨batches, sent, whole, frames, all⟩ := inputConnections_exec exec
      exact ⟨batches, sent, whole.trans (List.append_nil _), frames, all⟩

end Runs

end Bsdos.Streams
