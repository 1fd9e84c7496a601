import Bsdos.Effects.Ensures
import Bsdos.Octets.Unicode
import Bsdos.Search.Substring
import Bsdos.Text

namespace Bsdos.Core.Hal
open Effects Octets

abbrev Bytes := List UInt8

/-- What a query asks of the system, on one connection. -/
inductive Op
  | connect (path : String)
  | setReadTimeout (secs : Nat)
  | setWriteTimeout (secs : Nat)
  | writeAll (bytes : Bytes)
  | read (count : Nat)
  deriving DecidableEq, Repr

def Op.Ret : Op → Type
  | .read _ => Except String Bytes
  | _ => Except String Unit

abbrev Client : Signature := ⟨Op, Op.Ret⟩

/-- Errors are boxed; what is left of them is their text. -/
abbrev Fallible := ExceptT String (Prog Client)

def call (op : Op) : Prog Client op.Ret := Prog.perform (E := Client) op

def request (cmd : String) : String := "\x7b\"cmd\":\"" ++ cmd ++ "\"\x7d"

/-- The value field of a response. Eight characters are skipped from where it begins. -/
def valueField (response : String) : Option String := do
  let start ← Search.find "\"value\":".toList response.toList
  let valueStart := start + 8
  let stop ← Search.find ['"'] (response.toList.drop valueStart)
  return String.ofList ((response.toList.drop valueStart).take stop)

def queryHal (socketPath cmd : String) : Fallible String := do
  let connected : Except String Unit ← call (.connect socketPath)
  liftM connected
  let set : Except String Unit ← call (.setReadTimeout 2)
  liftM set
  let set : Except String Unit ← call (.setWriteTimeout 2)
  liftM set
  let written : Except String Unit ← call (.writeAll (utf8 (request cmd).toList))
  liftM written
  let written : Except String Unit ← call (.writeAll (utf8 "\n".toList))
  liftM written
  let read : Except String Bytes ← call (.read 256)
  let buf ← liftM read
  match fromUtf8 buf with
  | none => throw "invalid utf-8 sequence"
  | some response =>
    match valueField response with
    | some value => return value
    | none => throw "Failed to parse HAL response"

/-- A number below a bound, or zero. -/
def numberOrZero (bound : Nat) : Except String String → Nat
  | .ok val => (Text.parseBelow bound val).getD 0
  | .error _ => 0

section numeric
variable (isNumeric : Char → Bool)

/-- The `pct` field of a value; `isNumeric` holds of the characters of the Unicode categories
Nd, Nl and No. -/
def pctField (val : String) : Nat :=
  match Search.find "\"pct\":".toList val.toList with
  | none => 0
  | some pctStart =>
    (Text.parseBelow (2 ^ 32) (String.ofList ((val.toList.drop (pctStart + 6)).takeWhile isNumeric))).getD 0

def pctOrZero : Except String String → Nat
  | .ok val => pctField isNumeric val
  | .error _ => 0

/-- Uptime, battery and processor, each of them zero where it cannot be told. -/
def fetchTelemetry (socketPath : String) : Prog Client (UInt64 × UInt32 × UInt32) := do
  let uptime ← (queryHal socketPath "get_uptime").run
  let battery ← (queryHal socketPath "get_battery").run
  let cpu ← (queryHal socketPath "get_cpu_usage").run
  return (UInt64.ofNat (numberOrZero (2 ^ 64) uptime), UInt32.ofNat (numberOrZero (2 ^ 32) battery),
    UInt32.ofNat (pctOrZero isNumeric cpu))

end numeric

/-- The daemons that listen, each by its answer to what it is sent on a connection, and the
connection at work with what has been sent on it. -/
structure Sockets where
  daemons : String → Option (Bytes → Bytes)
  peer : String
  sent : Bytes

/-- What comes back on the connection. -/
def Sockets.answer (w : Sockets) : Bytes := ((w.daemons w.peer).map fun daemon => daemon w.sent).getD []

/-- A daemon that listens takes what it is sent and answers it in one piece. -/
def Sockets.may (w : Sockets) : (op : Op) → op.Ret → Bool
  | .connect path, r => r.isOk = (w.daemons path).isSome
  | .read count, .ok bytes => bytes = w.answer.take count
  | .read _, .error _ => false
  | .setReadTimeout _, r | .setWriteTimeout _, r | .writeAll _, r => r.isOk

def Sockets.after (w : Sockets) : (op : Op) → op.Ret → Sockets
  | .connect path, _ => { w with peer := path, sent := [] }
  | .writeAll bytes, _ => { w with sent := w.sent ++ bytes }
  | _, _ => w

def hal : System Client Unit Sockets where
  Request := Empty
  Env := Empty
  may := fun _ => Sockets.may
  effect := fun _ => Sockets.after
  serve := fun _ request => nomatch request
  droppable := fun _ _ => false
  surroundings := fun _ change => nomatch change

theorem hal_answers (u : Sockets) (op : Op) : ∃ r, hal.may () u op r = true := by
  cases op with
  | connect path =>
    cases there : u.daemons path with
    | none => exact ⟨.error "", decide_eq_true (by rw [there]; rfl)⟩
    | some daemon => exact ⟨.ok (), decide_eq_true (by rw [there]; rfl)⟩
  | read count => exact ⟨.ok (u.answer.take count), decide_eq_true rfl⟩
  | setReadTimeout | setWriteTimeout | writeAll => exact ⟨.ok (), rfl⟩

def response (value : String) (newline : Bool) : String :=
  "\x7b\"ok\":true,\"value\":" ++ value ++ "\x7d" ++ if newline then "\n" else ""

theorem toList_behind (front value close stop : String) :
    (front ++ value ++ close ++ stop).toList = front.toList ++ (value ++ close ++ stop).toList := by
  simp only [String.toList_append, List.append_assoc]

/-- Whatever the value of a response is, it is read up to its first quotation mark. -/
theorem valueField_response (value : String) (newline : Bool) : valueField (response value newline) =
    (Search.find ['"'] (value ++ "\x7d" ++ if newline then "\n" else "").toList).map fun stop =>
      String.ofList ((value ++ "\x7d" ++ if newline then "\n" else "").toList.take stop) := by
  have front : (response value newline).toList = "\x7b\"ok\":true,\"value\":".toList ++
      (value ++ "\x7d" ++ if newline then "\n" else "").toList := toList_behind ..
  have here : Search.find "\"value\":".toList "\x7b\"ok\":true,\"value\":".toList = some 11 := by decide
  have inside : 11 + "\"value\":".toList.length ≤ "\x7b\"ok\":true,\"value\":".toList.length := by decide
  have found : Search.find "\"value\":".toList (response value newline).toList = some 11 := by
    rw [front]
    exact Search.find_append here inside _
  have dropped : (response value newline).toList.drop (11 + 8) =
      (value ++ "\x7d" ++ if newline then "\n" else "").toList := by
    rw [front]
    exact List.drop_left' (by decide)
  unfold valueField
  rw [found, Option.bind_eq_bind, Option.bind_some]
  dsimp only
  rw [dropped]
  cases Search.find ['"'] (value ++ "\x7d" ++ if newline then "\n" else "").toList <;> rfl

/-- A value in quotation marks is cut off at the first of them. -/
theorem valueField_quoted (text : String) (newline : Bool) :
    valueField (response ("\"" ++ text ++ "\"") newline) = some "" := by
  have here : Search.find ['"'] ("\"" ++ text ++ "\"" ++ "\x7d" ++ if newline then "\n" else "").toList = some 0 := by
    refine Search.find_here ?_
    simp only [String.toList_append, List.append_assoc]
    exact List.prefix_append ['"'] _
  rw [valueField_response, here, Option.map_some, List.take_zero]

theorem valueField_object (text : String) (newline : Bool) :
    valueField (response ("\x7b\"" ++ text) newline) = some "\x7b" := by
  have front : ("\x7b\"" ++ text ++ "\x7d" ++ if newline then "\n" else "").toList =
      "\x7b\"".toList ++ (text ++ "\x7d" ++ if newline then "\n" else "").toList := toList_behind ..
  have here : Search.find ['"'] "\x7b\"".toList = some 1 := by decide
  have inside : 1 + ['"'].length ≤ "\x7b\"".toList.length := by decide
  have next : Search.find ['"'] ("\x7b\"" ++ text ++ "\x7d" ++ if newline then "\n" else "").toList = some 1 := by
    rw [front]
    exact Search.find_append here inside _
  rw [valueField_response, next, Option.map_some, front]
  rfl

/-- A daemon at this path answers a command with this text, in one piece of 256 bytes at most. -/
structure Sockets.Answers (w : Sockets) (path cmd text : String) : Prop where
  listens : ∃ daemon, w.daemons path = some daemon ∧
    daemon (utf8 (request cmd).toList ++ utf8 "\n".toList) = utf8 text.toList
  short : (utf8 text.toList).length ≤ 256

section query
variable {w : Sockets} {path cmd text : String}

/-- A call that can get one answer only. -/
theorem ensures_only {α : Type} (op : Op) {next : op.Ret → Prog Client α} {post : α → Sockets → Prop} (v : op.Ret)
    (only : ∀ r, w.may op r = true → r = v) (rest : Ensures hal () (next v) (w.after op v) post) :
    Ensures hal () (.call op next) w post :=
  .call fun r may => by
    obtain rfl := only r may
    exact rest

theorem only_ok (r : Except String Unit) (done : r.isOk = true) : r = .ok () := by
  cases r with
  | error e => cases done
  | ok _ => rfl

/-- A query that is answered ends with what is cut out of the answer. -/
theorem queryHal_answered (answers : w.Answers path cmd text) : Ensures hal () (queryHal path cmd).run w fun r u =>
    r = (valueField text).elim (.error "Failed to parse HAL response") .ok ∧ u.daemons = w.daemons := by
  obtain ⟨daemon, there, answer⟩ := answers.listens
  have connects (r : Except String Unit) (may : w.may (.connect path) r = true) : r = .ok () := by
    have connected : r.isOk = (w.daemons path).isSome := of_decide_eq_true may
    rw [there] at connected
    exact only_ok r connected
  refine ensures_only (.connect path) (.ok ()) connects ?_
  refine ensures_only (.setReadTimeout 2) (.ok ()) only_ok ?_
  refine ensures_only (.setWriteTimeout 2) (.ok ()) only_ok ?_
  refine ensures_only (.writeAll _) (.ok ()) only_ok ?_
  refine ensures_only (.writeAll _) (.ok ()) only_ok ?_
  let u : Sockets := { w with peer := path, sent := [] ++ utf8 (request cmd).toList ++ utf8 "\n".toList }
  have answered : u.answer = utf8 text.toList := by
    unfold Sockets.answer
    rw [there, Option.map_some, Option.getD_some]
    exact answer
  have reads (r : Except String Bytes) (may : u.may (.read 256) r = true) : r = .ok (utf8 text.toList) := by
    cases r with
    | error e => cases may
    | ok bytes =>
      have same : bytes = u.answer.take 256 := of_decide_eq_true may
      rw [same, answered, List.take_of_length_le answers.short]
  refine ensures_only (w := u) (.read 256) (.ok (utf8 text.toList)) reads ?_
  refine Ensures.through (v := utf8 text.toList) (.ret ⟨rfl, rfl⟩) ?_
  rw [fromUtf8_utf8]
  dsimp only
  cases valueField text with
  | none =>
    refine Ensures.ret ?_
    exact ⟨rfl, rfl⟩
  | some value =>
    refine Ensures.ret ?_
    exact ⟨rfl, rfl⟩

end query

/-- The number that is written in these decimal digits. -/
def Numeral (text : String) (n : Nat) : Prop := text ≠ "" ∧ Text.digits 0 text.toList = some n

instance (text : String) (n : Nat) : Decidable (Numeral text n) := inferInstanceAs (Decidable (_ ∧ _))

def quoted (text : String) : String := "\"" ++ text ++ "\""

def pctObject (text : String) : String := "\x7b\"" ++ ("pct\":" ++ text ++ "\x7d")

/-- A daemon that reports these numbers as it is to report them. -/
structure Sockets.Reports (w : Sockets) (path : String) (uptime : UInt64) (battery cpu : UInt32) : Prop where
  uptimes : ∃ text newline, Numeral text uptime.toNat ∧ w.Answers path "get_uptime" (response (quoted text) newline)
  batteries : ∃ text newline, Numeral text battery.toNat ∧ w.Answers path "get_battery" (response (quoted text) newline)
  cpus : ∃ text newline, Numeral text cpu.toNat ∧ w.Answers path "get_cpu_usage" (response (pctObject text) newline)

section telemetry
variable {w : Sockets} {path : String} {uptime : UInt64} {battery cpu : UInt32} {isNumeric : Char → Bool}

/-- Whatever a daemon reports, it is taken for zeros. -/
theorem fetchTelemetry_zeros (reports : w.Reports path uptime battery cpu) :
    Ensures hal () (fetchTelemetry isNumeric path) w fun r _ => r = (0, 0, 0) := by
  obtain ⟨⟨n, newline, -, uptimes⟩, ⟨b, newline', -, batteries⟩, ⟨c, newline'', -, cpus⟩⟩ := reports
  have kept {w' : Sockets} (same : w'.daemons = w.daemons) {cmd text : String} (answers : w.Answers path cmd text) :
      w'.Answers path cmd text := ⟨by rw [same]; exact answers.listens, answers.short⟩
  refine (queryHal_answered uptimes).bind fun r w₁ first => ?_
  refine (queryHal_answered (kept first.2 batteries)).bind fun r' w₂ second => ?_
  refine (queryHal_answered (kept (second.2.trans first.2) cpus)).bind fun r'' w₃ third => ?_
  obtain ⟨rfl, -⟩ := first
  obtain ⟨rfl, -⟩ := second
  obtain ⟨rfl, -⟩ := third
  refine .ret ?_
  have none : numberOrZero (2 ^ 64) (.ok "") = 0 ∧ numberOrZero (2 ^ 32) (.ok "") = 0 := by decide +kernel
  have nothing : pctOrZero isNumeric (.ok "\x7b") = 0 := by
    have absent : Search.find "\"pct\":".toList "\x7b".toList = Option.none := by decide
    simp only [pctOrZero, pctField, absent]
  rw [quoted, quoted, pctObject, valueField_quoted, valueField_quoted, valueField_object]
  simp only [Option.elim_some, none.1, none.2, nothing]
  rfl

/-- What a daemon reports is passed on exactly if all of it is zero. -/
theorem fetchTelemetry_reports_iff (reports : w.Reports path uptime battery cpu) :
    (Ensures hal () (fetchTelemetry isNumeric path) w fun r _ => r = (uptime, battery, cpu)) ∧
      (Can hal () (fetchTelemetry isNumeric path) w fun r _ => r = (uptime, battery, cpu)) ↔
    uptime = 0 ∧ battery = 0 ∧ cpu = 0 := by
  have zeros := @fetchTelemetry_zeros _ _ _ _ _ isNumeric reports
  constructor
  · rintro ⟨-, moments, r, u, exec, rfl⟩
    have same := zeros moments _ u exec
    exact ⟨congrArg Prod.fst same, congrArg (fun r => r.2.1) same, congrArg (fun r => r.2.2) same⟩
  · rintro ⟨rfl, rfl, rfl⟩
    exact ⟨zeros, zeros.can hal_answers⟩

end telemetry

/-- A daemon that gives these answers to the three commands. -/
def sysDaemon (uptime battery cpu : String) (sent : Bytes) : Bytes :=
  if sent = utf8 (request "get_uptime").toList ++ utf8 "\n".toList then utf8 (response (quoted uptime) true).toList
  else if sent = utf8 (request "get_battery").toList ++ utf8 "\n".toList then utf8 (response (quoted battery) true).toList
  else if sent = utf8 (request "get_cpu_usage").toList ++ utf8 "\n".toList then utf8 (response (pctObject cpu) true).toList
  else []

def sysSockets (uptime battery cpu : String) : Sockets :=
  ⟨fun path => if path = "/var/run/sys-daemon.sock" then some (sysDaemon uptime battery cpu) else none, "", []⟩

theorem idle_reports : (sysSockets "0" "0" "0").Reports "/var/run/sys-daemon.sock" 0 0 0 := by
  refine ⟨⟨"0", true, by decide, ⟨_, rfl, ?_⟩, ?_⟩, ⟨"0", true, by decide, ⟨_, rfl, ?_⟩, ?_⟩,
    ⟨"0", true, by decide, ⟨_, rfl, ?_⟩, ?_⟩⟩
  all_goals decide

theorem fetchTelemetry_reports_idle :
    (Ensures hal () (fetchTelemetry Char.isDigit "/var/run/sys-daemon.sock") (sysSockets "0" "0" "0")
        fun r _ => r = (0, 0, 0)) ∧
      (Can hal () (fetchTelemetry Char.isDigit "/var/run/sys-daemon.sock") (sysSockets "0" "0" "0")
        fun r _ => r = (0, 0, 0)) ↔
    (0 : UInt64) = 0 ∧ (0 : UInt32) = 0 ∧ (0 : UInt32) = 0 :=
  fetchTelemetry_reports_iff idle_reports

/-- An hour of uptime is taken for none. -/
theorem uptime_lost : (sysSockets "3600" "80" "12").Reports "/var/run/sys-daemon.sock" 3600 80 12 ∧
    ¬ Ensures hal () (fetchTelemetry Char.isDigit "/var/run/sys-daemon.sock") (sysSockets "3600" "80" "12")
      fun r _ => r = (3600, 80, 12) := by
  have reports : (sysSockets "3600" "80" "12").Reports "/var/run/sys-daemon.sock" 3600 80 12 := by
    refine ⟨⟨"3600", true, by decide, ⟨_, rfl, ?_⟩, ?_⟩, ⟨"80", true, by decide, ⟨_, rfl, ?_⟩, ?_⟩,
      ⟨"12", true, by decide, ⟨_, rfl, ?_⟩, ?_⟩⟩
    all_goals decide
  refine ⟨reports, fun wrong => ?_⟩
  have zeros := @fetchTelemetry_zeros _ _ _ _ _ Char.isDigit reports
  obtain ⟨moments, r, u, exec, rfl⟩ := zeros.can hal_answers
  have same : ((0, 0, 0) : UInt64 × UInt32 × UInt32) = (3600, 80, 12) := wrong moments _ u exec
  exact absurd same (by decide)

end Bsdos.Core.Hal
