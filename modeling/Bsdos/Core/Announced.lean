import Mathlib.Data.List.Basic
import Bsdos.Core.Zenoh
import Bsdos.Effects.Results

namespace Bsdos.Core

/-- A text that stands for itself between the quotes of a JSON5 string. -/
def Literal (text : String) : Prop := ∀ c ∈ text.toList, c ∉ ['"', '\\', '\n', '\r']

instance (text : String) : Decidable (Literal text) := List.decidableBAll _ _

/-- The session gets what is announced: one endpoint, with the transport before its first
slash and the address after it, and the announced scouting and timeout. -/
structure Announced (cfg : Config) (built : BuiltConfig) : Prop where
  endpoint : ∃ ep, built.config.lookup "listen/endpoints" = some ("[" ++ quoted ep ++ "]") ∧ Literal ep ∧
    Text.splitn 2 '/' ep = [cfg.zenoh.transport, cfg.address]
  scouting : built.config.lookup "scouting/multicast/enabled" = some (if cfg.zenoh.multicast then "true" else "false")
  timeout : built.openTimeout = cfg.zenoh.openTimeoutSecs

section load
variable {parseF32 : String → Option Float32} {file : Except String Document} {getenv : Env}

/-- The configuration before the environment: that of the file, or the defaults. -/
def written (file : Except String Document) : Config := file.toOption.elim .default Document.config

theorem overriding_keeps {α : Type} (f : Config → α) {v : Option String} {apply : String → Config → Config} {cfg : Config}
    (keeps : ∀ v, f (apply v cfg) = f cfg) : f (overriding v apply cfg) = f cfg := by
  cases v with
  | none => rfl
  | some v => exact keeps v

theorem overriding_flag {v : Option String} {transport : String} {cfg : Config} :
    (overriding v (fun v cfg => if v = "1" then { cfg with zenoh.transport := transport } else cfg) cfg).zenoh =
      { cfg.zenoh with transport := if v = some "1" then transport else cfg.zenoh.transport } := by
  cases v with
  | none => rfl
  | some v =>
    by_cases one : v = "1"
    · subst one
      rfl
    · simp only [overriding, if_neg one, Option.some.injEq]

theorem getD_keeps {α : Type} {r : Option α} {set : α → Config} {cfg : Config} (keeps : ∀ x, (set x).zenoh = cfg.zenoh) :
    ((r.map set).getD cfg).zenoh = cfg.zenoh := by
  cases r with
  | none => rfl
  | some x => exact keeps x

theorem load_zenoh : (load parseF32 file getenv).zenoh =
    { transport := if getenv "ZENOH_TLS" = some "1" then "tls" else if getenv "ZENOH_OBFS" = some "1" then "obfs"
        else (written file).zenoh.transport,
      listenIp := (getenv "ZENOH_LISTEN_IP").getD (written file).zenoh.listenIp,
      listenPort := (getenv "ZENOH_LISTEN_PORT").getD (written file).zenoh.listenPort,
      obfsPsk := (getenv "BSDOS_OBFS_PSK").getD (written file).zenoh.obfsPsk,
      multicast := ((getenv "BSDOS_ZENOH_SCOUTING").map fun v => decide (v = "1")).getD (written file).zenoh.multicast,
      openTimeoutSecs := (written file).zenoh.openTimeoutSecs } := by
  dsimp only [load, applyEnvOverrides]
  refine (overriding_keeps Config.zenoh fun v => ?scale).trans ?_
  case scale => exact getD_keeps fun _ => rfl
  refine (overriding_keeps Config.zenoh fun v => ?height).trans ?_
  case height => exact getD_keeps fun _ => rfl
  refine (overriding_keeps Config.zenoh fun v => ?width).trans ?_
  case width => exact getD_keeps fun _ => rfl
  refine (overriding_keeps Config.zenoh fun v => ?autostart).trans ?_
  case autostart => split <;> rfl
  have scouting (v : Option String) (cfg : Config) :
      (overriding v (fun v cfg => { cfg with zenoh.multicast := decide (v = "1") }) cfg).zenoh =
        { cfg.zenoh with multicast := (v.map fun v => decide (v = "1")).getD cfg.zenoh.multicast } := by
    cases v <;> rfl
  have psk (v : Option String) (cfg : Config) : (overriding v (fun v cfg => { cfg with zenoh.obfsPsk := v }) cfg).zenoh =
      { cfg.zenoh with obfsPsk := v.getD cfg.zenoh.obfsPsk } := by
    cases v <;> rfl
  have port (v : Option String) (cfg : Config) :
      (overriding v (fun v cfg => { cfg with zenoh.listenPort := v }) cfg).zenoh =
        { cfg.zenoh with listenPort := v.getD cfg.zenoh.listenPort } := by
    cases v <;> rfl
  have ip (v : Option String) (cfg : Config) : (overriding v (fun v cfg => { cfg with zenoh.listenIp := v }) cfg).zenoh =
      { cfg.zenoh with listenIp := v.getD cfg.zenoh.listenIp } := by
    cases v <;> rfl
  rw [scouting, psk, port, ip, overriding_flag, overriding_flag]
  rfl

end load

section build
variable {zenoh : Zenoh} {getenv : Env} {cfg cfg' : Settings} {built : BuiltConfig}

theorem insertJson5_ok {key value : String} {wrap : String → String} :
    zenoh.insertJson5 cfg key value wrap = .ok cfg' → cfg' = (key, value) :: cfg := by
  unfold Zenoh.insertJson5
  split
  · exact nofun
  · exact fun same => (Except.ok.inj same).symm

/-- The protocol that is served where the whole endpoint is not given. -/
def servedProtocol (getenv : Env) : String :=
  if getenv "ZENOH_OBFS" = some "1" then "obfs" else if (tlsCa getenv).isSome then "tls" else "tcp"

theorem chooseProtocol_ok {protocol : String} (ok : chooseProtocol zenoh getenv cfg = .ok (protocol, cfg')) :
    protocol = servedProtocol getenv := by
  unfold chooseProtocol at ok
  unfold servedProtocol
  split at ok
  · rename_i obfs
    rw [if_pos obfs]
    exact (congrArg Prod.fst (Except.ok.inj ok)).symm
  · rename_i plain
    rw [if_neg plain]
    split at ok
    · rename_i caPath ca
      obtain ⟨cfg'', -, rest⟩ := Results.bind_ok ok
      rw [ca]
      exact (congrArg Prod.fst (Except.ok.inj rest)).symm
    · rename_i ca
      rw [ca]
      exact (congrArg Prod.fst (Except.ok.inj ok)).symm

/-- What a session is built with: the later settings are under other keys. -/
theorem fromEnv_ok (unset : env getenv "ZENOH_CONFIG" = none) (ok : fromEnv zenoh getenv = .ok built) :
    built.config.lookup "listen/endpoints" =
        some ("[" ++ quoted (listenEndpoint getenv (servedProtocol getenv)) ++ "]") ∧
      built.config.lookup "scouting/multicast/enabled" =
        some (if getenv "BSDOS_ZENOH_SCOUTING" = some "1" then "true" else "false") ∧
      built.openTimeout = openTimeout getenv 10 := by
  unfold fromEnv at ok
  rw [unset] at ok
  obtain ⟨moded, -, ok⟩ := Results.bind_ok ok
  obtain ⟨⟨protocol, chosen⟩, served, ok⟩ := Results.bind_ok ok
  obtain ⟨listening, listen, ok⟩ := Results.bind_ok ok
  obtain ⟨scouted, scout, ok⟩ := Results.bind_ok ok
  cases chooseProtocol_ok served
  cases insertJson5_ok listen
  cases insertJson5_ok scout
  have scouting : (if decide (getenv "BSDOS_ZENOH_SCOUTING" = some "1") = true then "true" else "false") =
      if getenv "BSDOS_ZENOH_SCOUTING" = some "1" then "true" else "false" := by
    simp only [decide_eq_true_eq]
  rw [← scouting]
  dsimp only at ok
  have keys : ("listen/endpoints" == "scouting/multicast/enabled") = false ∧
      ("listen/endpoints" == "connect/endpoints") = false ∧
      ("scouting/multicast/enabled" == "connect/endpoints") = false := by decide
  split at ok
  · obtain ⟨peered, peer, ok⟩ := Results.bind_ok ok
    cases insertJson5_ok peer
    cases Except.ok.inj ok
    refine ⟨?_, ?_, rfl⟩
    · simp only [List.lookup_cons, keys.1, keys.2.1, beq_self_eq_true]
    · simp only [List.lookup_cons, keys.2.2, beq_self_eq_true]
  · cases Except.ok.inj ok
    refine ⟨?_, ?_, rfl⟩
    · simp only [List.lookup_cons, keys.1, beq_self_eq_true]
    · simp only [List.lookup_cons, beq_self_eq_true]

end build

section agreement
variable {getenv : Env} {toml : ZenohConfig}

/-- The transport that is announced, over one in a file. -/
def announcedTransport (getenv : Env) (transport : String) : String :=
  if getenv "ZENOH_TLS" = some "1" then "tls" else if getenv "ZENOH_OBFS" = some "1" then "obfs" else transport

def announcedAddress (getenv : Env) (ip port : String) : String :=
  let ip := (getenv "ZENOH_LISTEN_IP").getD ip
  (if ip.isEmpty then "0.0.0.0" else ip) ++ ":" ++ (getenv "ZENOH_LISTEN_PORT").getD port

/-- The settings of a file, or the defaults, under which the environment makes both readers agree.
A whole endpoint is to be the announced one; without it TLS is not asked for together with
obfuscation, and what the variables leave open is in the file as the session has it anyway. -/
structure Consistent (toml : ZenohConfig) (getenv : Env) : Prop where
  whole : ∀ ep, env getenv "ZENOH_LISTEN" = some ep → Literal ep ∧
    Text.splitn 2 '/' ep = [announcedTransport getenv toml.transport, announcedAddress getenv toml.listenIp toml.listenPort]
  exclusive : env getenv "ZENOH_LISTEN" = none → getenv "ZENOH_OBFS" = some "1" → getenv "ZENOH_TLS" ≠ some "1"
  transport : env getenv "ZENOH_LISTEN" = none → getenv "ZENOH_OBFS" ≠ some "1" → getenv "ZENOH_TLS" ≠ some "1" →
    toml.transport = if (env getenv "ZENOH_TLS_CA").isSome then "tls" else "tcp"
  ip : env getenv "ZENOH_LISTEN" = none → getenv "ZENOH_LISTEN_IP" = none → toml.listenIp = "" ∨ toml.listenIp = "0.0.0.0"
  port : env getenv "ZENOH_LISTEN" = none → getenv "ZENOH_LISTEN_PORT" = none → toml.listenPort = "7447"
  nonempty : env getenv "ZENOH_LISTEN" = none → getenv "ZENOH_LISTEN_PORT" ≠ some ""
  literal : env getenv "ZENOH_LISTEN" = none →
    ∀ name ∈ ["ZENOH_LISTEN_IP", "ZENOH_LISTEN_PORT"], ∀ text, getenv name = some text → Literal text
  scouting : getenv "BSDOS_ZENOH_SCOUTING" = none → toml.multicast = false
  timeout : (((env getenv "BSDOS_ZENOH_OPEN_TIMEOUT").bind (Text.parseBelow (2 ^ 64))).map UInt64.ofNat).getD 10 =
    toml.openTimeoutSecs

theorem env_none {name : String} (unset : getenv name = none) : env getenv name = none := by
  rw [env, unset]
  rfl

theorem env_empty {name : String} (empty : getenv name = some "") : env getenv name = none := by
  rw [env, empty]
  rfl

theorem env_some {name text : String} (set : getenv name = some text) (nonempty : text ≠ "") :
    env getenv name = some text := by
  rw [env, set, Option.filter_some, if_pos (by simpa using nonempty)]

theorem literal_append {a b : String} : Literal (a ++ b) ↔ Literal a ∧ Literal b := by
  simp only [Literal, String.toList_append, List.mem_append, or_imp, forall_and]

theorem address_inj {a p b q : String} (free : ':' ∉ a.toList) (free' : ':' ∉ p.toList) :
    a ++ ":" ++ p = b ++ ":" ++ q ↔ a = b ∧ p = q := by
  have colon : ":".toList = [':'] := by decide
  rw [← String.toList_inj]
  simp only [String.toList_append, colon, List.append_assoc, List.singleton_append]
  rw [List.append_cons_inj_of_notMem free free', String.toList_inj, String.toList_inj]
  simp only [true_and]

/-- The address served, where the whole endpoint is not given. -/
def servedAddress (getenv : Env) : String :=
  (env getenv "ZENOH_LISTEN_IP").getD "0.0.0.0" ++ ":" ++ (env getenv "ZENOH_LISTEN_PORT").getD "7447"

theorem announcedIp_eq {ip : String} : (if ip.isEmpty then "0.0.0.0" else ip) = "0.0.0.0" ↔ ip = "" ∨ ip = "0.0.0.0" := by
  by_cases empty : ip = ""
  · subst empty
    exact ⟨fun _ => .inl rfl, fun _ => rfl⟩
  · rw [if_neg (by simpa using empty)]
    simp only [empty, false_or]

/-- A variable for the IP that is set is read alike, empty or not. -/
theorem env_ip {v : String} (set : getenv "ZENOH_LISTEN_IP" = some v) :
    (env getenv "ZENOH_LISTEN_IP").getD "0.0.0.0" = if v.isEmpty then "0.0.0.0" else v := by
  by_cases empty : v = ""
  · subst empty
    rw [env_empty set]
    rfl
  · rw [env_some set empty, if_neg (by simpa using empty)]
    rfl

theorem servedAddress_eq {ip port : String} : servedAddress getenv = announcedAddress getenv ip port ↔
    (getenv "ZENOH_LISTEN_IP" = none → ip = "" ∨ ip = "0.0.0.0") ∧
      (getenv "ZENOH_LISTEN_PORT" = none → port = "7447") ∧ getenv "ZENOH_LISTEN_PORT" ≠ some "" := by
  have digits : ':' ∉ "0.0.0.0".toList ∧ ':' ∉ "7447".toList := by decide
  dsimp only [servedAddress, announcedAddress]
  cases ipSet : getenv "ZENOH_LISTEN_IP" with
  | some v =>
    rw [env_ip ipSet, Option.getD_some, String.append_right_inj]
    cases portSet : getenv "ZENOH_LISTEN_PORT" with
    | some w => by_cases empty : w = "" <;> simp_all [env_empty, env_some]
    | none => simp_all [env_none, eq_comm]
  | none =>
    rw [env_none ipSet]
    cases portSet : getenv "ZENOH_LISTEN_PORT" with
    | some w =>
      by_cases empty : w = ""
      · subst empty
        rw [env_empty portSet, Option.getD_none, Option.getD_none, address_inj digits.1 digits.2]
        simp
      · rw [env_some portSet empty]
        simp only [Option.getD_none, Option.getD_some, String.append_left_inj, eq_comm (a := "0.0.0.0"), announcedIp_eq]
        simp [empty]
    | none =>
      rw [env_none portSet]
      simp only [Option.getD_none]
      rw [address_inj digits.1 digits.2, eq_comm, announcedIp_eq]
      simp [eq_comm]

theorem servedProtocol_eq {transport : String} : servedProtocol getenv = announcedTransport getenv transport ↔
    (getenv "ZENOH_OBFS" = some "1" → getenv "ZENOH_TLS" ≠ some "1") ∧
      (getenv "ZENOH_OBFS" ≠ some "1" → getenv "ZENOH_TLS" ≠ some "1" →
        transport = if (env getenv "ZENOH_TLS_CA").isSome then "tls" else "tcp") := by
  have distinct : "obfs" ≠ "tls" := by decide
  unfold servedProtocol announcedTransport
  by_cases tls : getenv "ZENOH_TLS" = some "1" <;> by_cases obfs : getenv "ZENOH_OBFS" = some "1"
  · simp [tls, obfs]
  · simp [tls, obfs, tlsCa, tlsPath, legacyTls]
  · simp [tls, obfs]
  · have ca : (tlsCa getenv).isSome = (env getenv "ZENOH_TLS_CA").isSome := by
      simp only [tlsCa, tlsPath, legacyTls, tls, decide_false, Bool.false_eq_true, if_false, Option.or_none]
    rw [if_neg obfs, if_neg obfs, if_neg tls, ca]
    exact ⟨fun same => ⟨fun wanted => absurd wanted obfs, fun _ _ => same.symm⟩, fun ⟨_, plain⟩ => (plain obfs tls).symm⟩

variable {parseF32 : String → Option Float32} {file : Except String Document} {zenoh : Zenoh} {built : BuiltConfig}

/-- The endpoint put together is cut into the protocol and the address. -/
theorem listenEndpoint_split (absent : env getenv "ZENOH_LISTEN" = none) :
    Text.splitn 2 '/' (listenEndpoint getenv (servedProtocol getenv)) = [servedProtocol getenv, servedAddress getenv] := by
  have free : '/' ∉ (servedProtocol getenv).toList := by
    unfold servedProtocol
    split
    · decide
    · split <;> decide
  have slash : "/" = String.singleton '/' := by decide
  rw [← Text.splitn_pair free, ← slash, listenEndpoint, absent]
  simp only [Option.getD_none, servedAddress, String.append_assoc]

theorem literal_getD {name default : String} (plain : Literal default) :
    Literal ((env getenv name).getD default) ↔ ∀ text, getenv name = some text → Literal text := by
  cases set : getenv name with
  | none =>
    rw [env_none set]
    exact ⟨fun _ => nofun, fun _ => plain⟩
  | some text =>
    simp only [Option.some.injEq, forall_eq']
    by_cases empty : text = ""
    · subst empty
      rw [env_empty set]
      exact ⟨fun _ => by decide, fun _ => plain⟩
    · rw [env_some set empty]
      rfl

theorem listenEndpoint_literal (absent : env getenv "ZENOH_LISTEN" = none) :
    Literal (listenEndpoint getenv (servedProtocol getenv)) ↔
      ∀ name ∈ ["ZENOH_LISTEN_IP", "ZENOH_LISTEN_PORT"], ∀ text, getenv name = some text → Literal text := by
  have protocol : Literal (servedProtocol getenv) := by
    unfold servedProtocol
    split
    · decide
    · split <;> decide
  have constant : Literal "/" ∧ Literal ":" ∧ Literal "0.0.0.0" ∧ Literal "7447" := by decide
  rw [listenEndpoint, absent, Option.getD_none]
  simp only [literal_append, literal_getD constant.2.2.1, literal_getD constant.2.2.2, protocol, constant.1, constant.2.1,
    true_and, and_true, List.forall_mem_cons, List.not_mem_nil, false_imp_iff, forall_const]

theorem load_address : (load parseF32 file getenv).address =
    announcedAddress getenv (written file).zenoh.listenIp (written file).zenoh.listenPort := by
  rw [Config.address, load_zenoh]
  rfl

theorem load_transport : (load parseF32 file getenv).zenoh.transport =
    announcedTransport getenv (written file).zenoh.transport := by
  rw [load_zenoh]
  rfl

theorem scouting_eq {multicast : Bool} :
    (if getenv "BSDOS_ZENOH_SCOUTING" = some "1" then "true" else "false") =
        (if ((getenv "BSDOS_ZENOH_SCOUTING").map fun v => decide (v = "1")).getD multicast then "true" else "false") ↔
      (getenv "BSDOS_ZENOH_SCOUTING" = none → multicast = false) := by
  cases getenv "BSDOS_ZENOH_SCOUTING" with
  | none => cases multicast <;> decide
  | some v => simp only [Option.some.injEq, Option.map_some, Option.getD_some, decide_eq_true_eq, reduceCtorEq, false_imp_iff]

/-- The endpoint is the announced one. -/
theorem endpoint_eq {toml : ZenohConfig} :
    (Literal (listenEndpoint getenv (servedProtocol getenv)) ∧
      Text.splitn 2 '/' (listenEndpoint getenv (servedProtocol getenv)) =
        [announcedTransport getenv toml.transport, announcedAddress getenv toml.listenIp toml.listenPort]) ↔
    (∀ ep, env getenv "ZENOH_LISTEN" = some ep → Literal ep ∧ Text.splitn 2 '/' ep =
        [announcedTransport getenv toml.transport, announcedAddress getenv toml.listenIp toml.listenPort]) ∧
      (env getenv "ZENOH_LISTEN" = none →
        (∀ name ∈ ["ZENOH_LISTEN_IP", "ZENOH_LISTEN_PORT"], ∀ text, getenv name = some text → Literal text) ∧
        servedProtocol getenv = announcedTransport getenv toml.transport ∧
        servedAddress getenv = announcedAddress getenv toml.listenIp toml.listenPort) := by
  cases listen : env getenv "ZENOH_LISTEN" with
  | some ep =>
    have whole : listenEndpoint getenv (servedProtocol getenv) = ep := by rw [listenEndpoint, listen, Option.getD_some]
    rw [whole]
    simp only [Option.some.injEq, forall_eq', reduceCtorEq, false_imp_iff, and_true]
  | none =>
    rw [listenEndpoint_literal listen, listenEndpoint_split listen]
    simp only [reduceCtorEq, false_imp_iff, forall_const, true_and, List.cons.injEq, and_true]

/-- The announced configuration is the effective one just where the settings are consistent. -/
theorem announced_effective_iff (unset : env getenv "ZENOH_CONFIG" = none) (ok : fromEnv zenoh getenv = .ok built) :
    Announced (load parseF32 file getenv) built ↔ Consistent (written file).zenoh getenv := by
  obtain ⟨endpoint, scouting, timeout⟩ := fromEnv_ok unset ok
  have endpoint_iff : (∃ ep, built.config.lookup "listen/endpoints" = some ("[" ++ quoted ep ++ "]") ∧ Literal ep ∧
      Text.splitn 2 '/' ep = [(load parseF32 file getenv).zenoh.transport, (load parseF32 file getenv).address]) ↔ _ :=
    ⟨fun ⟨ep, found, rest⟩ => by
      rw [endpoint, Option.some.injEq, String.append_left_inj, String.append_right_inj, quoted, quoted,
        String.append_left_inj, String.append_right_inj] at found
      rw [← found] at rest
      rw [load_transport, load_address] at rest
      exact endpoint_eq.mp rest,
    fun agree => ⟨_, endpoint, by
      rw [load_transport, load_address]
      exact endpoint_eq.mpr agree⟩⟩
  have scouting_iff : (built.config.lookup "scouting/multicast/enabled" =
      some (if (load parseF32 file getenv).zenoh.multicast then "true" else "false")) ↔
      (getenv "BSDOS_ZENOH_SCOUTING" = none → (written file).zenoh.multicast = false) := by
    rw [scouting, Option.some.injEq, load_zenoh]
    exact scouting_eq
  have timeout_iff : built.openTimeout = (load parseF32 file getenv).zenoh.openTimeoutSecs ↔
      openTimeout getenv 10 = (written file).zenoh.openTimeoutSecs := by
    rw [timeout, load_zenoh]
  constructor
  · rintro ⟨listening, scouted, timed⟩
    obtain ⟨whole, parts⟩ := endpoint_iff.mp listening
    have protocol absent := servedProtocol_eq.mp (parts absent).2.1
    have address absent := servedAddress_eq.mp (parts absent).2.2
    exact {
      whole := whole
      exclusive := fun absent => (protocol absent).1
      transport := fun absent => (protocol absent).2
      ip := fun absent => (address absent).1
      port := fun absent => (address absent).2.1
      nonempty := fun absent => (address absent).2.2
      literal := fun absent => (parts absent).1
      scouting := scouting_iff.mp scouted
      timeout := timeout_iff.mp timed }
  · intro consistent
    refine ⟨endpoint_iff.mpr ⟨consistent.whole, fun absent => ⟨consistent.literal absent, ?_, ?_⟩⟩,
      scouting_iff.mpr consistent.scouting, timeout_iff.mpr consistent.timeout⟩
    · exact servedProtocol_eq.mpr ⟨consistent.exclusive absent, consistent.transport absent⟩
    · exact servedAddress_eq.mpr ⟨consistent.ip absent, consistent.port absent, consistent.nonempty absent⟩

end agreement

/-- A library that accepts every setting. -/
def accepting : Zenoh := ⟨fun _ => .error "No such file or directory", fun _ _ _ => none⟩

/-- TLS asked for in the environment, with a port and a timeout. -/
def tlsEnv : Env := fun name =>
  [("ZENOH_TLS", "1"), ("ZENOH_LISTEN_PORT", "8443"), ("BSDOS_ZENOH_OPEN_TIMEOUT", "20")].lookup name

/-- A file whose transport and port are overridden, and whose timeout is the same. -/
def tcpDocument : Document :=
  ⟨some { transport := some "tcp", listenIp := some "0.0.0.0", listenPort := some "7447", obfsPsk := some "secret"
          multicast := some false, openTimeoutSecs := some 20 }, some ["browser"], none⟩

theorem announced_effective_tls : ∃ built, fromEnv accepting tlsEnv = .ok built ∧
    built.config.lookup "listen/endpoints" = some "[\"tls/0.0.0.0:8443\"]" ∧
    Announced (load (fun _ => none) (.ok tcpDocument) tlsEnv) built := by
  have ok : fromEnv accepting tlsEnv = .ok ⟨[("scouting/multicast/enabled", "false"),
      ("listen/endpoints", "[\"tls/0.0.0.0:8443\"]"), ("transport/link/tls/verify_name_on_connect", "false"),
      ("transport/link/tls/enable_mtls", "true"), ("transport/link/tls/listen_private_key", "\"/etc/bsdos/server.key\""),
      ("transport/link/tls/listen_certificate", "\"/etc/bsdos/server.pem\""),
      ("transport/link/tls/root_ca_certificate", "\"/etc/bsdos/ca.pem\""), ("mode", "\"router\"")], 20⟩ := by decide +kernel
  have whole : env tlsEnv "ZENOH_LISTEN" = none := by decide
  have port : tlsEnv "ZENOH_LISTEN_PORT" = some "8443" := by decide
  have tls : tlsEnv "ZENOH_TLS" = some "1" := by decide
  refine ⟨_, ok, by decide, (announced_effective_iff (by decide) ok).mpr
    { whole := fun ep given => absurd (whole.symm.trans given) nofun
      exclusive := fun _ obfs => absurd obfs (by decide)
      transport := fun _ _ plain => absurd tls plain
      ip := fun _ _ => .inr rfl
      port := fun _ absent => absurd (port.symm.trans absent) nofun
      nonempty := fun _ => by decide
      literal := fun _ name member text given => ?_
      scouting := fun _ => rfl
      timeout := by decide +kernel }⟩
  rcases List.mem_cons.mp member with rfl | member
  · exact absurd given nofun
  · obtain rfl := List.mem_singleton.mp member
    cases port.symm.trans given
    decide

/-- With both flags set, TLS is announced and obfuscation served. -/
theorem tls_announced_obfs_served :
    let getenv : Env := fun name => if name ∈ ["ZENOH_OBFS", "ZENOH_TLS"] then some "1" else none
    let cfg := load (fun _ => none) (.error "not found") getenv
    env getenv "ZENOH_CONFIG" = none ∧ cfg.zenoh.transport = "tls" ∧ ∃ built, fromEnv accepting getenv = .ok built ∧
      built.config.lookup "listen/endpoints" = some "[\"obfs/0.0.0.0:7447\"]" ∧ ¬ Announced cfg built := by
  intro getenv cfg
  refine ⟨by decide, by rfl, ⟨[("scouting/multicast/enabled", "false"), ("listen/endpoints", "[\"obfs/0.0.0.0:7447\"]"),
    ("mode", "\"router\"")], 10⟩, by decide, by decide, ?_⟩
  rintro ⟨⟨ep, found, -, split⟩, -, -⟩
  have listed : "[\"obfs/0.0.0.0:7447\"]" = "[" ++ quoted "obfs/0.0.0.0:7447" ++ "]" := by decide
  have same : ep = "obfs/0.0.0.0:7447" := by
    have text := (Option.some.inj found).symm.trans listed
    rwa [String.append_left_inj, String.append_right_inj, quoted, quoted, String.append_left_inj,
      String.append_right_inj] at text
  subst same
  have pieces : Text.splitn 2 '/' "obfs/0.0.0.0:7447" = ["obfs", "0.0.0.0:7447"] := by decide +kernel
  have transport : "obfs" = "tls" := (List.cons.inj (pieces.symm.trans split)).1
  exact absurd transport (by decide)

end Bsdos.Core
