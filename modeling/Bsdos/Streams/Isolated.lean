import Bsdos.Streams.Stopped
import Bsdos.Text

namespace Bsdos.Streams
open Effects

/-- A live process: the child of the daemon it descends from, if any, whether it is that
child itself, the user it runs as and its command line. -/
structure Proc where
  pid : Nat
  root : Option Child
  leader : Bool
  user : String
  line : String
  deriving DecidableEq

/-- A process of an instance is one of its three children, or descends from one. -/
def Proc.Of (p : Proc) (inst : StreamInstance) : Prop := ∃ child ∈ inst.children, p.root = some child

instance (p : Proc) (inst : StreamInstance) : Decidable (p.Of inst) :=
  inferInstanceAs (Decidable (∃ child ∈ inst.children, p.root = some child))

/-- The regular expression `chrome.*bsdos-chrome` matches in the text. -/
def chromeLine (line : String) : Bool :=
  line.toList.tails.any fun rest =>
    "chrome".toList.isPrefixOf rest && decide ("bsdos-chrome".toList <:+: rest.drop 6)

/-- The processes that `pkill` and `pgrep` pick out for a user. -/
def Proc.picked (user : String) (p : Proc) : Bool := p.user = user && chromeLine p.line

def pickArgs (user : String) : List String := ["-U", user, "-f", "chrome.*bsdos-chrome"]

/-- The processes that a `pkill` or `pgrep` with these arguments is about. -/
def reached (args : List String) (p : Proc) : Bool :=
  match args with
  | ["-U", user, "-f", "chrome.*bsdos-chrome"] => p.picked user
  | _ => false

@[simp] theorem reached_pickArgs (user : String) (p : Proc) : reached (pickArgs user) p = p.picked user := rfl

theorem reached_args (user : String) (p : Proc) : reached ["-U", user, "-f", "chrome.*bsdos-chrome"] p = p.picked user := rfl

/-- The processes that a call sends a signal to. -/
def signalled (table : List Proc) : (op : Op) → op.Ret → List Proc
  | .kill child, .ok () => table.filter fun p => p.leader && p.root = some child
  | .status program args, .ok _ => if program = "pkill" then table.filter (reached args) else []
  | _, _ => []

/-- What `pgrep` answers: 0 where it has found a process, 1 where there is none. -/
def tells (table : List Proc) : (op : Op) → op.Ret → Bool
  | .status program args, .ok code =>
    if program = "pgrep" ∧ code = some 0 then table.any (reached args)
    else if program = "pgrep" ∧ code = some 1 then !table.any (reached args) else true
  | _, _ => true

/-- The daemon on a host with a process table: what is signalled is gone. -/
def hosted : System Host Actor (World × List Proc) where
  Request := Request
  Env := Change
  may a w op r := w.1.may a op r && tells w.2 op r
  effect a w op r := (w.1.after a op r, w.2.filter fun p => !(signalled w.2 op r).contains p)
  serve := serve
  droppable := droppable
  surroundings w change := (w.1.change change).map fun u => (u, w.2)

/-- A stop of the stream signals its own processes only, and every process of every other
stream is there afterwards. -/
def StopIsolated (w : World) (table : List Proc) (appId : String) (inst : StreamInstance) : Prop :=
  ∀ a moments r u, Exec hosted a (stopStream appId).run (w, table) moments r u →
    (∀ m ∈ moments, ∀ p ∈ signalled m.before.2 m.op m.result, p.Of inst) ∧
    ∀ other inst', other ≠ appId → w.streams.lookup other = some inst' → ∀ p ∈ table, p.Of inst' → p ∈ u.2

/-- The cage, the tunnel or the application of the instance has died. The application of a
Chrome stream is its browser, which is not its child. -/
def Died (w : World) (table : List Proc) (inst : StreamInstance) : Prop :=
  inst.cage ∈ w.exited ∨ inst.tunnel ∈ w.exited ∨
    if isChrome inst.cfg then ∀ p ∈ table, p.Of inst → p.picked inst.cfg.user = false else inst.app ∈ w.exited

/-- The check of a process has been answered. -/
def answered (m : Moment Host (World × List Proc)) : Bool :=
  match m.op, m.result with
  | .tryWait _, .ok _ => true
  | .tryWait _, .error _ => false
  | .status _ _, .ok code => code = some 0 || code = some 1
  | .status _ _, .error _ => false
  | _, _ => true

/-- The monitor finds the stream dead exactly if a component of its own has died. -/
def VerdictIsolated (w : World) (table : List Proc) (appId : String) (inst : StreamInstance) : Prop :=
  ∀ moments dead u, Exec hosted .monitor findDead (w, table) moments dead u → (∀ m ∈ moments, answered m = true) →
    ((∃ cfg, (appId, cfg) ∈ dead) ↔ Died w table inst)

/-- Whoever the stream's user runs with Chrome's command line belongs to the stream. -/
def Alone (table : List Proc) (inst : StreamInstance) : Prop :=
  ∀ p ∈ table, p.picked inst.cfg.user = true → p.Of inst

section stop
variable {w : World} {table : List Proc} {appId : String} {inst : StreamInstance} {a : Actor}

/-- The calls of a stop of the instance, as to the signals they send. -/
def Op.Strikes (inst : StreamInstance) : Op → Prop
  | .kill child => child ∈ inst.children
  | .status _ args => isChrome inst.cfg = true ∧ args = pickArgs inst.cfg.user
  | _ => True

theorem tearDown_strikes (inst : StreamInstance) : (tearDown inst).Only (Op.Strikes inst) := by
  have cage : inst.cage ∈ inst.children := by simp [StreamInstance.children]
  have tunnel : inst.tunnel ∈ inst.children := by simp [StreamInstance.children]
  have app : inst.app ∈ inst.children := by simp [StreamInstance.children]
  refine ⟨cage, fun _ => ⟨tunnel, fun _ => ⟨app, fun _ => ?_⟩⟩⟩
  split
  · rename_i chrome
    exact ⟨⟨chrome, rfl⟩, fun _ => ⟨trivial, fun _ => ⟨trivial, fun _ => ⟨trivial, fun _ => ⟨trivial, fun _ =>
      ⟨trivial, fun _ => ⟨trivial, fun _ => ⟨trivial, fun _ => trivial⟩⟩⟩⟩⟩⟩⟩⟩
  · exact ⟨trivial, fun _ => ⟨trivial, fun _ => ⟨trivial, fun _ => ⟨trivial, fun _ =>
      ⟨trivial, fun _ => ⟨trivial, fun _ => ⟨trivial, fun _ => trivial⟩⟩⟩⟩⟩⟩⟩

theorem mem_signalled {op : Op} {r : op.Ret} {p : Proc} (member : p ∈ signalled table op r) :
    p ∈ table ∧ ((∃ child, op = .kill child ∧ p.root = some child) ∨
      ∃ args, op = .status "pkill" args ∧ reached args p = true) := by
  unfold signalled at member
  split at member
  · obtain ⟨there, own⟩ := List.mem_filter.mp member
    simp only [Bool.and_eq_true, decide_eq_true_eq] at own
    exact ⟨there, .inl ⟨_, rfl, own.2⟩⟩
  · split at member
    · rename_i pkill
      obtain ⟨there, hit⟩ := List.mem_filter.mp member
      exact ⟨there, .inr ⟨_, pkill ▸ rfl, hit⟩⟩
    · exact absurd member List.not_mem_nil
  · exact absurd member List.not_mem_nil

/-- Where the stream's user runs no foreign process with Chrome's command line, whatever
a stop signals is the stream's own. -/
theorem strikes_own {op : Op} {r : op.Ret} (strikes : op.Strikes inst) (alone : isChrome inst.cfg = true → Alone table inst)
    {p : Proc} (member : p ∈ signalled table op r) : p.Of inst := by
  rcases mem_signalled member with ⟨there, ⟨child, rfl, root⟩ | ⟨args, rfl, hit⟩⟩
  · exact ⟨child, strikes, root⟩
  · obtain ⟨chrome, rfl⟩ := strikes
    exact alone chrome p there (by simpa using hit)

/-- The processes there were when a stop began: all that are there, and all of them that
are not of the instance. -/
def Spared (table : List Proc) (inst : StreamInstance) (u : World × List Proc) : Prop :=
  (∀ p ∈ u.2, p ∈ table) ∧ ∀ p ∈ table, ¬ p.Of inst → p ∈ u.2

theorem spared_effect (alone : isChrome inst.cfg = true → Alone table inst) (u : World × List Proc) (op : Op) (r : op.Ret)
    (strikes : op.Strikes inst) (spared : Spared table inst u) : Spared table inst (hosted.effect a u op r) := by
  obtain ⟨fewer, others⟩ := spared
  have still (chrome : isChrome inst.cfg = true) : Alone u.2 inst :=
    fun p there picked => alone chrome p (fewer p there) picked
  refine ⟨fun p there => fewer p (List.mem_filter.mp there).1, fun p there foreign => ?_⟩
  refine List.mem_filter.mpr ⟨others p there foreign, ?_⟩
  have missed : p ∉ signalled u.2 op r := fun hit => foreign (strikes_own strikes still hit)
  simpa using missed

theorem cleared_strikes (appId : String) (inst : StreamInstance) :
    (tearDown inst >>= fun _ => (removeFromRegistry appId).run >>= fun _ =>
      (.ret (.ok ()) : Task (Except StreamError Unit))).Only (Op.Strikes inst) := by
  have records (op : Op) (records : op.Records) : op.Strikes inst := by
    cases op with
    | registryLoad | registryMkdir | registryWriteTmp _ | registryRename => trivial
    | _ => exact records.elim
  exact (tearDown_strikes inst).bind fun _ => ((remove_records appId).mono records).bind fun _ => trivial

/-- A stop of a stream that is alone with its user's Chrome processes. -/
theorem stopStream_spares (known : w.streams.lookup appId = some inst)
    (alone : isChrome inst.cfg = true → Alone table inst) {moments : List (Moment Host (World × List Proc))}
    {r : Except StreamError Unit} {u : World × List Proc}
    (exec : Exec hosted a (stopStream appId).run (w, table) moments r u) :
    (∀ m ∈ moments, ∀ p ∈ signalled m.before.2 m.op m.result, p.Of inst) ∧ Spared table inst u := by
  have keep := spared_effect (a := a) alone
  have start : Spared table inst (w, table) := ⟨fun _ there => there, fun _ there _ => there⟩
  unfold stopStream at exec
  rw [recorded_run, stopBody_run] at exec
  obtain ⟨_, _, _, rfl, exec⟩ := exec
  obtain ⟨first, answer, middle, rest, body, back, rfl⟩ := exec_bind.mp exec
  obtain ⟨_, _, _, rfl, body⟩ := body
  obtain ⟨found, _, may, rfl, body⟩ := body
  obtain ⟨_, _, _, rfl, body⟩ := body
  have found : found = some inst := (World.may_streamsRemove (Bool.and_eq_true_iff.mp may).1).2.trans known
  subst found
  obtain ⟨_, _, _, rfl, back⟩ := back
  obtain ⟨rfl, _, rfl⟩ := back
  have entered := keep _ (.note (.invoked (.stop appId))) () trivial start
  have locked := keep _ .lock () trivial entered
  have removed := keep _ (.streamsRemove appId) (some inst) trivial locked
  have unlocked := keep _ .unlock () trivial removed
  have cleared := body.always (cleared_strikes appId inst) (fun u op r strikes _ => keep u op r strikes) unlocked
  have last := body.preserve (cleared_strikes appId inst) (fun u op r strikes _ => keep u op r strikes) unlocked
  refine ⟨fun m member p hit => ?_, keep _ (.note (.returned (.stop appId) answer.isOk)) () trivial last⟩
  simp only [List.mem_cons, List.mem_append, List.not_mem_nil, or_false] at member
  rcases member with rfl | (rfl | rfl | rfl | member) | rfl
  · exact absurd hit List.not_mem_nil
  · exact absurd hit List.not_mem_nil
  · exact absurd hit List.not_mem_nil
  · exact absurd hit List.not_mem_nil
  · obtain ⟨⟨fewer, _⟩, strikes⟩ := cleared m member
    exact strikes_own strikes (fun chrome p there picked => alone chrome p (fewer p there) picked) hit
  · exact absurd hit List.not_mem_nil

/-- A torn down Chrome stream: past the pkill, its processes are reaped. -/
theorem tearDown_chrome (chrome : isChrome inst.cfg = true) : ∃ reap : Task Unit, reap.Only Op.TearsDown ∧
    tearDown inst = .call (.kill inst.cage) fun _ => .call (.kill inst.tunnel) fun _ => .call (.kill inst.app) fun _ =>
      .call (.status "pkill" (pickArgs inst.cfg.user)) fun _ => reap := by
  refine ⟨_, ?_, by unfold tearDown; simp only [chrome, if_true]; rfl⟩
  exact ⟨trivial, fun _ => ⟨trivial, fun _ => ⟨trivial, fun _ => ⟨trivial, fun _ =>
    ⟨trivial, fun _ => ⟨trivial, fun _ => ⟨trivial, fun _ => trivial⟩⟩⟩⟩⟩⟩⟩

theorem clears_answered (u : World × List Proc) (op : Op) (clears : op.Clears) : ∃ r, hosted.may a u op r = true := by
  cases op with
  | kill _ | wait _ | status _ _ | removeDirAll _ | registryLoad | registryMkdir | registryWriteTmp _ | registryRename =>
    exact ⟨.error "", rfl⟩
  | abort _ => exact ⟨(), rfl⟩
  | _ => exact False.elim (clears.elim id id)

theorem mem_effect {u : World × List Proc} {op : Op} {r : op.Ret} {p : Proc} (there : p ∈ u.2)
    (missed : p ∉ signalled u.2 op r) : p ∈ (hosted.effect a u op r).2 :=
  List.mem_filter.mpr ⟨there, by simpa using missed⟩

theorem mem_effect_silent {u : World × List Proc} (op : Op) (r : op.Ret) {p : Proc} (silent : signalled u.2 op r = [])
    (there : p ∈ u.2) : p ∈ (hosted.effect a u op r).2 := mem_effect there (by simp [silent])

theorem may_pkill (u : World × List Proc) (args : List String) (r : Except String (Option Int)) :
    hosted.may a u (.status "pkill" args) r = true := by
  refine Bool.and_eq_true_iff.mpr ⟨rfl, ?_⟩
  have other : "pkill" ≠ "pgrep" := by decide
  cases r with
  | error e => rfl
  | ok code =>
    show (if "pkill" = "pgrep" ∧ code = some 0 then u.2.any (reached args)
      else if "pkill" = "pgrep" ∧ code = some 1 then !u.2.any (reached args) else true) = true
    rw [if_neg fun both => other both.1, if_neg fun both => other both.1]

/-- The kills of the three children may fail and the pkill go through. -/
theorem cleared_reaches (appId : String) (chrome : isChrome inst.cfg = true) (u : World × List Proc) {p : Proc}
    (there : p ∈ u.2) (picked : p.picked inst.cfg.user = true) :
    ∃ moments value u', Exec hosted a (tearDown inst >>= fun _ => (removeFromRegistry appId).run >>= fun _ =>
        (.ret (.ok ()) : Task (Except StreamError Unit))) u moments value u' ∧
      ∃ m ∈ moments, p ∈ signalled m.before.2 m.op m.result := by
  obtain ⟨reap, reaps, torn⟩ := tearDown_chrome chrome
  have only : (reap >>= fun _ => (removeFromRegistry appId).run >>= fun _ =>
      (.ret (.ok ()) : Task (Except StreamError Unit))).Only Op.Clears :=
    (reaps.mono fun _ => .inl).bind fun _ => ((remove_records appId).mono fun _ => .inr).bind fun _ => trivial
  let failed : Except String Unit := .error ""
  let found : Except String (Option Int) := .ok (some 0)
  let u₁ := hosted.effect a u (.kill inst.cage) failed
  let u₂ := hosted.effect a u₁ (.kill inst.tunnel) failed
  let u₃ := hosted.effect a u₂ (.kill inst.app) failed
  let pkill : Op := .status "pkill" (pickArgs inst.cfg.user)
  obtain ⟨rest, value, u', later⟩ := Exec.possible (S := hosted) (a := a) _ only clears_answered
    (hosted.effect a u₃ pkill found)
  rw [torn]
  refine ⟨⟨u, .kill inst.cage, failed⟩ :: ⟨u₁, .kill inst.tunnel, failed⟩ :: ⟨u₂, .kill inst.app, failed⟩ ::
    ⟨u₃, pkill, found⟩ :: rest, value, u', ?_, ⟨u₃, pkill, found⟩, by simp, ?_⟩
  · exact ⟨failed, _, rfl, rfl, failed, _, rfl, rfl, failed, _, rfl, rfl, found, rest,
      may_pkill u₃ _ found, rfl, later⟩
  · have first : p ∈ u₁.2 := mem_effect_silent (.kill inst.cage) failed rfl there
    have second : p ∈ u₂.2 := mem_effect_silent (.kill inst.tunnel) failed rfl first
    have third : p ∈ u₃.2 := mem_effect_silent (.kill inst.app) failed rfl second
    show p ∈ if "pkill" = "pkill" then u₃.2.filter (reached (pickArgs inst.cfg.user)) else []
    rw [if_pos rfl]
    exact List.mem_filter.mpr ⟨third, by rwa [reached_pickArgs]⟩

/-- A stop of a Chrome stream can signal every process that its user runs with Chrome's
command line. -/
theorem stopStream_reaches (known : w.streams.lookup appId = some inst) (free : w.holder = none)
    (chrome : isChrome inst.cfg = true) {p : Proc} (there : p ∈ table) (picked : p.picked inst.cfg.user = true) :
    ∃ moments r u, Exec hosted a (stopStream appId).run (w, table) moments r u ∧
      ∃ m ∈ moments, p ∈ signalled m.before.2 m.op m.result := by
  let u₁ := hosted.effect a (w, table) (.note (.invoked (.stop appId))) ()
  let u₂ := hosted.effect a u₁ .lock ()
  let u₃ := hosted.effect a u₂ (.streamsRemove appId) (some inst)
  let u₄ := hosted.effect a u₃ .unlock ()
  have first : p ∈ u₁.2 := mem_effect_silent (u := (w, table)) (.note (.invoked (.stop appId))) () rfl there
  have second : p ∈ u₂.2 := mem_effect_silent .lock () rfl first
  have third : p ∈ u₃.2 := mem_effect_silent (.streamsRemove appId) (some inst) rfl second
  have fourth : p ∈ u₄.2 := mem_effect_silent .unlock () rfl third
  obtain ⟨moments, value, u', body, m, member, hit⟩ := cleared_reaches (a := a) appId chrome u₄ fourth picked
  have removes : hosted.may a u₂ (.streamsRemove appId) (some inst) = true := by
    have held : u₂.1.holder = some a := rfl
    have there : u₂.1.streams.lookup appId = some inst := known
    simp [hosted, World.may, tells, held, there, truly]
  unfold stopStream
  rw [recorded_run, stopBody_run]
  refine ⟨_, value, _, ⟨(), _, rfl, rfl, exec_bind.mpr ⟨_, value, u', _, ⟨(), _, ?_, rfl, some inst, _, removes, rfl,
    (), _, ?_, rfl, body⟩, ⟨(), [], rfl, rfl, rfl, rfl, rfl⟩, rfl⟩⟩, m, ?_, hit⟩
  · simp [hosted, World.may, tells, World.after, free]
  · simp [hosted, World.may, tells, World.after]
  · simp [member]

end stop

section verdict
variable {w : World} {table : List Proc} {appId : String} {inst : StreamInstance} {cfg : StreamConfig}

/-- The monitor's verdict on an instance: its application counts as dead when no process
of that user has Chrome's command line, whosever it is. -/
def Found (w : World) (table : List Proc) (inst : StreamInstance) : Prop :=
  inst.cage ∈ w.exited ∨ inst.tunnel ∈ w.exited ∨
    if isChrome inst.cfg then ∀ p ∈ table, p.picked inst.cfg.user = false else inst.app ∈ w.exited

theorem found_iff_died (alone : isChrome inst.cfg = true → Alone table inst) : Found w table inst ↔ Died w table inst := by
  unfold Found Died
  refine or_congr_right (or_congr_right ?_)
  by_cases chrome : isChrome inst.cfg = true
  · simp only [chrome, if_true]
    refine ⟨fun none p there _ => none p there, fun none p there => ?_⟩
    by_contra picked
    have picked : p.picked inst.cfg.user = true := by simpa using picked
    exact absurd (none p there (alone chrome p there picked)) (by simp [picked])
  · simp only [chrome]
    exact Iff.rfl

variable {moments : List (Moment Host (World × List Proc))} {u : World × List Proc}

theorem effect_silent {a : Actor} {u : World × List Proc} (op : Op) (r : op.Ret) (silent : signalled u.2 op r = [])
    (same : u.1.after a op r = u.1) : hosted.effect a u op r = u := by
  simp [hosted, silent, same]

theorem isDead_exec {child : Child} {dead : Bool}
    (exec : Exec hosted .monitor (isDead child) (w, table) moments dead u) (checked : ∀ m ∈ moments, answered m = true) :
    u = (w, table) ∧ (dead = true ↔ child ∈ w.exited) := by
  obtain ⟨r, _, may, rfl, rfl, rfl, rfl⟩ := exec
  refine ⟨effect_silent (u := (w, table)) (.tryWait child) r rfl rfl, ?_⟩
  have answer := checked _ (List.mem_cons_self ..)
  cases r with
  | error e => cases answer
  | ok dead =>
    have truth : dead = decide (child ∈ w.exited) := of_decide_eq_true (Bool.and_eq_true_iff.mp may).1
    show dead = true ↔ child ∈ w.exited
    rw [truth, decide_eq_true_eq]

theorem pgrep_tells {args : List String} {r : Except String (Option Int)}
    (may : hosted.may .monitor (w, table) (.status "pgrep" args) r = true)
    (answer : r = .ok (some 0) ∨ r = .ok (some 1)) : r = .ok (some 0) ↔ ∃ p ∈ table, reached args p = true := by
  have both : (w.may .monitor (.status "pgrep" args) r && tells table (.status "pgrep" args) r) = true := may
  have told := (Bool.and_eq_true_iff.mp both).2
  rcases answer with rfl | rfl
  · have some : table.any (reached args) = true := told
    exact iff_of_true rfl (List.any_eq_true.mp some)
  · have none : (!table.any (reached args)) = true := told
    refine iff_of_false (by simp) fun ⟨p, there, hit⟩ => ?_
    simp only [Bool.not_eq_true', List.any_eq_false] at none
    exact none p there hit

theorem effect_pgrep (args : List String) (r : Except String (Option Int)) :
    hosted.effect .monitor (w, table) (.status "pgrep" args) r = (w, table) := by
  refine effect_silent (u := (w, table)) (.status "pgrep" args) r ?_ rfl
  have other : "pgrep" ≠ "pkill" := by decide
  cases r with
  | error e => rfl
  | ok code =>
    show (if "pgrep" = "pkill" then table.filter (reached args) else []) = []
    exact if_neg other

theorem appDead_exec {dead : Bool} (exec : Exec hosted .monitor (appDead inst) (w, table) moments dead u)
    (checked : ∀ m ∈ moments, answered m = true) : u = (w, table) ∧ (dead = true ↔
      if isChrome inst.cfg then ∀ p ∈ table, p.picked inst.cfg.user = false else inst.app ∈ w.exited) := by
  unfold appDead at exec
  by_cases chrome : isChrome inst.cfg = true
  · simp only [chrome, if_true] at exec ⊢
    obtain ⟨r, rest, may, rfl, exec⟩ := exec
    have answer : r = (.ok (some 0) : Except String (Option Int)) ∨ r = (.ok (some 1) : Except String (Option Int)) := by
      have answer := checked _ (List.mem_cons_self ..)
      cases r with
      | error e => cases answer
      | ok code =>
        have code_is : code = some 0 ∨ code = some 1 := by simpa [answered] using answer
        exact code_is.imp (congrArg Except.ok) (congrArg Except.ok)
    have told := pgrep_tells may answer
    simp only [reached_args] at told
    have stays : hosted.effect .monitor (w, table) (.status "pgrep" ["-U", inst.cfg.user, "-f", "chrome.*bsdos-chrome"]) r =
        (w, table) := effect_pgrep _ r
    rcases answer with rfl | rfl
    · obtain ⟨rfl, rfl, rfl⟩ := exec
      obtain ⟨p, there, picked⟩ := told.mp rfl
      refine ⟨stays, iff_of_false (by simp) fun none => ?_⟩
      simp [none p there] at picked
    · obtain ⟨rfl, rfl, rfl⟩ := exec
      refine ⟨stays, iff_of_true (by simp) fun p there => ?_⟩
      by_contra picked
      exact nomatch told.mpr ⟨p, there, by simpa using picked⟩
  · simp only [chrome] at exec ⊢
    exact isDead_exec exec checked

theorem collectDead_exec {entries : List (String × StreamInstance)} {dead : List (String × StreamConfig)}
    (exec : Exec hosted .monitor (collectDead entries) (w, table) moments dead u) (checked : ∀ m ∈ moments, answered m = true) :
    u = (w, table) ∧ ((∃ cfg, (appId, cfg) ∈ dead) ↔ ∃ inst, (appId, inst) ∈ entries ∧ Found w table inst) := by
  induction entries generalizing moments dead with
  | nil =>
    obtain ⟨rfl, rfl, rfl⟩ := exec
    simp
  | cons entry entries ih =>
    obtain ⟨appId', inst⟩ := entry
    obtain ⟨_, cageDead, _, _, first, after₁, rfl⟩ := exec_bind.mp exec
    obtain ⟨rfl, cage⟩ := isDead_exec first fun m member => checked m (by simp [member])
    obtain ⟨_, tunnelDead, _, _, second, after₂, rfl⟩ := exec_bind.mp after₁
    obtain ⟨rfl, tunnel⟩ := isDead_exec second fun m member => checked m (by simp [member])
    obtain ⟨_, appDead, _, _, third, last, rfl⟩ := exec_bind.mp after₂
    obtain ⟨rfl, app⟩ := appDead_exec third fun m member => checked m (by simp [member])
    have verdict : (cageDead || tunnelDead || appDead) = true ↔ Found w table inst := by
      simp only [Bool.or_eq_true, Found, cage, tunnel, app, or_assoc]
    have mine : (∃ inst', (appId, inst') ∈ (appId', inst) :: entries ∧ Found w table inst') ↔
        (appId = appId' ∧ Found w table inst) ∨ ∃ inst', (appId, inst') ∈ entries ∧ Found w table inst' := by
      simp only [List.mem_cons, Prod.mk.injEq]
      constructor
      · rintro ⟨inst', ⟨rfl, rfl⟩ | member, found⟩
        · exact .inl ⟨rfl, found⟩
        · exact .inr ⟨inst', member, found⟩
      · rintro (⟨rfl, found⟩ | ⟨inst', member, found⟩)
        · exact ⟨inst, .inl ⟨rfl, rfl⟩, found⟩
        · exact ⟨inst', .inr member, found⟩
    rw [mine]
    by_cases found : Found w table inst
    · rw [if_pos (verdict.mpr found)] at last
      obtain ⟨⟨⟩, tail, _, same, after⟩ := last
      obtain ⟨_, listed, _, _, inner, ⟨rfl, rfl, rfl⟩, rfl⟩ := (exec_bind (p := collectDead entries)).mp after
      have noted : hosted.effect .monitor (w, table) (.note (.died appId')) () = (w, table) :=
        effect_silent (u := (w, table)) (.note (.died appId')) () rfl rfl
      rw [noted] at inner
      obtain ⟨rfl, among⟩ := ih inner fun m member => checked m (by simp [same, member])
      refine ⟨rfl, ?_⟩
      rw [← among]
      simp only [List.mem_cons, Prod.mk.injEq, found, and_true]
      constructor
      · rintro ⟨cfg, ⟨rfl, rfl⟩ | member⟩
        · exact .inl rfl
        · exact .inr ⟨cfg, member⟩
      · rintro (rfl | ⟨cfg, member⟩)
        · exact ⟨inst.cfg, .inl ⟨rfl, rfl⟩⟩
        · exact ⟨cfg, .inr member⟩
    · rw [if_neg fun dead => found (verdict.mp dead)] at last
      obtain ⟨rfl, among⟩ := ih last fun m member => checked m (by simp [member])
      refine ⟨rfl, among.trans ?_⟩
      simp only [found, and_false, false_or]

theorem findDead_exec {dead : List (String × StreamConfig)} (exec : Exec hosted .monitor findDead (w, table) moments dead u)
    (checked : ∀ m ∈ moments, answered m = true) (known : w.streams.lookup appId = some inst) :
    (∃ cfg, (appId, cfg) ∈ dead) ↔ Found w table inst := by
  obtain ⟨⟨⟩, rest, _, same, after₁⟩ := exec
  obtain ⟨answer, rest', may, same', after₂⟩ := after₁
  let entries : List (String × StreamInstance) := answer
  obtain ⟨_, listed, _, _, inner, ⟨_, _, _, _, rfl, rfl, _⟩, rfl⟩ :=
    (exec_bind (p := collectDead entries)).mp after₂
  have looked : hosted.effect .monitor (hosted.effect .monitor (w, table) .lock ()) .streamsEntries entries =
      hosted.effect .monitor (w, table) .lock () :=
    effect_silent (u := hosted.effect .monitor (w, table) .lock ()) .streamsEntries entries rfl rfl
  rw [looked] at inner
  have locked : hosted.effect .monitor (w, table) .lock () = ({ w with holder := some .monitor }, table) := by
    simp [hosted, signalled, World.after]
  rw [locked] at inner may
  have among : (∃ cfg, (appId, cfg) ∈ dead) ↔ _ :=
    (collectDead_exec inner fun m member => checked m (by simp [same, same', member])).2
  have both : (({ w with holder := some Actor.monitor } : World).may .monitor .streamsEntries entries &&
      tells table .streamsEntries entries) = true := may
  have read := (Bool.and_eq_true_iff.mp both).1
  refine among.trans ?_
  have one (inst' : StreamInstance) : (appId, inst') ∈ entries ↔ inst' = inst := by
    rw [World.mem_streamsEntries read]
    exact ⟨fun same => (Option.some.inj (known.symm.trans same)).symm, fun same => same ▸ known⟩
  simp only [one, exists_eq_left]
  exact Iff.rfl

end verdict

/-- Any streams of a daemon's run, and any processes there may be: the stop of a stream and
the monitor's verdict on it are about its own processes exactly if it is no Chrome stream,
or alone with its user's Chrome processes. -/
theorem streams_isolated_iff {registry : File} {c : Config Host Actor World}
    (reach : Reach manager (anyStep manager) (.idle (.fresh registry)) c) (table : List Proc) {appId : String}
    {inst : StreamInstance} (known : c.world.streams.lookup appId = some inst) (free : c.world.holder = none) :
    (StopIsolated c.world table appId inst ∧ VerdictIsolated c.world table appId inst) ↔
      (isChrome inst.cfg = true → Alone table inst) := by
  constructor
  · rintro ⟨stop, _⟩ chrome p there picked
    obtain ⟨moments, r, u, exec, m, member, hit⟩ := stopStream_reaches (a := .ctl) known free chrome there picked
    exact (stop .ctl moments r u exec).1 m member p hit
  · intro alone
    refine ⟨fun a moments r u exec => ?_, fun moments dead u exec checked => ?_⟩
    · obtain ⟨own, _, others⟩ := stopStream_spares known alone exec
      refine ⟨own, fun other inst' different known' p there theirs => others p there fun mine => different ?_⟩
      obtain ⟨child, kid, root⟩ := theirs
      obtain ⟨child', kid', root'⟩ := mine
      cases Option.some.inj (root.symm.trans root')
      have one := (reach_accounted reach).sound.once (.stream other) (.stream appId) child
        (mem_ledger_stream.mpr ⟨inst', known', by simpa [StreamInstance.kids, StreamInstance.children] using kid⟩)
        (mem_ledger_stream.mpr ⟨inst, known, by simpa [StreamInstance.kids, StreamInstance.children] using kid'⟩)
      exact Holder.stream.inj one
    · exact (findDead_exec exec checked known).trans (found_iff_died alone)

/-- Two Chrome streams, both of the default user. -/
def chromeFirst : StreamConfig := { StreamConfig.default with app := "chrome" }

def chromeSecond : StreamConfig := { StreamConfig.default with appId := "appSecond", app := "chrome" }

def chromeCommand (cfg : StreamConfig) (rundir : String) : Command :=
  suCommand cfg rundir ("HOME=/home/" ++ cfg.user ++
    " LIBGL_ALWAYS_SOFTWARE=true MESA_GL_VERSION_OVERRIDE=3.3 /usr/local/bin/chrome --ozone-platform=wayland" ++
    " --no-sandbox --no-first-run --no-default-browser-check --user-data-dir=/home/" ++ cfg.user ++
    "/.bsdos-chrome --force-device-scale-factor=2 --new-window '" ++ cfg.url ++ "'")

/-- The spawns of a start of Chrome. -/
def spawningChrome (cfg : StreamConfig) (child : Child) : List ((op : Op) × op.Ret) :=
  (spawning cfg child).take 7 ++
    [⟨.spawn cfg.appId .app (chromeCommand cfg (rundirFor cfg.appId)), (.ok (child + 2) : Except String Child)⟩]

/-- Both are started. -/
def bothStarted : List (Label manager) :=
  serving manager .ctl (.start chromeFirst) (checking chromeFirst false ++ spawningChrome chromeFirst 0 ++ registering chromeFirst 0 0 []) ++
    serving manager .ctl (.start chromeSecond) (checking chromeSecond false ++ spawningChrome chromeSecond 3 ++ registering chromeSecond 3 3 [chromeFirst])

/-- The browser of a stream, which has left its launcher. -/
def browser (pid : Nat) (app : Child) : Proc :=
  ⟨pid, some app, false, "freebsd", "/usr/local/bin/chrome --user-data-dir=/home/freebsd/.bsdos-chrome about:blank"⟩

/-- A terminal and a browser of one user run. -/
theorem streams_isolated_iff_two : ∃ c : Config Host Actor World,
    c.world.streams.lookup foot.appId = some (footInstance foot 0 0) ∧
    c.world.streams.lookup chromeSecond.appId = some (footInstance chromeSecond 3 3) ∧
    (∀ inst ∈ [footInstance foot 0 0, footInstance chromeSecond 3 3],
      StopIsolated c.world [⟨100, some 2, true, "freebsd", "foot"⟩, browser 200 5] inst.appId inst ∧
      VerdictIsolated c.world [⟨100, some 2, true, "freebsd", "foot"⟩, browser 200 5] inst.appId inst) := by
  obtain ⟨c, reach, checked⟩ := replay_check (fun _ _ => true) (fun _ _ _ => trivial) (Config.idle (.fresh .missing))
    (serving manager .ctl (.start foot) (checking foot false ++ spawning foot 0 ++ registering foot 0 0 []) ++
      serving manager .ctl (.start chromeSecond)
        (checking chromeSecond false ++ spawningChrome chromeSecond 3 ++ registering chromeSecond 3 3 [foot]))
    (fun c => c.world.streams.lookup foot.appId = some (footInstance foot 0 0) ∧
      c.world.streams.lookup chromeSecond.appId = some (footInstance chromeSecond 3 3) ∧ c.world.holder = none)
    (by decide +kernel)
  obtain ⟨terminal, chrome, free⟩ := of_decide_eq_true checked
  refine ⟨c, terminal, chrome, fun inst member => ?_⟩
  rcases List.mem_cons.mp member with rfl | member
  · exact (streams_isolated_iff reach _ terminal free).mpr fun chrome => nomatch chrome
  · obtain rfl := List.mem_singleton.mp member
    refine (streams_isolated_iff reach _ chrome free).mpr fun _ p there picked => ?_
    rcases List.mem_cons.mp there with rfl | there
    · exact absurd picked (by decide)
    · obtain rfl := List.mem_singleton.mp there
      exact ⟨5, by decide, rfl⟩

/-- What a look of the monitor finds when only the second browser is left. -/
def lookingOn : List ((op : Op) × op.Ret) :=
  let waiting (child : Child) : (op : Op) × op.Ret := ⟨.tryWait child, (.ok false : Except String Bool)⟩
  let pgrep : (op : Op) × op.Ret := ⟨.status "pgrep" (pickArgs "freebsd"), (.ok (some 0) : Except String (Option Int))⟩
  [⟨.lock, ()⟩, ⟨.streamsEntries, ([(chromeFirst.appId, footInstance chromeFirst 0 0), (chromeSecond.appId, footInstance chromeSecond 3 3)] :
      List (String × StreamInstance))⟩, waiting 0, waiting 1, pgrep, waiting 3, waiting 4, pgrep, ⟨.unlock, ()⟩]

/-- The stop of the first stream takes the browser of the second along; and while the second
browser runs, the monitor does not find the first stream dead without its own. -/
theorem chrome_streams_share : ∃ c : Config Host Actor World,
    Reach manager (anyStep manager) (.idle (.fresh .missing)) c ∧
    c.world.streams.lookup chromeFirst.appId = some (footInstance chromeFirst 0 0) ∧
    c.world.streams.lookup chromeSecond.appId = some (footInstance chromeSecond 3 3) ∧
    ¬ StopIsolated c.world [browser 100 2, browser 200 5] chromeFirst.appId (footInstance chromeFirst 0 0) ∧
    ¬ VerdictIsolated c.world [browser 200 5] chromeFirst.appId (footInstance chromeFirst 0 0) := by
  obtain ⟨c, reach, checked⟩ := replay_check (fun _ _ => true) (fun _ _ _ => trivial) (Config.idle (.fresh .missing))
    bothStarted
    (fun c => (c.world.streams.lookup chromeFirst.appId = some (footInstance chromeFirst 0 0) ∧
        c.world.streams.lookup chromeSecond.appId = some (footInstance chromeSecond 3 3) ∧ c.world.holder = none) &&
      (play hosted .monitor findDead (c.world, [browser 200 5]) lookingOn).any fun out =>
        out.1.all answered && out.2.1 = []) (by decide +kernel)
  obtain ⟨map, looked⟩ := Bool.and_eq_true_iff.mp checked
  obtain ⟨known, known', free⟩ := of_decide_eq_true map
  refine ⟨c, reach, known, known', fun isolated => ?_, fun isolated => ?_⟩
  · obtain ⟨moments, r, u, exec, m, member, hit⟩ := stopStream_reaches (a := .ctl) known free (by decide)
      (by simp : browser 200 5 ∈ [browser 100 2, browser 200 5]) (by decide)
    exact absurd ((isolated .ctl moments r u exec).1 m member _ hit) (by decide)
  · obtain ⟨⟨moments, dead, u⟩, played, out⟩ := (Option.any_eq_true _ _).mp looked
    obtain ⟨all, none⟩ := Bool.and_eq_true_iff.mp out
    have none : dead = [] := of_decide_eq_true none
    have verdict := isolated moments dead u (play_exec played) (List.all_eq_true.mp all)
    have died : Died c.world [browser 200 5] (footInstance chromeFirst 0 0) := by
      refine .inr (.inr ?_)
      rw [if_pos (by decide)]
      intro p there own
      rw [List.mem_singleton.mp there] at own
      exact absurd own (by decide)
    obtain ⟨cfg, member⟩ := verdict.mpr died
    simp [none] at member

end Bsdos.Streams
